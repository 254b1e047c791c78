import Mathlib.Data.Nat.Basic
import Msm8998.FdtWalk
import Msm8998.ScanBootImage

/-!
# The Device Tree behind the Kernel

This module models `find_appended_dtb` of `remux-boot-image.py` and the part of `main` that
replaces the device tree it finds. The search keeps the last place where the magic number
stands and the size behind it reaches the end of the payload. It reads that size at every
occurrence of the magic number, so it fails when one stands in the last seven bytes.

Which place the search keeps depends only on what begins with the magic number at the end: a
device tree is found at its own start exactly when nothing inside it looks like one that
reaches the end as well.

## Main results

* `findAppendedDtb_eq_ok_iff`, `findAppendedDtb_isOk`: what the search returns, and when.
* `findAppendedDtb_append_iff`: when the start of an appended piece is found.
* `findAppendedDtb_finds_iff`: the same for a device tree, in any context.
* `swapDtb_repeatable_iff`: when a replacement is found again and can be undone.
-/

open Fallible Occurrences OrderedDict

namespace Msm8998

namespace BootImage

open Fdt (Bytes)

/-- The loop of `find_appended_dtb`; `pos += 4` moves on behind each hit. -/
def findAppendedLoop (payload : Bytes) :
    ℕ → ℕ → Option ℕ → Except ToolError (Option ℕ)
  | 0, _, _ => .error .outOfFuel
  | fuel + 1, pos, offset =>
      match find fdtMagicBytes payload pos with
      | none => .ok offset
      | some pos =>
          match Fdt.wordAt payload (pos + 4) with
          | .error _ => .error .structError
          | .ok total =>
              findAppendedLoop payload fuel (pos + 4)
                (if pos + total = payload.length then some pos else offset)

/-- `find_appended_dtb`. -/
def findAppendedDtb (payload : Bytes) : Except ToolError (Option ℕ) :=
  findAppendedLoop payload (payload.length + 1) 0 none

/-- What `main` does with `--dtb`: the new payload. -/
def swapDtb (dtb : String) (payload replacement : Bytes) : Except ToolError Bytes := do
  match ← findAppendedDtb payload with
  | none => .error (.systemExit "no DTB appended at the end of the payload to replace")
  | some offset =>
      if replacement.take 4 ≠ fdtMagicBytes then
        .error (.systemExit (dtb ++ " does not look like a .dtb (bad magic)"))
      else .ok (payload.take offset ++ replacement)

/-! ### What the search returns -/

variable {payload front data : Bytes} {i pos fuel offset : ℕ}

/-- The size at a place reaches the end. -/
def reachesEnd (data : Bytes) (i : ℕ) : Bool :=
  match Fdt.wordAt data (i + 4) with
  | .error _ => false
  | .ok total => decide (i + total = data.length)

/-- The magic number stands so close to the end that no size fits behind it. -/
def MagicAtEnd (data : Bytes) : Prop := ∃ i, OccursAt fdtMagicBytes data i ∧ data.length < i + 8

/-- Something behind the start looks like a device tree that reaches the end. -/
def NestedAtEnd (data : Bytes) : Prop :=
  ∃ i, 0 < i ∧ OccursAt fdtMagicBytes data i ∧ reachesEnd data i = true

/-- The test of the size of a tree, in terms of the word behind the magic. -/
theorem reachesEnd_iff :
    reachesEnd data i = true ↔ ∃ total, Fdt.wordAt data (i + 4) = .ok total ∧
      i + total = data.length := by
  rw [reachesEnd]
  cases Fdt.wordAt data (i + 4) with
  | error e => simp
  | ok total => simp

/-- A word can be read if the data reaches to its end. -/
theorem wordAt_isOk_iff : (∃ w, Fdt.wordAt data pos = .ok w) ↔ pos + 4 ≤ data.length :=
  ⟨fun ⟨_, h⟩ => Fdt.wordAt_ok_le h, wordAt_isOk⟩

/-- **The loop** keeps the last place that reaches the end, and fails at a place without room
for a size. -/
theorem findAppendedLoop_eq (kept : Option ℕ) (hfuel : payload.length - pos < fuel) :
    findAppendedLoop payload fuel pos kept =
      if ∀ i ∈ occurrences fdtMagicBytes payload pos, i + 8 ≤ payload.length then
        .ok ((lastWith? (reachesEnd payload) (occurrences fdtMagicBytes payload pos)).or kept)
      else .error .structError := by
  induction fuel generalizing pos kept with
  | zero => omega
  | succ fuel ih =>
      rw [findAppendedLoop]
      cases hfind : find fdtMagicBytes payload pos with
      | none =>
          rw [find_eq_none hfind, if_pos (List.forall_mem_nil _)]
          rfl
      | some i =>
          obtain ⟨hle, hend, hocc⟩ := occurrences_eq (by decide) (by decide) hfind
          have hfour : fdtMagicBytes.length = 4 := rfl
          rw [hfour] at hend hocc
          rw [hocc]
          simp only [List.forall_mem_cons]
          cases hword : Fdt.wordAt payload (i + 4) with
          | error e =>
              have hshort : ¬ i + 4 + 4 ≤ payload.length := by
                rw [← wordAt_isOk_iff]
                rintro ⟨w, hw⟩
                rw [hword] at hw
                cases hw
              rw [if_neg fun h => hshort h.1]
          | ok total =>
              have hroom := Fdt.wordAt_ok_le hword
              have hreaches : reachesEnd payload i = decide (i + total = payload.length) := by
                rw [reachesEnd, hword]
              simp only [ih _ (by omega : payload.length - (i + 4) < fuel), lastWith?_cons,
                hreaches, decide_eq_true_eq, show i + 8 ≤ payload.length by omega, true_and]
              congr 2
              rw [Option.or_assoc]
              split
              · rfl
              · rw [Option.none_or]

/-- **What the search returns.** -/
theorem findAppendedDtb_eq (payload : Bytes) :
    findAppendedDtb payload =
      if ∀ i ∈ occurrences fdtMagicBytes payload 0, i + 8 ≤ payload.length then
        .ok (lastWith? (reachesEnd payload) (occurrences fdtMagicBytes payload 0))
      else .error .structError := by
  rw [findAppendedDtb, findAppendedLoop_eq none (Nat.lt_succ_of_le (Nat.sub_le _ _)),
    Option.or_none]

/-- The search finds the magic just where it stands. -/
theorem mem_occurrences_iff :
    i ∈ occurrences fdtMagicBytes payload 0 ↔ OccursAt fdtMagicBytes payload i := by
  rw [mem_occurrences (by decide), and_iff_right (Nat.zero_le i)]

/-- Every magic that is found has room for the word behind it, unless one stands at the end. -/
theorem occurrences_room_iff :
    (∀ i ∈ occurrences fdtMagicBytes payload 0, i + 8 ≤ payload.length) ↔
      ¬ MagicAtEnd payload := by
  simp only [mem_occurrences_iff, MagicAtEnd, not_exists, not_and, Nat.not_lt]

/-- The search returns when there is room for a size behind every magic number. -/
theorem findAppendedDtb_isOk : (∃ r, findAppendedDtb payload = .ok r) ↔ ¬ MagicAtEnd payload := by
  rw [findAppendedDtb_eq, ← occurrences_room_iff]
  split
  · rename_i hroom
    exact iff_of_true ⟨_, rfl⟩ hroom
  · rename_i hroom
    exact iff_of_false (by simp) hroom

/-- **The place that is found** is the last that reaches the end. -/
theorem findAppendedDtb_eq_ok_iff :
    findAppendedDtb payload = .ok (some offset) ↔ ¬ MagicAtEnd payload ∧
      OccursAt fdtMagicBytes payload offset ∧ reachesEnd payload offset = true ∧
      ∀ i, OccursAt fdtMagicBytes payload i → offset < i → reachesEnd payload i = false := by
  rw [findAppendedDtb_eq, ← occurrences_room_iff]
  split
  · rename_i hroom
    rw [and_iff_right hroom, Except.ok.injEq,
      lastWith?_eq_some_iff (occurrences_pairwise _ _ _)]
    simp only [mem_occurrences_iff]
  · rename_i hroom
    exact iff_of_false (by simp) fun h => hroom h.1

/-! ### A piece at the end -/

/-- What stands in front of the payload does not change the words in it. -/
theorem wordAt_append_left (front : Bytes) (pos : ℕ) :
    Fdt.wordAt (front ++ data) (front.length + pos) = Fdt.wordAt data pos := by
  rw [Fdt.wordAt, List.drop_length_add_append, Fdt.wordAt]

/-- Nor does it change which trees reach to the end. -/
theorem reachesEnd_append_left (front : Bytes) (i : ℕ) :
    reachesEnd (front ++ data) (front.length + i) = reachesEnd data i := by
  rw [reachesEnd, Nat.add_assoc, wordAt_append_left, reachesEnd]
  simp only [List.length_append, Nat.add_assoc, Nat.add_left_cancel_iff]

/-- In front of a magic number there is always room for a size. -/
theorem magicAtEnd_append_iff (hmagic : OccursAt fdtMagicBytes data 0) :
    MagicAtEnd (front ++ data) ↔ MagicAtEnd data := by
  have hstart := (occursAt_append_left_iff front).mpr hmagic
  have hfour := hmagic.add_length_le_length (by decide)
  rw [show fdtMagicBytes.length = 4 from rfl] at hfour
  constructor
  · rintro ⟨i, hocc, hlt⟩
    rw [List.length_append] at hlt
    by_cases hbefore : i < front.length
    · have hfar := hocc.add_length_le (by decide) hstart hbefore
      rw [show fdtMagicBytes.length = 4 from rfl] at hfar
      omega
    · obtain ⟨j, rfl⟩ := Nat.exists_eq_add_of_le (Nat.not_lt.mp hbefore)
      exact ⟨j, (occursAt_append_left_iff front).mp hocc, by omega⟩
  · rintro ⟨i, hocc, hlt⟩
    refine ⟨front.length + i, (occursAt_append_left_iff front).mpr hocc, ?_⟩
    rw [List.length_append]
    omega

/-- **An appended piece** that begins with the magic number is found at its start exactly when
its size is its length and nothing behind its start is taken for it. -/
theorem findAppendedDtb_append_iff (hmagic : OccursAt fdtMagicBytes data 0) :
    findAppendedDtb (front ++ data) = .ok (some front.length) ↔
      Fdt.wordAt data 4 = .ok data.length ∧ ¬ MagicAtEnd data ∧ ¬ NestedAtEnd data := by
  have hstart := (occursAt_append_left_iff front).mpr hmagic
  have hreaches : reachesEnd (front ++ data) front.length = true ↔
      Fdt.wordAt data 4 = .ok data.length := by
    have hzero : reachesEnd (front ++ data) (front.length + 0) = reachesEnd data 0 :=
      reachesEnd_append_left front 0
    rw [Nat.add_zero] at hzero
    rw [hzero, reachesEnd_iff, Nat.zero_add]
    simp only [Nat.zero_add, exists_eq_right]
  have hbehind : (∀ i, OccursAt fdtMagicBytes (front ++ data) i → front.length < i →
      reachesEnd (front ++ data) i = false) ↔ ¬ NestedAtEnd data := by
    constructor
    · rintro hnone ⟨i, hpos, hocc, hend⟩
      have hfalse := hnone (front.length + i) ((occursAt_append_left_iff front).mpr hocc)
        (by omega)
      rw [reachesEnd_append_left, hend] at hfalse
      cases hfalse
    · intro hnone i hocc hlt
      obtain ⟨j, rfl⟩ := Nat.exists_eq_add_of_le (Nat.le_of_lt hlt)
      rw [reachesEnd_append_left, Bool.eq_false_iff]
      intro hend
      exact hnone ⟨j, by omega, (occursAt_append_left_iff front).mp hocc, hend⟩
  rw [add_zero] at hstart
  rw [findAppendedDtb_eq_ok_iff, magicAtEnd_append_iff hmagic, hreaches, hbehind,
    and_iff_right hstart]
  exact and_left_comm

/-- A device tree, as far as the search looks at it: the magic number and its own length. -/
def IsDtb (data : Bytes) : Prop :=
  OccursAt fdtMagicBytes data 0 ∧ Fdt.wordAt data 4 = .ok data.length

instance (data : Bytes) : Decidable (IsDtb data) := inferInstanceAs (Decidable (_ ∧ _))

/-- **Finding a device tree.** The search returns on every payload that has no magic number in
its last seven bytes, and an appended device tree is found exactly when it has none there and
nothing inside it looks like a device tree that reaches its end. -/
theorem findAppendedDtb_finds_iff (payload firmware dtb : Bytes) (hdtb : IsDtb dtb) :
    ((∃ r, findAppendedDtb payload = .ok r) ↔ ¬ MagicAtEnd payload) ∧
      (findAppendedDtb (firmware ++ dtb) = .ok (some firmware.length) ↔
        ¬ MagicAtEnd dtb ∧ ¬ NestedAtEnd dtb) := by
  refine ⟨findAppendedDtb_isOk, ?_⟩
  rw [findAppendedDtb_append_iff hdtb.1, and_iff_right hdtb.2]

/-- A device tree of 48 bytes whose last eight are one again. -/
def nestedDtb : Bytes :=
  fdtMagicBytes ++ [0, 0, 0, 48] ++ List.replicate 32 0 ++ fdtMagicBytes ++ [0, 0, 0, 8]

/-- The criteria at that device tree behind a firmware of one byte. -/
theorem findAppendedDtb_finds_nestedDtb :
    ((∃ r, findAppendedDtb fdtMagicBytes = .ok r) ↔ ¬ MagicAtEnd fdtMagicBytes) ∧
      (findAppendedDtb ([31] ++ nestedDtb) = .ok (some [(31 : UInt8)].length) ↔
        ¬ MagicAtEnd nestedDtb ∧ ¬ NestedAtEnd nestedDtb) :=
  findAppendedDtb_finds_iff fdtMagicBytes [31] nestedDtb (by decide +kernel)

/-- There the inner one is found, and on the bare magic number the search fails. -/
theorem nestedDtb_missed :
    IsDtb nestedDtb ∧ findAppendedDtb ([31] ++ nestedDtb) = .ok (some 41) ∧
      findAppendedDtb fdtMagicBytes = .error .structError := by
  decide +kernel

/-! ### Swapping -/

/-- A replacement that is accepted takes the place of what was found. -/
theorem swapDtb_eq_ok_iff {dtb : String} {replacement new : Bytes}
    (hfind : findAppendedDtb payload = .ok (some offset)) :
    swapDtb dtb payload replacement = .ok new ↔
      OccursAt fdtMagicBytes replacement 0 ∧ new = payload.take offset ++ replacement := by
  have hmagic : OccursAt fdtMagicBytes replacement 0 ↔ replacement.take 4 = fdtMagicBytes := by
    rw [OccursAt, List.drop_zero, List.prefix_iff_eq_take, eq_comm]
    rfl
  rw [swapDtb, hfind, ok_bind]
  dsimp only
  rw [hmagic]
  split
  · rename_i hne
    exact iff_of_false (by simp) fun h => hne h.1
  · rename_i heq
    rw [not_not] at heq
    rw [and_iff_right heq, Except.ok.injEq, eq_comm]

/-- What was found begins with the magic number and lies inside the payload. -/
theorem found_tail (hfind : findAppendedDtb payload = .ok (some offset)) :
    OccursAt fdtMagicBytes (payload.drop offset) 0 ∧ (payload.take offset).length = offset := by
  obtain ⟨-, hocc, -⟩ := findAppendedDtb_eq_ok_iff.mp hfind
  have hlen := hocc.add_length_le_length (by decide)
  refine ⟨hocc, ?_⟩
  rw [List.length_take]
  omega

/-- **Swaps.** When the device tree of a payload has been replaced, the replacement is found at
the same place and swapping the original back in restores the payload, exactly when the size of
the replacement is its length, no magic number stands in its last seven bytes and nothing
inside it looks like a device tree that reaches its end. -/
theorem swapDtb_repeatable_iff (payload replacement new : Bytes) (offset : ℕ)
    (dtb original : String) (hfind : findAppendedDtb payload = .ok (some offset))
    (hswap : swapDtb dtb payload replacement = .ok new) :
    (findAppendedDtb new = .ok (some offset) ∧
        swapDtb original new (payload.drop offset) = .ok payload) ↔
      Fdt.wordAt replacement 4 = .ok replacement.length ∧ ¬ MagicAtEnd replacement ∧
        ¬ NestedAtEnd replacement := by
  obtain ⟨hmagic, rfl⟩ := (swapDtb_eq_ok_iff hfind).mp hswap
  obtain ⟨htail, hlen⟩ := found_tail hfind
  have hfound : findAppendedDtb (payload.take offset ++ replacement) =
      .ok (some (payload.take offset).length) ↔ _ := findAppendedDtb_append_iff hmagic
  rw [hlen] at hfound
  rw [← hfound]
  refine ⟨And.left, fun hnew => ⟨hnew, (swapDtb_eq_ok_iff hnew).mpr ⟨htail, ?_⟩⟩⟩
  rw [List.take_left' hlen, List.take_append_drop]

/-- The smallest piece that is taken for a device tree, and one whose size is wrong. -/
def smallDtb (size : UInt8) : Bytes := fdtMagicBytes ++ [0, 0, 0, size]

/-- The criterion for a swap of these two. -/
theorem swapDtb_repeatable_smallDtb :
    (findAppendedDtb (smallDtb 9) = .ok (some 0) ∧
        swapDtb "old.dtb" (smallDtb 9) (smallDtb 8) = .ok (smallDtb 8)) ↔
      Fdt.wordAt (smallDtb 9) 4 = .ok (smallDtb 9).length ∧ ¬ MagicAtEnd (smallDtb 9) ∧
        ¬ NestedAtEnd (smallDtb 9) :=
  swapDtb_repeatable_iff (smallDtb 8) (smallDtb 9) (smallDtb 9) 0 "new.dtb" "old.dtb"
    (by decide +kernel) (by decide +kernel)

/-- The piece with the wrong size is accepted, and then no device tree is found. -/
theorem smallDtb_not_repeatable :
    findAppendedDtb (smallDtb 8) = .ok (some 0) ∧
      swapDtb "new.dtb" (smallDtb 8) (smallDtb 9) = .ok (smallDtb 9) ∧
      findAppendedDtb (smallDtb 9) = .ok none ∧
      swapDtb "old.dtb" (smallDtb 9) (smallDtb 8) =
        .error (.systemExit "no DTB appended at the end of the payload to replace") := by
  decide +kernel

end BootImage

end Msm8998
