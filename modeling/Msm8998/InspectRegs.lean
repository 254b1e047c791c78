import Mathlib.Data.Nat.Digits.Defs
import Msm8998.FdtParse
import Msm8998.FullChunks

/-!
# Decoding `reg`

This module models `cells` and `regs` of `inspect-dtb.py`: the cell counts that are in force at
a node, found by a walk over the prefixes of its path, and the `(address, length)` pairs that
its `reg` property holds.

## Main results

* `countProps_eq`, `foldlM_countProps`: what the walk has found, node by node.
* `regPairs_eq`: the loop over the words splits them into groups of cells.
-/

open Fallible FullChunks OrderedDict

namespace Msm8998

namespace Fdt

/-! ### The source -/

/-- `ac` and `sc`. -/
structure CellCounts where
  ac : ℕ
  sc : ℕ
deriving Repr, DecidableEq

/-- `struct.unpack(">I", value[:4])[0]`. -/
def unpackWord (value : Bytes) : Except PyError ℕ := wordAt (value.take 4) 0

/-- The body of the inner loop of `cells`. -/
def countProp (counts : CellCounts) (p : Str × Bytes) : Except PyError CellCounts := do
  if p.1 = "#address-cells".toList then
    let ac ← unpackWord p.2
    return { counts with ac }
  else if p.1 = "#size-cells".toList then
    let sc ← unpackWord p.2
    return { counts with sc }
  else
    return counts

/-- The inner loop of `cells`, over the properties of one node. -/
def countProps (counts : CellCounts) (ps : List (Str × Bytes)) : Except PyError CellCounts :=
  ps.foldlM countProp counts

/-- `props.get(path, [])`. -/
def propsOf (props : Dict Str (List (Str × Bytes))) (path : Str) : List (Str × Bytes) :=
  (props.get? path).getD []

/-- `[p for p in path.split("/") if p]`. -/
def pathParts (path : Str) : List Str := (path.splitOn '/').filter fun p => decide (p ≠ [])

/-- `"/" + "/".join(parts)`. -/
def joinPath (parts : List Str) : Str := '/' :: ['/'].intercalate parts

/-- `cells`. -/
def cells (props : Dict Str (List (Str × Bytes))) (path : Str) : Except PyError CellCounts :=
  (List.range ((pathParts path).length + 1)).foldlM
    (fun counts i => countProps counts (propsOf props (joinPath ((pathParts path).take i)))) ⟨2, 1⟩

/-- `words[start:stop]`. -/
def sliceWords (words : List ℕ) (start stop : ℕ) : List ℕ :=
  (words.drop start).take (stop - start)

/-- `range(0, stop, step)`; `stop` is zero where the source has a negative number. -/
def pyRange (stop step : ℕ) : Except PyError (List ℕ) :=
  if step = 0 then .error .valueError else .ok (strides stop step)

/-- The number that a loop over words shifts together. -/
def shiftWords (words : List ℕ) : ℕ := words.foldl (fun n word => n <<< 32 ||| word) 0

/-- The pairs of one `reg` property. -/
def regPairs (counts : CellCounts) (value : Bytes) : Except PyError (List (ℕ × ℕ)) := do
  let words := unpackWords value
  let step := counts.ac + counts.sc
  let places ← pyRange (words.length + 1 - step) step
  return places.map fun i => (shiftWords (sliceWords words i (i + counts.ac)),
    shiftWords (sliceWords words (i + counts.ac) (i + step)))

/-- `regs`. -/
def regs (props : Dict Str (List (Str × Bytes))) (path : Str) :
    Except PyError (List (ℕ × ℕ)) :=
  (propsOf props path).foldlM (fun out p =>
    if p.1 ≠ "reg".toList then return out
    else do
      let counts ← cells props path
      let pairs ← regPairs counts p.2
      return out ++ pairs) []

/-! ### Cells of a value -/

/-- The number that big-endian cells make up. -/
def cellNumber (cells : List ℕ) : ℕ := Nat.ofDigits (2 ^ 32) cells.reverse

/-- A value as big-endian cells; bytes that do not fill a cell are dropped. -/
def valueCells (value : Bytes) : List ℕ :=
  (chunks 4 value).map fun bs => Nat.ofDigits (2 ^ 8) (bs.map UInt8.toNat).reverse

/-- The first cell, when there is a full one. -/
theorem valueCells_of_le {value : Bytes} (h : 4 ≤ value.length) :
    valueCells value =
      Nat.ofDigits (2 ^ 8) ((value.take 4).map UInt8.toNat).reverse ::
        valueCells (value.drop 4) := by
  rw [valueCells, chunks_of_le (by decide) h]
  rfl

/-- Bytes that do not fill a cell are no cell. -/
theorem valueCells_of_lt {value : Bytes} (h : value.length < 4) : valueCells value = [] := by
  rw [valueCells, chunks_of_lt h, List.map_nil]

/-- A cell is four bytes, the highest first. -/
theorem valueCells_cons (a b c d : UInt8) (rest : Bytes) :
    valueCells (a :: b :: c :: d :: rest) =
      (a.toNat * 2 ^ 24 + b.toNat * 2 ^ 16 + c.toNat * 2 ^ 8 + d.toNat) :: valueCells rest := by
  rw [valueCells_of_le (by simp)]
  refine congrArg₂ _ ?_ rfl
  simp [Nat.ofDigits]
  omega

/-- A value that does not start with four bytes is shorter. -/
theorem length_lt_of_forall_ne {value : Bytes}
    (h : ∀ a b c d rest, value = a :: b :: c :: d :: rest → False) : value.length < 4 := by
  match value with
  | [] | [_] | [_, _] | [_, _, _] => simp
  | a :: b :: c :: d :: rest => exact absurd rfl (h a b c d rest)

/-- The words of a value are its cells. -/
theorem unpackWords_eq (value : Bytes) : unpackWords value = valueCells value := by
  induction value using unpackWords.induct with
  | case1 a b c d rest ih => rw [unpackWords, ih, valueCells_cons]
  | case2 bs h => rw [unpackWords, valueCells_of_lt (length_lt_of_forall_ne h)]; exact h

/-- A cell is a number of 32 bits. -/
theorem valueCells_lt (value : Bytes) : ∀ n ∈ valueCells value, n < 2 ^ 32 := by
  induction value using unpackWords.induct with
  | case1 a b c d rest ih =>
      rw [valueCells_cons]
      refine List.forall_mem_cons.mpr ⟨?_, ih⟩
      have ha := a.toNat_lt
      have hb := b.toNat_lt
      have hc := c.toNat_lt
      have hd := d.toNat_lt
      omega
  | case2 bs h =>
      rw [valueCells_of_lt (length_lt_of_forall_ne h)]
      exact List.forall_mem_nil _

/-- Shifting the words together makes up their number. -/
theorem shiftWords_eq {words : List ℕ} (h : ∀ n ∈ words, n < 2 ^ 32) :
    shiftWords words = cellNumber words := by
  induction words using List.reverseRecOn with
  | nil => rfl
  | append_singleton words n ih =>
      have hn : n < 2 ^ 32 := h n (by simp)
      have hwords := ih fun m hm => h m (List.mem_append_left _ hm)
      rw [shiftWords] at hwords
      rw [shiftWords, List.foldl_append, hwords, List.foldl_cons, List.foldl_nil,
        ← Nat.shiftLeft_add_eq_or_of_lt hn, Nat.shiftLeft_eq, cellNumber, cellNumber,
        List.reverse_append, List.reverse_singleton, List.singleton_append, Nat.ofDigits_cons,
        Nat.add_comm, Nat.mul_comm]

/-! ### Groups of cells -/

/-- Cells split into pairs of an address of `ac` cells and a length of `sc` cells. -/
def splitPairs (counts : CellCounts) (cells : List ℕ) : List (ℕ × ℕ) :=
  (chunks (counts.ac + counts.sc) cells).map fun group =>
    (cellNumber (group.take counts.ac), cellNumber (group.drop counts.ac))

/-- So are the cells of a slice. -/
theorem sliceWords_lt {words : List ℕ} (h : ∀ n ∈ words, n < 2 ^ 32) (start stop : ℕ) :
    ∀ n ∈ sliceWords words start stop, n < 2 ^ 32 :=
  fun n hn => h n (List.mem_of_mem_drop (List.mem_of_mem_take hn))

/-- **The loop over the words** splits them; with no cells at all it cannot start. -/
theorem regPairs_eq (counts : CellCounts) (value : Bytes) :
    regPairs counts value = if counts.ac + counts.sc = 0 then .error .valueError
      else .ok (splitPairs counts (valueCells value)) := by
  rw [regPairs, unpackWords_eq, pyRange]
  split
  · rfl
  · rename_i hstep
    rw [ok_bind, splitPairs, ← map_strides (Nat.pos_of_ne_zero hstep), List.map_map]
    refine congrArg _ (List.map_congr_left fun i _ => ?_)
    rw [shiftWords_eq (sliceWords_lt (valueCells_lt value) _ _),
      shiftWords_eq (sliceWords_lt (valueCells_lt value) _ _), Function.comp_apply, sliceWords,
      sliceWords, List.take_take, List.drop_take, List.drop_drop]
    have haddress : i + counts.ac - i = min counts.ac (counts.ac + counts.sc) := by omega
    have hlength : i + (counts.ac + counts.sc) - (i + counts.ac) =
        counts.ac + counts.sc - counts.ac := by omega
    rw [haddress, hlength]

/-! ### The counts that a walk finds -/

/-- The count that a property gives under a name: its first cell. -/
def countOf (name : Str) (p : Str × Bytes) : Option ℕ :=
  if p.1 = name then (valueCells p.2).head? else none

/-- A count property holds a cell. -/
def CountHasCell (p : Str × Bytes) : Prop :=
  p.1 = "#address-cells".toList ∨ p.1 = "#size-cells".toList → 4 ≤ p.2.length

instance : DecidablePred CountHasCell := fun p =>
  inferInstanceAs (Decidable (p.1 = "#address-cells".toList ∨ p.1 = "#size-cells".toList →
    4 ≤ p.2.length))

/-- Counts of which some are overridden. -/
def CellCounts.override (counts : CellCounts) (ac sc : Option ℕ) : CellCounts :=
  ⟨ac.getD counts.ac, sc.getD counts.sc⟩

/-- What is unpacked of a long enough value is its first cell. -/
theorem unpackWord_of_le {value : Bytes} (h : 4 ≤ value.length) :
    ∃ n, unpackWord value = .ok n ∧ (valueCells value).head? = some n := by
  match value, h with
  | a :: b :: c :: d :: rest, _ => exact ⟨_, rfl, by rw [valueCells_cons, List.head?_cons]⟩

/-- A shorter value is an error. -/
theorem unpackWord_of_lt {value : Bytes} (h : value.length < 4) :
    unpackWord value = .error .structError := by
  match value with
  | [] | [_] | [_, _] | [_, _, _] => rfl
  | _ :: _ :: _ :: _ :: _ => simp only [List.length_cons] at h; omega

/-- **One property** of a walk. -/
theorem countProp_eq (counts : CellCounts) (p : Str × Bytes) :
    countProp counts p = if CountHasCell p
      then .ok (counts.override (countOf "#address-cells".toList p)
        (countOf "#size-cells".toList p))
      else .error .structError := by
  have hne : "#size-cells".toList ≠ "#address-cells".toList := by decide
  by_cases hac : p.1 = "#address-cells".toList
  · have hsc : p.1 ≠ "#size-cells".toList := fun h => hne (h.symm.trans hac)
    rw [countProp, if_pos hac]
    rcases Nat.lt_or_ge p.2.length 4 with hlt | hle
    · rw [unpackWord_of_lt hlt, if_neg fun h => Nat.not_le.mpr hlt (h (.inl hac))]
      rfl
    · have hholds : CountHasCell p := fun _ => hle
      obtain ⟨n, hn, hcell⟩ := unpackWord_of_le hle
      rw [hn, if_pos hholds, countOf, if_pos hac, countOf, if_neg hsc, hcell]
      rfl
  by_cases hsc : p.1 = "#size-cells".toList
  · rw [countProp, if_neg hac, if_pos hsc]
    rcases Nat.lt_or_ge p.2.length 4 with hlt | hle
    · rw [unpackWord_of_lt hlt, if_neg fun h => Nat.not_le.mpr hlt (h (.inr hsc))]
      rfl
    · have hholds : CountHasCell p := fun _ => hle
      obtain ⟨n, hn, hcell⟩ := unpackWord_of_le hle
      rw [hn, if_pos hholds, countOf, if_neg hac, countOf, if_pos hsc, hcell]
      rfl
  · have hholds : CountHasCell p := fun hcount => absurd hcount (not_or.mpr ⟨hac, hsc⟩)
    rw [countProp, if_neg hac, if_neg hsc, if_pos hholds, countOf, if_neg hac, countOf, if_neg hsc]
    rfl

/-- Overriding again and again leaves the last override. -/
theorem foldl_override {α : Type*} (f g : α → Option ℕ) (xs : List α) (counts : CellCounts) :
    xs.foldl (fun counts x => counts.override (f x) (g x)) counts =
      counts.override (lastSome? f xs) (lastSome? g xs) := by
  induction xs using List.reverseRecOn with
  | nil => rfl
  | append_singleton xs x ih =>
      rw [List.foldl_append, ih, List.foldl_cons, List.foldl_nil, lastSome?_concat,
        lastSome?_concat, CellCounts.override, CellCounts.override, CellCounts.override]
      cases f x <;> cases g x <;> rfl

/-- The count that the properties of a node give under a name. -/
def countIn (name : Str) (ps : List (Str × Bytes)) : Option ℕ := lastSome? (countOf name) ps

/-- **The properties of one node.** -/
theorem countProps_eq (counts : CellCounts) (ps : List (Str × Bytes)) :
    countProps counts ps = if ∀ p ∈ ps, CountHasCell p
      then .ok (counts.override (countIn "#address-cells".toList ps)
        (countIn "#size-cells".toList ps))
      else .error .structError := by
  rw [countProps, foldlM_eq_ite countProp_eq, foldl_override]
  rfl

/-- **A walk over nodes** finds the counts of the last node that defines each. -/
theorem foldlM_countProps (nodes : List (List (Str × Bytes))) (counts : CellCounts) :
    nodes.foldlM countProps counts = if ∀ ps ∈ nodes, ∀ p ∈ ps, CountHasCell p
      then .ok (counts.override (lastSome? (countIn "#address-cells".toList) nodes)
        (lastSome? (countIn "#size-cells".toList) nodes))
      else .error .structError := by
  rw [foldlM_eq_ite countProps_eq, foldl_override]

/-! ### A run -/

/-- `regs` at a node that has a `reg` property, where the counts are found. -/
theorem regs_of_cells {props : Dict Str (List (Str × Bytes))} {path : Str} {counts : CellCounts}
    (hcells : cells props path = .ok counts) (hstep : counts.ac + counts.sc ≠ 0) :
    regs props path = .ok ((propsOf props path).flatMap fun p =>
      if p.1 = "reg".toList then splitPairs counts (valueCells p.2) else []) := by
  have hpass : ∀ (out : List (ℕ × ℕ)) (p : Str × Bytes),
      (if p.1 ≠ "reg".toList then (return out : Except PyError (List (ℕ × ℕ)))
        else do
          let counts ← cells props path
          let pairs ← regPairs counts p.2
          return out ++ pairs) =
      if True then .ok (out ++ if p.1 = "reg".toList then splitPairs counts (valueCells p.2)
        else []) else .error .structError := by
    intro out p
    rw [if_pos trivial]
    by_cases hreg : p.1 = "reg".toList
    · rw [if_neg (not_not.mpr hreg), if_pos hreg, hcells, ok_bind, regPairs_eq, if_neg hstep]
      rfl
    · rw [if_pos hreg, if_neg hreg, List.append_nil]
      rfl
  rw [regs, foldlM_eq_ite hpass, if_pos fun _ _ => trivial, List.flatMap_eq_foldl]

/-- `regs` at a node that has a `reg` property, where the counts cannot be found. -/
theorem regs_of_cells_error {props : Dict Str (List (Str × Bytes))} {path : Str} {e : PyError}
    (hcells : cells props path = .error e)
    (hreg : ∃ value, ("reg".toList, value) ∈ propsOf props path) :
    regs props path = .error e := by
  have hpass : ∀ (out : List (ℕ × ℕ)) (p : Str × Bytes),
      (if p.1 ≠ "reg".toList then (return out : Except PyError (List (ℕ × ℕ)))
        else do
          let counts ← cells props path
          let pairs ← regPairs counts p.2
          return out ++ pairs) =
      if p.1 ≠ "reg".toList then .ok out else .error e := by
    intro out p
    rw [hcells]
    rfl
  obtain ⟨value, hvalue⟩ := hreg
  rw [regs, foldlM_eq_ite hpass, if_neg fun h => h _ hvalue rfl]

end Fdt

end Msm8998
