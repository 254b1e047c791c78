import Mathlib.Algebra.Group.Nat.Defs
import Mathlib.Data.List.Basic

/-!
# Little-Endian Words

Words of any width as byte strings, lowest byte first, and tables of such words inside a
longer byte string.

## Main results

* `combine_split`, `split_combine`: the two directions of the encoding undo each other;
* `readWords_eq_some`: a table of words is read at a position exactly when its encoding
  stands there.
-/

namespace LittleEndian

/-- The `w` low bytes of a number, lowest first. -/
def split : ℕ → ℕ → List UInt8
  | 0, _ => []
  | w + 1, n => UInt8.ofNat n :: split w (n / 256)

/-- The number that bytes stand for, lowest first. -/
def combine : List UInt8 → ℕ
  | [] => 0
  | b :: bs => b.toNat + 256 * combine bs

@[simp] theorem split_length (w n : ℕ) : (split w n).length = w := by
  induction w generalizing n with
  | zero => rfl
  | succ w ih => simp only [split, List.length_cons, ih]

/-- The length of a list of numbers of one width. -/
theorem flatMap_split_length (w : ℕ) (ns : List ℕ) :
    (ns.flatMap (split w)).length = w * ns.length := by
  induction ns with
  | nil => rfl
  | cons n ns ih =>
      rw [List.flatMap_cons, List.length_append, split_length, ih, List.length_cons, Nat.mul_succ,
        Nat.add_comm]

/-- A number is below what its bytes can hold. -/
theorem combine_lt (bs : List UInt8) : combine bs < 256 ^ bs.length := by
  induction bs with
  | nil => exact Nat.one_pos
  | cons b bs ih =>
      have hb := b.toNat_lt
      rw [combine, List.length_cons, Nat.pow_succ]
      omega

/-- Reading back an encoded number that fits. -/
theorem combine_split {w n : ℕ} (h : n < 256 ^ w) : combine (split w n) = n := by
  induction w generalizing n with
  | zero =>
      rw [Nat.pow_zero] at h
      rw [split, combine]
      omega
  | succ w ih =>
      rw [Nat.pow_succ] at h
      have hdiv : n / 256 < 256 ^ w := by omega
      rw [split, combine, ih hdiv, UInt8.toNat_ofNat']
      omega

/-- Encoding the number that bytes stand for gives them back. -/
theorem split_combine (bs : List UInt8) : split bs.length (combine bs) = bs := by
  induction bs with
  | nil => rfl
  | cons b bs ih =>
      have hb := b.toNat_lt
      have hlow : UInt8.ofNat (b.toNat + 256 * combine bs) = b := by
        apply UInt8.toNat_inj.mp
        rw [UInt8.toNat_ofNat']
        omega
      have hhigh : (b.toNat + 256 * combine bs) / 256 = combine bs := by omega
      rw [List.length_cons, combine, split, hlow, hhigh, ih]

/-- Only the low bytes of a number are encoded. -/
theorem split_mod (w n : ℕ) : split w (n % 256 ^ w) = split w n := by
  induction w generalizing n with
  | zero => rfl
  | succ w ih =>
      have hlow : UInt8.ofNat (n % 256 ^ (w + 1)) = UInt8.ofNat n := by
        apply UInt8.toNat_inj.mp
        rw [UInt8.toNat_ofNat', UInt8.toNat_ofNat', Nat.pow_succ, Nat.mul_comm]
        exact Nat.mod_mod_of_dvd n (Nat.dvd_mul_right 256 _)
      have hhigh : n % 256 ^ (w + 1) / 256 = n / 256 % 256 ^ w := by
        rw [Nat.pow_succ, Nat.mod_mul_left_div_self]
      rw [split, split, hlow, hhigh, ih]

/-- A wide word is its low half followed by its high half. -/
theorem split_add (v w n : ℕ) : split (v + w) n = split v n ++ split w (n / 256 ^ v) := by
  induction v generalizing n with
  | zero => rw [Nat.zero_add, Nat.pow_zero, Nat.div_one, split, List.nil_append]
  | succ v ih =>
      rw [Nat.add_right_comm, split, split, ih, List.cons_append, Nat.div_div_eq_div_mul,
        Nat.pow_succ, Nat.mul_comm 256]

/-! ### Reading from a byte string -/

/-- The word of `w` bytes at a position, if it lies inside the data. -/
def readWord (w : ℕ) (data : List UInt8) (pos : ℕ) : Option ℕ :=
  if pos + w ≤ data.length then some (combine ((data.drop pos).take w)) else none

/-- `k` consecutive words. -/
def readWords (w : ℕ) : ℕ → List UInt8 → ℕ → Option (List ℕ)
  | 0, _, _ => some []
  | k + 1, data, pos =>
      (readWord w data pos).bind fun n =>
        (readWords w k data (pos + w)).map (n :: ·)

variable {w k pos n : ℕ} {data post : List UInt8} {ns : List ℕ}

/-- A word is read exactly when its encoding stands at the position. -/
theorem readWord_eq_some (hw : 0 < w) : readWord w data pos = some n ↔
    n < 256 ^ w ∧ ∃ post, data.drop pos = split w n ++ post := by
  rw [readWord]
  constructor
  · intro h
    split at h
    · rename_i hle
      obtain rfl := Option.some.inj h
      have hlen : ((data.drop pos).take w).length = w := by
        rw [List.length_take, List.length_drop]
        omega
      have hlt := combine_lt ((data.drop pos).take w)
      have hsplit := split_combine ((data.drop pos).take w)
      rw [hlen] at hlt hsplit
      exact ⟨hlt, (data.drop pos).drop w, by rw [hsplit, List.take_append_drop]⟩
    · exact absurd h (by simp)
  · rintro ⟨hlt, post, hdrop⟩
    have hle : pos + w ≤ data.length := by
      have hlen := congrArg List.length hdrop
      rw [List.length_drop, List.length_append, split_length] at hlen
      omega
    rw [if_pos hle, hdrop, List.take_left' (split_length w n), combine_split hlt]

/-- **Reading a table.** Words are read at a position exactly when their encodings stand
there one after the other. -/
theorem readWords_eq_some (hw : 0 < w) : readWords w k data pos = some ns ↔
    ns.length = k ∧ (∀ n ∈ ns, n < 256 ^ w) ∧
      ∃ post, data.drop pos = ns.flatMap (split w) ++ post := by
  induction k generalizing pos ns with
  | zero =>
      rw [readWords]
      constructor
      · intro h
        obtain rfl := Option.some.inj h
        exact ⟨rfl, by simp, data.drop pos, by simp⟩
      · rintro ⟨hlen, -⟩
        rw [List.length_eq_zero_iff.mp hlen]
  | succ k ih =>
      rw [readWords, Option.bind_eq_some_iff]
      constructor
      · rintro ⟨n, hn, hrest⟩
        obtain ⟨ms, hms, rfl⟩ := Option.map_eq_some_iff.mp hrest
        obtain ⟨hlt, post, hdrop⟩ := (readWord_eq_some hw).mp hn
        obtain ⟨hlen, hall, post', hdrop'⟩ := ih.mp hms
        refine ⟨by rw [List.length_cons, hlen], ?_, post', ?_⟩
        · intro m hm
          rcases List.mem_cons.mp hm with rfl | hm
          · exact hlt
          · exact hall m hm
        · have hpost : post = ms.flatMap (split w) ++ post' := by
            rw [← hdrop', ← List.drop_drop, hdrop, List.drop_left' (split_length w n)]
          rw [hdrop, hpost, List.flatMap_cons, List.append_assoc]
      · rintro ⟨hlen, hall, post, hdrop⟩
        cases ns with
        | nil => simp at hlen
        | cons n ms =>
            rw [List.flatMap_cons, List.append_assoc] at hdrop
            refine ⟨n, (readWord_eq_some hw).mpr ⟨hall n List.mem_cons_self, _, hdrop⟩, ?_⟩
            rw [Option.map_eq_some_iff]
            refine ⟨ms, ih.mpr ⟨by simpa using hlen, fun m hm => hall m (List.mem_cons_of_mem n hm),
              post, ?_⟩, rfl⟩
            rw [← List.drop_drop, hdrop, List.drop_left' (split_length w n)]

/-- A table is read where it stands behind a prefix. -/
theorem readWords_append (hw : 0 < w) {pre : List UInt8} (hlt : ∀ n ∈ ns, n < 256 ^ w)
    (h : data = pre ++ (ns.flatMap (split w) ++ post)) (hpos : pos = pre.length) :
    readWords w ns.length data pos = some ns := by
  refine (readWords_eq_some hw).mpr ⟨rfl, hlt, post, ?_⟩
  rw [h, hpos, List.drop_left]

/-- The bytes of a table that is read. -/
theorem take_of_readWords (hw : 0 < w) (h : readWords w k data pos = some ns) :
    (data.drop pos).take (w * k) = ns.flatMap (split w) := by
  obtain ⟨hlen, -, post, hdrop⟩ := (readWords_eq_some hw).mp h
  rw [hdrop, List.take_left']
  rw [flatMap_split_length, hlen]

/-- The same table is read elsewhere exactly when the same bytes stand there. -/
theorem readWords_eq_some_iff_take (hw : 0 < w) {data' : List UInt8} {pos' : ℕ}
    (h : readWords w k data pos = some ns) : readWords w k data' pos' = some ns ↔
      (data'.drop pos').take (w * k) = (data.drop pos).take (w * k) := by
  rw [take_of_readWords hw h]
  constructor
  · intro h'
    exact take_of_readWords hw h'
  · intro htake
    obtain ⟨hlen, hlt, -⟩ := (readWords_eq_some hw).mp h
    refine (readWords_eq_some hw).mpr ⟨hlen, hlt, (data'.drop pos').drop (w * k), ?_⟩
    rw [← htake, List.take_append_drop]

/-- A table that is read holds the words at their places. -/
theorem readWord_of_readWords {i : ℕ} (h : readWords w k data pos = some ns) (hi : i < k) :
    readWord w data (pos + w * i) = ns[i]? := by
  induction k generalizing pos ns i with
  | zero => omega
  | succ k ih =>
      rw [readWords, Option.bind_eq_some_iff] at h
      obtain ⟨n, hn, hrest⟩ := h
      obtain ⟨ms, hms, rfl⟩ := Option.map_eq_some_iff.mp hrest
      cases i with
      | zero => exact hn
      | succ i =>
          rw [Nat.mul_succ, Nat.add_comm (w * i), ← Nat.add_assoc, List.getElem?_cons_succ]
          exact ih hms (by omega)

/-- A table can be read exactly when it lies inside the data. -/
theorem readWords_isSome (hk : 0 < k) :
    (readWords w k data pos).isSome = true ↔ pos + w * k ≤ data.length := by
  induction k generalizing pos with
  | zero => exact absurd hk (Nat.lt_irrefl 0)
  | succ k ih =>
      rw [readWords, readWord]
      by_cases hle : pos + w ≤ data.length
      · rw [if_pos hle, Option.bind_some, Option.isSome_map]
        rcases Nat.eq_zero_or_pos k with rfl | hpos
        · simp only [readWords, Option.isSome_some, Nat.zero_add, Nat.mul_one, true_iff]
          exact hle
        · rw [ih hpos, Nat.mul_succ]
          omega
      · rw [if_neg hle, Option.bind_none, Nat.mul_succ]
        simp only [Option.isSome_none, Bool.false_eq_true, false_iff]
        omega

end LittleEndian
