import Mathlib.Data.Nat.Bitwise
import Mathlib.Tactic.Common

/-!
# Bit Fields of Natural Numbers

A machine word assembled by `|||` from fields with disjoint masks gives each field back
under `&&&`. This module states that once, for any number of fields: `Within a m` says
that `a` only has bits of the mask `m`, and a word `a ||| b` reads as `a` under a mask
that holds `a` and misses `b`.

Aligned addresses are the typical field: a multiple of `2 ^ lo` below `2 ^ (lo + w)`
lies within the mask of `w` bits from position `lo`.
-/

namespace BitMask

/-- Every bit of `a` is a bit of the mask `m`. -/
def Within (a m : ℕ) : Prop := a &&& m = a

instance (a m : ℕ) : Decidable (Within a m) := inferInstanceAs (Decidable (_ = _))

/-- A mask that holds all bits of a value does not change it. -/
theorem Within.eq {a m : ℕ} (h : Within a m) : a &&& m = a := h

@[simp] theorem within_zero (m : ℕ) : Within 0 m := Nat.zero_and m

/-- Masking a word leaves a word within the mask. -/
theorem within_and (a m : ℕ) : Within (a &&& m) m := by
  rw [Within, Nat.and_assoc, Nat.and_self]

/-- A word within a mask reads as zero under a disjoint mask. -/
theorem Within.and_eq_zero {a m k : ℕ} (h : Within a m) (hmk : m &&& k = 0) : a &&& k = 0 := by
  rw [← h.eq, Nat.and_assoc, hmk, Nat.and_zero]

/-- Two words within a mask combine within it. -/
theorem Within.or {a b m : ℕ} (ha : Within a m) (hb : Within b m) : Within (a ||| b) m := by
  rw [Within, Nat.and_or_distrib_right, ha.eq, hb.eq]

/-- Masks grow. -/
theorem Within.mono {a m k : ℕ} (h : Within a m) (hmk : Within m k) : Within a k := by
  rw [Within, ← h.eq, Nat.and_assoc, hmk.eq]

/-- A mask may have other fields besides. -/
theorem Within.or_right {a m : ℕ} (h : Within a m) (k : ℕ) : Within a (m ||| k) := by
  rw [Within, Nat.and_or_distrib_left, h.eq]
  refine Nat.eq_of_testBit_eq fun i => ?_
  simp only [Nat.testBit_or, Nat.testBit_and]
  cases a.testBit i <;> rfl

/-- Setting bits that are set already changes nothing. -/
theorem Within.or_eq {a m : ℕ} (h : Within a m) : m ||| a = m := by
  refine Nat.eq_of_testBit_eq fun i => ?_
  rw [← h.eq]
  simp only [Nat.testBit_or, Nat.testBit_and]
  cases m.testBit i <;> cases a.testBit i <;> rfl

/-- A single bit that a word has is within it. -/
theorem within_of_and_two_pow {a i : ℕ} (h : a &&& 2 ^ i ≠ 0) : Within (2 ^ i) a := by
  rw [Within, Nat.and_comm, Nat.and_two_pow]
  rw [Nat.and_two_pow] at h
  cases hbit : a.testBit i with
  | false => simp [hbit] at h
  | true => simp

/-- A field that misses the mask does not show under it. -/
theorem or_and_of_right {a b m : ℕ} (hb : b &&& m = 0) : (a ||| b) &&& m = a &&& m := by
  rw [Nat.and_or_distrib_right, hb, Nat.or_zero]

/-- A field that misses the mask does not show under it. -/
theorem or_and_of_left {a b m : ℕ} (ha : a &&& m = 0) : (a ||| b) &&& m = b &&& m := by
  rw [Nat.and_or_distrib_right, ha, Nat.zero_or]

/-- **Reading back three fields.** A word assembled from three fields with pairwise disjoint
masks gives each of them back. -/
theorem or_and_fields {a b c ka kb kc : ℕ} (ha : Within a ka) (hb : Within b kb)
    (hc : Within c kc) (hab : ka &&& kb = 0) (hac : ka &&& kc = 0) (hbc : kb &&& kc = 0) :
    (a ||| b ||| c) &&& ka = a ∧ (a ||| b ||| c) &&& kb = b ∧ (a ||| b ||| c) &&& kc = c := by
  have hba : b &&& ka = 0 := hb.and_eq_zero (Nat.and_comm kb ka ▸ hab)
  have hca : c &&& ka = 0 := hc.and_eq_zero (Nat.and_comm kc ka ▸ hac)
  have hcb : c &&& kb = 0 := hc.and_eq_zero (Nat.and_comm kc kb ▸ hbc)
  refine ⟨?_, ?_, ?_⟩
  · rw [or_and_of_right hca, or_and_of_right hba, ha.eq]
  · rw [or_and_of_right hcb, or_and_of_left (ha.and_eq_zero hab), hb.eq]
  · rw [Nat.or_assoc, or_and_of_left (ha.and_eq_zero hac), or_and_of_left (hb.and_eq_zero hbc),
      hc.eq]

/-- **Aligned addresses are a field.** A multiple of `2 ^ lo` below `2 ^ (lo + w)` has only
the `w` bits from position `lo`. -/
theorem within_of_dvd {a lo w : ℕ} (hdvd : 2 ^ lo ∣ a) (hlt : a < 2 ^ (lo + w)) :
    Within a ((2 ^ w - 1) <<< lo) := by
  obtain ⟨k, rfl⟩ := hdvd
  have hk : k < 2 ^ w := by
    rw [Nat.pow_add] at hlt
    exact Nat.lt_of_mul_lt_mul_left hlt
  rw [Within, Nat.mul_comm, ← Nat.shiftLeft_eq, ← Nat.shiftLeft_and_distrib,
    Nat.and_two_pow_sub_one_of_lt_two_pow hk]

/-- Rounding down to a multiple of a power of two by two shifts. -/
theorem shiftRight_shiftLeft (a n : ℕ) : (a >>> n) <<< n = a / 2 ^ n * 2 ^ n := by
  rw [Nat.shiftRight_eq_div_pow, Nat.shiftLeft_eq]

/-- A shifted word has no bits below the shift. -/
theorem shiftLeft_and_low {n m : ℕ} (a : ℕ) (h : m ≤ n) : a <<< n &&& (2 ^ m - 1) = 0 := by
  rw [Nat.and_two_pow_sub_one_eq_mod, Nat.shiftLeft_eq]
  exact Nat.mod_eq_zero_of_dvd (dvd_mul_of_dvd_right (Nat.pow_dvd_pow 2 h) a)

end BitMask
