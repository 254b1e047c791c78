import Msm8998.BitMask

/-!
# Clearing and Setting Bits

A change of some bits of an `n`-bit word: the bits of one mask are cleared, and then those of
another are set. This module says how such updates look under a mask and how they compose. The
one law of composition that is not plain is `update_absorb`: an update that is made in the end
anyway does not show when it is also made before another one.
-/

namespace BitMask

/-- The `n`-bit word with the bits that `m` does not have. -/
def complement (n m : ℕ) : ℕ := (2 ^ n - 1) ^^^ m

/-- Clear the bits of `c`, and set those of `s`. -/
def update (n c s a : ℕ) : ℕ := a &&& complement n c ||| s

variable {n a b c s c' s' m i : ℕ}

/-- The bits of a complement within the width. -/
theorem testBit_complement (hi : i < n) : (complement n m).testBit i = !m.testBit i := by
  rw [complement, Nat.testBit_xor, Nat.testBit_two_pow_sub_one, decide_eq_true hi,
    Bool.true_xor]

/-- A complement has no bits beyond the width. -/
theorem complement_lt (hm : m < 2 ^ n) : complement n m < 2 ^ n :=
  Nat.xor_lt_two_pow (Nat.sub_lt (Nat.two_pow_pos n) Nat.one_pos) hm

/-- An update acts bit by bit. -/
theorem testBit_update (hi : i < n) :
    (update n c s a).testBit i = (a.testBit i && !c.testBit i || s.testBit i) := by
  rw [update, Nat.testBit_or, Nat.testBit_and, testBit_complement hi]

/-- An update stays within the width. -/
theorem update_lt (hc : c < 2 ^ n) (hs : s < 2 ^ n) : update n c s a < 2 ^ n :=
  Nat.or_lt_two_pow (Nat.and_lt_two_pow a (complement_lt hc)) hs

/-- Two `n`-bit words are the same when their bits are. -/
theorem eq_of_testBit (ha : a < 2 ^ n) (hb : b < 2 ^ n)
    (h : ∀ i < n, a.testBit i = b.testBit i) : a = b := by
  refine Nat.eq_of_testBit_eq fun i => ?_
  rcases Nat.lt_or_ge i n with hi | hi
  · exact h i hi
  · have hpow : 2 ^ n ≤ 2 ^ i := Nat.pow_le_pow_right (by omega) hi
    rw [Nat.testBit_lt_two_pow (ha.trans_le hpow), Nat.testBit_lt_two_pow (hb.trans_le hpow)]

/-- A mask is seen through the complement of a disjoint one. -/
theorem complement_and (hm : m < 2 ^ n) (hdisjoint : m &&& c = 0) : complement n c &&& m = m := by
  refine eq_of_testBit (Nat.and_lt_two_pow _ hm) hm fun i hi => ?_
  have hbit : (m.testBit i && c.testBit i) = false := by
    rw [← Nat.testBit_and, hdisjoint, Nat.zero_testBit]
  rw [Nat.testBit_and, testBit_complement hi]
  cases hmi : m.testBit i with
  | false => rw [Bool.and_false]
  | true =>
      rw [hmi, Bool.true_and] at hbit
      rw [hbit]
      rfl

/-- Nothing of a mask is seen through the complement of a larger one. -/
theorem complement_and_of_within (hm : m < 2 ^ n) (h : Within m c) :
    complement n c &&& m = 0 := by
  refine eq_of_testBit (Nat.and_lt_two_pow _ hm) (Nat.two_pow_pos n) fun i hi => ?_
  rw [Nat.testBit_and, testBit_complement hi, Nat.zero_testBit, ← h.eq, Nat.testBit_and]
  cases c.testBit i <;> cases m.testBit i <;> rfl

/-- Under a mask that is disjoint from it, a field of a complement does not matter. -/
theorem complement_or_and (hm : m < 2 ^ n) (hdisjoint : m &&& a = 0) :
    complement n (a ||| c) &&& m = complement n c &&& m := by
  refine eq_of_testBit (Nat.and_lt_two_pow _ hm) (Nat.and_lt_two_pow _ hm) fun i hi => ?_
  have hbit : (m.testBit i && a.testBit i) = false := by
    rw [← Nat.testBit_and, hdisjoint, Nat.zero_testBit]
  rw [Nat.testBit_and, Nat.testBit_and, testBit_complement hi, testBit_complement hi,
    Nat.testBit_or]
  revert hbit
  cases m.testBit i <;> cases a.testBit i <;> cases c.testBit i <;> decide

/-- An update does not show under a mask that is disjoint from both of its own. -/
theorem update_and (hm : m < 2 ^ n) (hc : m &&& c = 0) (hs : s &&& m = 0) :
    update n c s a &&& m = a &&& m := by
  rw [update, or_and_of_right hs, Nat.and_assoc, complement_and hm hc]

/-- Under a mask whose bits an update all writes, the update is what it sets. -/
theorem update_and_of_within (hm : m < 2 ^ n) (h : Within m (c ||| s)) :
    update n c s a &&& m = s &&& m := by
  refine eq_of_testBit (Nat.and_lt_two_pow _ hm) (Nat.and_lt_two_pow _ hm) fun i hi => ?_
  have hbit : (m.testBit i && (c.testBit i || s.testBit i)) = m.testBit i := by
    rw [← Nat.testBit_or, ← Nat.testBit_and, h.eq]
  rw [Nat.testBit_and, Nat.testBit_and, testBit_update hi]
  revert hbit
  cases m.testBit i <;> cases c.testBit i <;> cases s.testBit i <;> cases a.testBit i <;> decide

/-- **Absorption**: before another update, an update that follows it does not show. -/
theorem update_absorb (hc : c < 2 ^ n) (hs : s < 2 ^ n) :
    update n c s (update n c' s' (update n c s a)) = update n c s (update n c' s' a) := by
  refine eq_of_testBit (update_lt hc hs) (update_lt hc hs) fun i hi => ?_
  rw [testBit_update hi, testBit_update hi, testBit_update hi, testBit_update hi,
    testBit_update hi]
  cases a.testBit i <;> cases c.testBit i <;> cases s.testBit i <;> cases c'.testBit i <;>
    cases s'.testBit i <;> rfl

/-- **Undoing**: on a word without the bits of `c`, an update that clears `c` takes back what was
set within `c` before, so its own bits are all that remains. -/
theorem update_undo (ha : a < 2 ^ n) (hc : c < 2 ^ n) (hs : s < 2 ^ n) (hs' : Within s' c)
    (hdisjoint : a &&& c = 0) : update n c s (update n 0 s' a) = a ||| s := by
  refine eq_of_testBit (update_lt hc hs) (Nat.or_lt_two_pow ha hs) fun i hi => ?_
  have hbit : (a.testBit i && c.testBit i) = false := by
    rw [← Nat.testBit_and, hdisjoint, Nat.zero_testBit]
  rw [testBit_update hi, testBit_update hi, Nat.zero_testBit, Nat.testBit_or, ← hs'.eq,
    Nat.testBit_and]
  revert hbit
  cases a.testBit i <;> cases c.testBit i <;> cases s'.testBit i <;> cases s.testBit i <;> decide

end BitMask
