import Mathlib.Data.Set.Function
import Mathlib.Order.Interval.Set.Basic
import Mathlib.Order.Monotone.Defs

/-!
# Bijections between Intervals of Integers

An interval of natural numbers has one order-preserving and one order-reversing bijection onto
the interval of the same length that starts at zero: the distance from its lower and from its
upper end.

## Main results

* `Spans.iff_forall`: a map spans the interval in one of the two directions exactly when it is
  that distance everywhere on it.
-/

/-- `f` maps the interval from `lo` to `hi` one to one onto that from `0` to `max`, in the same
order or in the opposite one. -/
structure Spans (lo hi max : ℕ) (inverted : Bool) (f : ℕ → ℕ) : Prop where
  bijOn : Set.BijOn f (Set.Icc lo hi) (Set.Icc 0 max)
  mono : inverted = false → StrictMonoOn f (Set.Icc lo hi)
  anti : inverted = true → StrictAntiOn f (Set.Icc lo hi)

/-- The distance from the end of the interval that goes to zero. -/
def endDistance (lo hi : ℕ) (inverted : Bool) (x : ℕ) : ℕ := if inverted then hi - x else x - lo

namespace Spans

variable {lo hi x : ℕ} {inverted : Bool} {f : ℕ → ℕ}

/-- A strictly monotone map is at least the distance from the lower end. -/
theorem le_of_strictMonoOn (hmono : StrictMonoOn f (Set.Icc lo hi)) (i : ℕ) (hi' : lo + i ≤ hi) :
    i ≤ f (lo + i) := by
  induction i with
  | zero => exact Nat.zero_le _
  | succ i ih =>
      have hlt : f (lo + i) < f (lo + (i + 1)) :=
        hmono ⟨by omega, by omega⟩ ⟨by omega, hi'⟩ (by omega)
      have hle := ih (by omega)
      omega

/-- Counted from the upper end, it stays as far below its bound. -/
theorem add_le_of_strictMonoOn {max : ℕ} (hmaps : Set.MapsTo f (Set.Icc lo hi) (Set.Icc 0 max))
    (hmono : StrictMonoOn f (Set.Icc lo hi)) (i : ℕ) (hi' : lo + i ≤ hi) :
    f (hi - i) + i ≤ max := by
  induction i with
  | zero => exact (hmaps ⟨by omega, by omega⟩).2
  | succ i ih =>
      have hlt : f (hi - (i + 1)) < f (hi - i) :=
        hmono ⟨by omega, by omega⟩ ⟨by omega, by omega⟩ (by omega)
      have hle := ih (by omega)
      omega

/-- An increasing map of an interval of integers into one of the same length from zero on is a
shift. -/
theorem eq_sub_of_strictMonoOn (hmaps : Set.MapsTo f (Set.Icc lo hi) (Set.Icc 0 (hi - lo)))
    (hmono : StrictMonoOn f (Set.Icc lo hi)) (hx : x ∈ Set.Icc lo hi) : f x = x - lo := by
  obtain ⟨hlo, hhi⟩ := hx
  have hlower := le_of_strictMonoOn hmono (x - lo) (by omega)
  have hupper := add_le_of_strictMonoOn hmaps hmono (hi - x) (by omega)
  rw [Nat.add_sub_cancel' hlo] at hlower
  rw [Nat.sub_sub_self hhi] at hupper
  omega

/-- A decreasing one is a reflection. -/
theorem eq_sub_of_strictAntiOn (hmaps : Set.MapsTo f (Set.Icc lo hi) (Set.Icc 0 (hi - lo)))
    (hanti : StrictAntiOn f (Set.Icc lo hi)) (hx : x ∈ Set.Icc lo hi) : f x = hi - x := by
  -- the distance to the bound is strictly monotone
  have hmono : StrictMonoOn (fun y => hi - lo - f y) (Set.Icc lo hi) := by
    intro a ha b hb hab
    have hlt := hanti ha hb hab
    have hle := (hmaps ha).2
    dsimp only
    omega
  have heq := eq_sub_of_strictMonoOn (fun y _ => ⟨Nat.zero_le _, Nat.sub_le _ _⟩) hmono hx
  have hle := (hmaps hx).2
  obtain ⟨hlo, hhi⟩ := hx
  omega

/-- **The only two maps that span an interval.** -/
theorem iff_forall (hle : lo ≤ hi) : Spans lo hi (hi - lo) inverted f ↔
    ∀ x ∈ Set.Icc lo hi, f x = endDistance lo hi inverted x := by
  constructor
  · intro h x hx
    cases inverted with
    | false => exact eq_sub_of_strictMonoOn h.bijOn.mapsTo (h.mono rfl) hx
    | true => exact eq_sub_of_strictAntiOn h.bijOn.mapsTo (h.anti rfl) hx
  · intro h
    have hmaps : Set.MapsTo f (Set.Icc lo hi) (Set.Icc 0 (hi - lo)) := by
      intro x hx
      rw [h x hx, endDistance]
      obtain ⟨hlo, hhi⟩ := hx
      exact ⟨Nat.zero_le _, by split <;> omega⟩
    refine ⟨⟨hmaps, ?_, ?_⟩, ?_, ?_⟩
    · intro a ha b hb hab
      rw [h a ha, h b hb, endDistance, endDistance] at hab
      obtain ⟨halo, hahi⟩ := ha
      obtain ⟨hblo, hbhi⟩ := hb
      split at hab <;> omega
    · rintro y ⟨-, hy⟩
      cases inverted with
      | false =>
          refine ⟨lo + y, ⟨by omega, by omega⟩, ?_⟩
          rw [h _ ⟨by omega, by omega⟩]
          exact Nat.add_sub_cancel_left lo y
      | true =>
          refine ⟨hi - y, ⟨by omega, by omega⟩, ?_⟩
          rw [h _ ⟨by omega, by omega⟩]
          exact Nat.sub_sub_self (by omega)
    · rintro rfl a ha b hb hab
      rw [h a ha, h b hb, endDistance, endDistance, if_neg Bool.false_ne_true,
        if_neg Bool.false_ne_true]
      exact Nat.sub_lt_sub_right ha.1 hab
    · rintro rfl a ha b hb hab
      rw [h a ha, h b hb, endDistance, endDistance, if_pos rfl, if_pos rfl]
      exact Nat.sub_lt_sub_left (Nat.lt_of_lt_of_le hab hb.2) hab

end Spans
