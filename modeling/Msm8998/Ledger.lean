import Mathlib.Algebra.Group.Nat.Defs
import Mathlib.Data.List.Basic

/-!
# Ledgers of Acquired Resources

A trace of events, some of which acquire a resource and some of which release one. The books
are kept by counting, so a resource may come round again after it was released.

## Main results

* `Balanced.append`: balanced traces compose;
* `holds_singleton`, `Holds.release`: one acquisition and one release;
* `Quiet.balanced`, `Quiet.idle`: events that do neither change nothing.
-/

/-- Which events acquire and which release a resource. -/
structure Ledger (ε α : Type*) where
  acquires : ε → Option α
  releases : ε → Option α

namespace Ledger

variable {ε α : Type*} (L : Ledger ε α)

/-- No resource is acquired or released. -/
def Quiet (t : List ε) : Prop := ∀ e ∈ t, L.acquires e = none ∧ L.releases e = none

/-- Quiet traces behind each other are quiet. -/
theorem Quiet.append {L : Ledger ε α} {s t : List ε} (hs : L.Quiet s) (ht : L.Quiet t) :
    L.Quiet (s ++ t) := by
  intro e he
  rcases List.mem_append.mp he with he | he
  · exact hs e he
  · exact ht e he

variable [DecidableEq α]

/-- How often a resource was acquired. -/
def acquired (a : α) (t : List ε) : ℕ := t.countP fun e => L.acquires e = some a

/-- How often a resource was released. -/
def released (a : α) (t : List ε) : ℕ := t.countP fun e => L.releases e = some a

/-- At no time was a resource released more often than acquired. -/
def Balanced (t : List ε) : Prop := ∀ s, s <+: t → ∀ a, L.released a s ≤ L.acquired a s

/-- Everything acquired was released. -/
def Idle (t : List ε) : Prop := ∀ a, L.acquired a t = L.released a t

/-- One resource is still to be released, and no other. -/
def Holds (a : α) (t : List ε) : Prop :=
  ∀ b, L.acquired b t = L.released b t + if b = a then 1 else 0

variable {L} {s t : List ε} {e : ε} {a : α}

/-- What is acquired in two traces adds up. -/
theorem acquired_append (a : α) (s t : List ε) :
    L.acquired a (s ++ t) = L.acquired a s + L.acquired a t := List.countP_append

/-- So does what is released. -/
theorem released_append (a : α) (s t : List ε) :
    L.released a (s ++ t) = L.released a s + L.released a t := List.countP_append

/-- An event that acquires counts for its resource alone. -/
theorem acquired_singleton (h : L.acquires e = some a) (b : α) :
    L.acquired b [e] = if b = a then 1 else 0 := by
  simp only [acquired, List.countP_singleton, h, Option.some.injEq, decide_eq_true_eq]
  exact if_congr eq_comm rfl rfl

/-- So does one that releases. -/
theorem released_singleton (h : L.releases e = some a) (b : α) :
    L.released b [e] = if b = a then 1 else 0 := by
  simp only [released, List.countP_singleton, h, Option.some.injEq, decide_eq_true_eq]
  exact if_congr eq_comm rfl rfl

/-- An event that acquires nothing does not count. -/
theorem acquired_singleton_of_none (h : L.acquires e = none) (b : α) : L.acquired b [e] = 0 := by
  simp [acquired, h]

/-- Nor does one that releases nothing. -/
theorem released_singleton_of_none (h : L.releases e = none) (b : α) : L.released b [e] = 0 := by
  simp [released, h]

/-! ### Balanced traces -/

/-- Without events the books are balanced. -/
theorem balanced_nil : L.Balanced [] := by
  intro s hs a
  rw [List.prefix_nil.mp hs]
  exact Nat.le_refl 0

/-- In balanced books nothing is released more often than it was acquired. -/
theorem Balanced.released_le (h : L.Balanced t) (a : α) : L.released a t ≤ L.acquired a t :=
  h t (List.prefix_refl t) a

/-- Balanced traces behind each other are balanced. -/
theorem Balanced.append (hs : L.Balanced s) (ht : L.Balanced t) : L.Balanced (s ++ t) := by
  intro r hr a
  rcases List.prefix_or_prefix_of_prefix hr (List.prefix_append s t) with hr' | ⟨u, rfl⟩
  · exact hs r hr' a
  · have hu := (List.prefix_append_right_inj s).mp hr
    rw [acquired_append, released_append]
    exact Nat.add_le_add (hs.released_le a) (ht u hu a)

/-- One more event that releases nothing. -/
theorem Balanced.concat (h : L.Balanced t) (he : L.releases e = none) :
    L.Balanced (t ++ [e]) := by
  intro r hr a
  rcases List.prefix_concat_iff.mp hr with rfl | hr
  · rw [acquired_append, released_append, released_singleton_of_none he]
    exact Nat.le_add_right_of_le (h.released_le a)
  · exact h r hr a

/-- Releasing what is held. -/
theorem Balanced.release (h : L.Balanced t) (ht : L.Holds a t) (he : L.releases e = some a) :
    L.Balanced (t ++ [e]) := by
  intro r hr b
  rcases List.prefix_concat_iff.mp hr with rfl | hr
  · rw [acquired_append, released_append, released_singleton he, ht b]
    exact Nat.le_add_right _ _
  · exact h r hr b

/-! ### What is held -/

/-- Nothing is left after two traces that leave nothing. -/
theorem Idle.append (hs : L.Idle s) (ht : L.Idle t) : L.Idle (s ++ t) := by
  intro a
  rw [acquired_append, released_append, hs a, ht a]

/-- A resource is still held after a trace that leaves nothing. -/
theorem Holds.append_idle (hs : L.Holds a s) (ht : L.Idle t) : L.Holds a (s ++ t) := by
  intro b
  rw [acquired_append, released_append, hs b, ht b, Nat.add_right_comm]

/-- And it is held when nothing was before. -/
theorem Idle.append_holds (hs : L.Idle s) (ht : L.Holds a t) : L.Holds a (s ++ t) := by
  intro b
  rw [acquired_append, released_append, hs b, ht b, Nat.add_assoc]

/-- An event that acquires a resource leaves it held. -/
theorem holds_singleton (hacquires : L.acquires e = some a) (hreleases : L.releases e = none) :
    L.Holds a [e] := by
  intro b
  rw [acquired_singleton hacquires, released_singleton_of_none hreleases, Nat.zero_add]

/-- An event that releases it leaves nothing. -/
theorem Holds.release (h : L.Holds a t) (hacquires : L.acquires e = none)
    (hreleases : L.releases e = some a) : L.Idle (t ++ [e]) := by
  intro b
  rw [acquired_append, released_append, acquired_singleton_of_none hacquires,
    released_singleton hreleases, h b, Nat.add_zero]

/-! ### Events that do neither -/

/-- A quiet trace releases nothing. -/
theorem Quiet.released_eq_zero (h : L.Quiet t) (a : α) : L.released a t = 0 := by
  refine List.countP_eq_zero.mpr fun e he => ?_
  simp [(h e he).2]

/-- It acquires nothing. -/
theorem Quiet.acquired_eq_zero (h : L.Quiet t) (a : α) : L.acquired a t = 0 := by
  refine List.countP_eq_zero.mpr fun e he => ?_
  simp [(h e he).1]

/-- It leaves nothing. -/
theorem Quiet.idle (h : L.Quiet t) : L.Idle t := by
  intro a
  rw [h.acquired_eq_zero, h.released_eq_zero]

/-- Its books are balanced. -/
theorem Quiet.balanced (h : L.Quiet t) : L.Balanced t := by
  intro s hs a
  have hquiet : L.Quiet s := fun e he => h e (hs.subset he)
  rw [hquiet.released_eq_zero]
  exact Nat.zero_le _

end Ledger
