import Mathlib.Order.BooleanAlgebra.Set
import Msm8998.Ledger

/-!
# Custody of Resources That Rest on Others

A `Ledger` counts what was acquired and released. Here a resource may also rest on others, as an
event rests on the memory of its context, and a trace is followed through the set of what is
held: only what is not held is acquired, on ground that is held, and only what is held is
released, when nothing that is held rests on it.

## Main results

* `Run.append`: such traces compose;
* `Run.grounded`: what is held always has its ground;
* `Run.counts`, `Run.balanced`: the books agree with what is held;
* `Run.idle`: a trace that ends with what it began with has released all it acquired.
-/

/-- A ledger whose resources may rest on others. -/
structure Custody (ε α : Type*) extends Ledger ε α where
  rests : α → α → Prop

namespace Custody

variable {ε α : Type*} (C : Custody ε α)

/-- A trace takes what is held from one set to another. -/
inductive Run : Set α → List ε → Set α → Prop
  | nil (H : Set α) : Run H [] H
  | acquire {H H' : Set α} {t : List ε} {e : ε} {a : α} (hacquires : C.acquires e = some a)
      (hreleases : C.releases e = none) (hnew : a ∉ H) (hground : ∀ b, C.rests a b → b ∈ H)
      (h : Run (insert a H) t H') : Run H (e :: t) H'
  | release {H H' : Set α} {t : List ε} {e : ε} {a : α} (hacquires : C.acquires e = none)
      (hreleases : C.releases e = some a) (hheld : a ∈ H) (hfree : ∀ b ∈ H, ¬ C.rests b a)
      (h : Run (H \ {a}) t H') : Run H (e :: t) H'

/-- Everything in a set has what it rests on in the set. -/
def Grounded (H : Set α) : Prop := ∀ a ∈ H, ∀ b, C.rests a b → b ∈ H

variable {C} {H K L : Set α} {s t : List ε} {e : ε} {a : α}

/-- Runs behind each other are a run. -/
theorem Run.append (hs : C.Run H s K) (ht : C.Run K t L) : C.Run H (s ++ t) L := by
  induction hs with
  | nil => exact ht
  | acquire hacquires hreleases hnew hground _ ih =>
      exact .acquire hacquires hreleases hnew hground (ih ht)
  | release hacquires hreleases hheld hfree _ ih =>
      exact .release hacquires hreleases hheld hfree (ih ht)

/-- One acquisition. -/
theorem Run.gain (hacquires : C.acquires e = some a) (hreleases : C.releases e = none)
    (hnew : a ∉ H) (hground : ∀ b, C.rests a b → b ∈ H) (hK : K = insert a H) :
    C.Run H [e] K :=
  hK ▸ .acquire hacquires hreleases hnew hground (.nil _)

/-- One release. -/
theorem Run.drop (hacquires : C.acquires e = none) (hreleases : C.releases e = some a)
    (hheld : a ∈ H) (hfree : ∀ b ∈ H, ¬ C.rests b a) (hK : K = H \ {a}) : C.Run H [e] K :=
  hK ▸ .release hacquires hreleases hheld hfree (.nil _)

/-- **What is held always has its ground.** -/
theorem Run.grounded (h : C.Run H t K) (hH : C.Grounded H) : C.Grounded K := by
  induction h with
  | nil => exact hH
  | acquire _ _ _ hground _ ih =>
      refine ih fun a ha b hb => ?_
      rcases Set.mem_insert_iff.mp ha with rfl | ha
      · exact Set.mem_insert_of_mem _ (hground b hb)
      · exact Set.mem_insert_of_mem _ (hH a ha b hb)
  | release _ _ _ hfree _ ih =>
      refine ih fun a ha b hb => ⟨hH a ha.1 b hb, ?_⟩
      rintro rfl
      exact hfree a ha.1 hb

/-- Nothing needs no ground. -/
theorem grounded_empty : C.Grounded ∅ := fun _ ha => absurd ha (Set.notMem_empty _)

/-- A trace can be parted anywhere. -/
theorem Run.of_append (h : C.Run H (s ++ t) L) : ∃ K, C.Run H s K ∧ C.Run K t L := by
  induction s generalizing H with
  | nil => exact ⟨H, .nil H, h⟩
  | cons e s ih =>
      cases h with
      | acquire hacquires hreleases hnew hground h =>
          obtain ⟨K, hs, ht⟩ := ih h
          exact ⟨K, .acquire hacquires hreleases hnew hground hs, ht⟩
      | release hacquires hreleases hheld hfree h =>
          obtain ⟨K, hs, ht⟩ := ih h
          exact ⟨K, .release hacquires hreleases hheld hfree hs, ht⟩

/-! ### The books -/

open Classical in
/-- How often a resource is held: once or not at all. -/
noncomputable def held (H : Set α) (a : α) : ℕ := if a ∈ H then 1 else 0

/-- What is held counts once. -/
theorem held_of_mem (h : a ∈ H) : held H a = 1 := if_pos h

/-- What is not held does not count. -/
theorem held_of_notMem (h : a ∉ H) : held H a = 0 := if_neg h

/-- Sets that agree on a resource count it alike. -/
theorem held_congr (h : a ∈ H ↔ a ∈ K) : held H a = held K a := by
  by_cases ha : a ∈ K
  · rw [held_of_mem (h.mpr ha), held_of_mem ha]
  · rw [held_of_notMem (mt h.mp ha), held_of_notMem ha]

variable [DecidableEq α]

/-- Taking a resource adds it to the count. -/
theorem held_insert (h : a ∉ H) (b : α) :
    held (insert a H) b = (if b = a then 1 else 0) + held H b := by
  by_cases hb : b = a
  · rw [if_pos hb, hb, held_of_notMem h, held_of_mem (Set.mem_insert a H)]
  · rw [if_neg hb, Nat.zero_add]
    exact held_congr (Set.mem_insert_iff.trans (or_iff_right hb))

/-- Giving it back takes it from the count. -/
theorem held_sdiff (h : a ∈ H) (b : α) :
    held H b = (if b = a then 1 else 0) + held (H \ {a}) b := by
  rw [← held_insert (fun hmem => hmem.2 rfl), Set.insert_sdiff_self_of_mem h]

/-- **The books agree with what is held**, before and after. -/
theorem Run.counts (h : C.Run H t K) (a : α) :
    C.acquired a t + held H a = C.released a t + held K a := by
  induction h with
  | nil H => simp only [Ledger.acquired, Ledger.released, List.countP_nil]
  | @acquire H H' t e b hacquires hreleases hnew _ _ ih =>
      rw [held_insert hnew] at ih
      rw [← List.singleton_append, Ledger.acquired_append, Ledger.released_append,
        Ledger.acquired_singleton hacquires, Ledger.released_singleton_of_none hreleases]
      omega
  | @release H H' t e b hacquires hreleases hheld _ _ ih =>
      rw [held_sdiff hheld, ← List.singleton_append, Ledger.acquired_append,
        Ledger.released_append, Ledger.acquired_singleton_of_none hacquires,
        Ledger.released_singleton hreleases]
      omega

/-- What is held was acquired once more than released, and nothing else was. -/
theorem Run.acquired_eq (h : C.Run ∅ t K) (a : α) :
    C.acquired a t = C.released a t + held K a := by
  have hcounts := h.counts a
  rwa [held_of_notMem (Set.notMem_empty a)] at hcounts

/-- **Nothing is released more often than acquired**, at any time. -/
theorem Run.balanced (h : C.Run ∅ t K) : C.Balanced t := by
  rintro s ⟨rest, rfl⟩ a
  obtain ⟨L, hs, -⟩ := h.of_append
  rw [hs.acquired_eq a]
  exact Nat.le_add_right _ _

/-- **A trace that ends with what it began with** has released all it acquired. -/
theorem Run.idle (h : C.Run H t H) : C.Idle t := fun a => Nat.add_right_cancel (h.counts a)

end Custody
