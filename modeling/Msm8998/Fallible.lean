import Mathlib.Data.List.Basic

/-!
# Runs That May Fail

When a sequence or a traversal of runs that may raise an error succeeds.

## Main results

* `bind_eq_ok`, `Ends.bind`: the inversion of one sequencing step, and its rule;
* `exists_mapM_eq_ok`, `mapM_eq_ok_iff`: traversals, element by element.
* `getElem?_of_mapM_eq_ok`: the result at an index is that of the element there.
* `foldlM_eq_ok_iff`: a loop that can only fail before it updates its state.
* `foldlM_eq_ite`: a loop whose passes fail with one error, whatever the state is.
-/

namespace Fallible

/-- A run of two parts succeeds when both do. -/
theorem bind_eq_ok {ε α β : Type} {x : Except ε α} {f : α → Except ε β} {b : β} :
    (x >>= f) = .ok b ↔ ∃ a, x = .ok a ∧ f a = .ok b := by
  cases x with
  | error e => simp [bind, Except.bind]
  | ok a => simp [bind, Except.bind]

/-- What follows a success runs on its value. -/
theorem ok_bind {ε α β : Type} (a : α) (f : α → Except ε β) : (.ok a >>= f) = f a := rfl

/-- A run ends with an error or with a result of a given kind. -/
def Ends {ε α : Type} (E : ε → Prop) (Q : α → Prop) : Except ε α → Prop
  | .error e => E e
  | .ok a => Q a

/-- One part of a run after the other. -/
theorem Ends.bind {ε α β : Type} {E : ε → Prop} {Q : α → Prop} {R : β → Prop} {x : Except ε α}
    {f : α → Except ε β} (hx : Ends E Q x) (hf : ∀ a, Q a → Ends E R (f a)) :
    Ends E R (x >>= f) := by
  cases x with
  | error e => exact hx
  | ok a => exact hf a hx

/-- A traversal succeeds when every element does. -/
theorem exists_mapM_eq_ok {ε α β : Type} {f : α → Except ε β} {xs : List α} :
    (∃ ys, xs.mapM f = .ok ys) ↔ ∀ x ∈ xs, ∃ y, f x = .ok y := by
  induction xs with
  | nil => exact iff_of_true ⟨[], rfl⟩ (by simp)
  | cons x xs ih =>
      rw [List.forall_mem_cons, ← ih]
      simp only [List.mapM_cons, bind_eq_ok]
      constructor
      · rintro ⟨ys, y, hy, ys', hys', -⟩
        exact ⟨⟨y, hy⟩, ys', hys'⟩
      · rintro ⟨⟨y, hy⟩, ys', hys'⟩
        exact ⟨y :: ys', y, hy, ys', hys', rfl⟩

/-- Another traversal gives the same results when it agrees on every element. -/
theorem mapM_eq_ok_iff {ε α β : Type} {f g : α → Except ε β} {xs : List α} {ys : List β}
    (h : xs.mapM f = .ok ys) : xs.mapM g = .ok ys ↔ ∀ x ∈ xs, g x = f x := by
  induction xs generalizing ys with
  | nil => exact iff_of_true h (by simp)
  | cons x xs ih =>
      rw [List.mapM_cons, bind_eq_ok] at h
      obtain ⟨y, hy, h⟩ := h
      obtain ⟨ys', hys', h⟩ := bind_eq_ok.mp h
      cases h
      rw [List.forall_mem_cons, ← ih hys', hy, List.mapM_cons, bind_eq_ok]
      constructor
      · rintro ⟨z, hz, hrest⟩
        obtain ⟨zs, hzs, heq⟩ := bind_eq_ok.mp hrest
        cases heq
        exact ⟨hz, hzs⟩
      · rintro ⟨hg, hrest⟩
        exact ⟨y, hg, bind_eq_ok.mpr ⟨ys', hrest, rfl⟩⟩

/-- The results of a traversal stand at the indices of the elements. -/
theorem getElem?_of_mapM_eq_ok {ε α β : Type} {f : α → Except ε β} {xs : List α} {ys : List β}
    (h : xs.mapM f = .ok ys) {i : ℕ} {x : α} (hx : xs[i]? = some x) :
    ∃ y, ys[i]? = some y ∧ f x = .ok y := by
  induction xs generalizing ys i with
  | nil => cases hx
  | cons x' xs ih =>
      rw [List.mapM_cons, bind_eq_ok] at h
      obtain ⟨y', hy', h⟩ := h
      obtain ⟨ys', hys', h⟩ := bind_eq_ok.mp h
      cases h
      cases i with
      | zero =>
          cases hx
          exact ⟨y', rfl, hy'⟩
      | succ i => exact ih hys' hx

/-- A loop whose passes compute something that may fail and then update a state has the state
that the results of a traversal give. -/
theorem foldlM_eq_ok_iff {ε α β σ : Type} {f : α → Except ε β} {g : σ → β → σ} {xs : List α}
    {s s' : σ} :
    xs.foldlM (fun s x => do let y ← f x; return g s y) s = .ok s' ↔
      ∃ ys, xs.mapM f = .ok ys ∧ s' = ys.foldl g s := by
  induction xs generalizing s with
  | nil =>
      constructor
      · intro h
        cases h
        exact ⟨[], rfl, rfl⟩
      · rintro ⟨ys, hys, rfl⟩
        cases hys
        rfl
  | cons x xs ih =>
      rw [List.foldlM_cons, List.mapM_cons]
      simp only [bind_eq_ok, ih]
      constructor
      · rintro ⟨next, ⟨y, hy, hnext⟩, ys, hys, rfl⟩
        cases hnext
        exact ⟨y :: ys, ⟨y, hy, ys, hys, rfl⟩, rfl⟩
      · rintro ⟨zs, ⟨y, hy, ys, hys, hzs⟩, rfl⟩
        cases hzs
        exact ⟨g s y, ⟨y, hy, rfl⟩, ys, hys, rfl⟩

/-- A loop whose passes fail with one error, on elements that do not depend on the state. -/
theorem foldlM_eq_ite {ε α σ : Type} {f : σ → α → Except ε σ} {g : σ → α → σ} {e : ε}
    {R : α → Prop} [DecidablePred R]
    (h : ∀ s a, f s a = if R a then .ok (g s a) else .error e) (xs : List α) (s : σ) :
    xs.foldlM f s = if ∀ a ∈ xs, R a then .ok (xs.foldl g s) else .error e := by
  induction xs generalizing s with
  | nil => exact (if_pos (List.forall_mem_nil R)).symm
  | cons a xs ih =>
      rw [List.foldlM_cons, h, List.foldl_cons]
      simp only [List.forall_mem_cons]
      by_cases ha : R a
      · rw [if_pos ha, ok_bind, ih]
        simp only [ha, true_and]
      · rw [if_neg ha, if_neg fun hall => ha hall.1]
        rfl

end Fallible
