import Mathlib.Data.List.MinMax

/-!
# The First Minimum of a List

`List.argmin` keeps the first element at which a function is least. Here its result is told by
the list around it: everything before is greater, and nothing behind is less.

## Main results

* `split_of_argmin_eq_some`: the first minimum splits the list.
* `split_unique`: a list is split so in one way.
-/

namespace FirstMinimum

variable {α β : Type*} [LinearOrder β] {f : α → β} {l : List α} {a : α}

/-- **The first minimum** has only greater ones before it and no smaller ones behind it. -/
theorem split_of_argmin_eq_some (h : l.argmin f = some a) :
    ∃ before after, l = before ++ a :: after ∧ (∀ b ∈ before, f a < f b) ∧
      ∀ b ∈ after, f a ≤ f b := by
  induction l using List.reverseRecOn generalizing a with
  | nil => cases h
  | append_singleton l c ih =>
      rw [List.argmin_concat] at h
      cases hl : l.argmin f with
      | none =>
          rw [List.argmin_eq_none] at hl
          rw [hl, List.argmin_nil] at h
          obtain rfl : c = a := Option.some.inj h
          exact ⟨[], [], by rw [hl], by simp, by simp⟩
      | some b =>
          obtain ⟨before, after, rfl, hbefore, hafter⟩ := ih hl
          rw [hl] at h
          dsimp only at h
          split at h
          · rename_i hlt
            obtain rfl : c = a := Option.some.inj h
            refine ⟨before ++ b :: after, [], rfl, ?_, by simp⟩
            intro x hx
            rcases List.mem_append.mp hx with hx | hx
            · exact hlt.trans (hbefore x hx)
            · rcases List.mem_cons.mp hx with rfl | hx
              · exact hlt
              · exact hlt.trans_le (hafter x hx)
          · rename_i hle
            obtain rfl : b = a := Option.some.inj h
            refine ⟨before, after ++ [c], by simp, hbefore, ?_⟩
            intro x hx
            rcases List.mem_append.mp hx with hx | hx
            · exact hafter x hx
            · rw [List.mem_singleton.mp hx]
              exact not_lt.mp hle

/-- **There is one first minimum**, with one list before it and one behind it. -/
theorem split_unique {before after before' after' : List α} {a a' : α}
    (h : before ++ a :: after = before' ++ a' :: after')
    (hbefore : ∀ b ∈ before, f a < f b) (hafter : ∀ b ∈ after, f a ≤ f b)
    (hbefore' : ∀ b ∈ before', f a' < f b) (hafter' : ∀ b ∈ after', f a' ≤ f b) :
    before = before' ∧ a = a' ∧ after = after' := by
  induction before generalizing before' with
  | nil =>
      cases before' with
      | nil =>
          obtain ⟨rfl, rfl⟩ := List.cons.inj h
          exact ⟨rfl, rfl, rfl⟩
      | cons b before' =>
          -- the other one would be behind the first, and less
          obtain ⟨rfl, rfl⟩ := List.cons.inj h
          have hlt := hbefore' a List.mem_cons_self
          exact absurd (hafter a' (by simp)) (not_le.mpr hlt)
  | cons b before ih =>
      cases before' with
      | nil =>
          obtain ⟨rfl, rfl⟩ := List.cons.inj h
          have hlt := hbefore b List.mem_cons_self
          exact absurd (hafter' a (by simp)) (not_le.mpr hlt)
      | cons b' before' =>
          obtain ⟨rfl, htail⟩ := List.cons.inj h
          obtain ⟨rfl, rfl, rfl⟩ := ih htail (fun x hx => hbefore x (List.mem_cons_of_mem _ hx))
            (fun x hx => hbefore' x (List.mem_cons_of_mem _ hx))
          exact ⟨rfl, rfl, rfl⟩

end FirstMinimum
