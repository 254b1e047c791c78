import Mathlib.Logic.Function.Iterate

/-!
# Graded Relations

A loop that runs a fixed number of times adds up what one round does. This module states
that for relations: a family `R n` of relations between states, indexed by an amount `n`,
is *graded* when nothing happens at amount zero and amounts add along composition. The
rule for counted loops is then `Graded.iterate`: if every round is related by `R k`, then
`n` rounds are related by `R (n * k)`. Nested loops are nested uses of it.
-/

/-- A family of relations whose index adds up along composition. -/
structure Graded {α : Type*} (R : ℕ → α → α → Prop) : Prop where
  refl : ∀ s, R 0 s s
  trans : ∀ {m n a b c}, R m a b → R n b c → R (m + n) a c

namespace Graded

variable {α β : Type*} {R : ℕ → α → α → Prop}

/-- **Counted loops.** Rounds of amount `k` make a loop of amount `n * k`. -/
theorem iterate (hR : Graded R) {f : α → α} {k : ℕ} (hf : ∀ s, R k s (f s)) (n : ℕ) (s : α) :
    R (n * k) s (f^[n] s) := by
  induction n generalizing s with
  | zero =>
      rw [Nat.zero_mul]
      exact hR.refl s
  | succ n ih =>
      rw [Function.iterate_succ_apply, Nat.add_mul, Nat.one_mul, Nat.add_comm]
      exact hR.trans (hf s) (ih (f s))

/-- A graded relation on part of a larger state. -/
theorem comap (hR : Graded R) (g : β → α) : Graded fun n a b => R n (g a) (g b) where
  refl s := hR.refl (g s)
  trans h h' := hR.trans h h'

end Graded
