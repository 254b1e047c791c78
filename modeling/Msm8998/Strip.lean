import Mathlib.Logic.Function.Iterate
import Mathlib.Tactic.Common

/-!
# Strips of Memory

A loop that walks a memory with a running pointer lays a *strip*: at each place that the
pointer passes it stores a value or leaves what was there. `Lays n w s s'` says that from the
state `s` to `s'` the pointer has moved on by `n` and the memory has changed by the strip `w`.

Strips are put together as the loops are: behind each other (`Lays.append`), round by round
(`Lays.iterate`), and over each other (`Lays.onto`).
-/

/-- From `s` to `s'` the pointer has moved on by `n`, and at the `i`-th place it passed is what
`w i` says, or what was there if that is nothing. -/
structure Lays {α β : Type*} (pos : α → ℕ) (mem : α → ℕ → β) (n : ℕ) (w : ℕ → Option β)
    (s s' : α) : Prop where
  pos_eq : pos s' = pos s + n
  mem_eq : ∀ a, mem s' a =
    if pos s ≤ a ∧ a < pos s + n then (w (a - pos s)).getD (mem s a) else mem s a

namespace Lays

variable {α β : Type*} {pos : α → ℕ} {mem : α → ℕ → β} {m n k : ℕ} {w w' : ℕ → Option β}
  {s s' s'' : α}

/-- A loop without rounds lays nothing. -/
theorem nil (w : ℕ → Option β) (s : α) : Lays pos mem 0 w s s where
  pos_eq := rfl
  mem_eq a := by rw [if_neg (by omega)]

/-- Only the places that the pointer passes matter. -/
theorem congr (h : Lays pos mem n w s s') (hw : ∀ i < n, w i = w' i) :
    Lays pos mem n w' s s' where
  pos_eq := h.pos_eq
  mem_eq a := by
    rw [h.mem_eq]
    refine if_ctx_congr Iff.rfl (fun ha => ?_) fun _ => rfl
    rw [hw (a - pos s) (by omega)]

/-- One strip behind the other. -/
theorem append (h : Lays pos mem m w s s') (h' : Lays pos mem n w' s' s'') :
    Lays pos mem (m + n) (fun i => if i < m then w i else w' (i - m)) s s'' where
  pos_eq := by rw [h'.pos_eq, h.pos_eq, Nat.add_assoc]
  mem_eq a := by
    rw [h'.mem_eq, h.mem_eq, h.pos_eq]
    by_cases hfirst : pos s ≤ a ∧ a < pos s + m
    · rw [if_neg (by omega), if_pos hfirst, if_pos (by omega), if_pos (by omega)]
    · rw [if_neg hfirst]
      refine if_ctx_congr (by omega) (fun ha => ?_) fun _ => rfl
      rw [if_neg (by omega), Nat.sub_sub]

/-- One strip over the other, of the same length and from the same place on. -/
theorem onto {t t' : α} (h : Lays pos mem n w s s') (h' : Lays pos mem n w' t t')
    (hpos : pos t = pos s) (hmem : mem t = mem s') (a : ℕ) :
    mem t' a = if pos s ≤ a ∧ a < pos s + n then
      ((w' (a - pos s)).or (w (a - pos s))).getD (mem s a) else mem s a := by
  rw [h'.mem_eq, hpos, hmem, h.mem_eq]
  split
  · cases w' (a - pos s) <;> rfl
  · rfl

/-- **Counted loops.** Rounds that lay strips of one length, which may depend on the round and
on what the rounds before have left behind, lay these strips behind each other. -/
theorem iterate {f : α → α} {I : ℕ → α → Prop} {w : ℕ → ℕ → Option β}
    (hf : ∀ j s, I j s → Lays pos mem k (w j) s (f s) ∧ I (j + 1) (f s)) (hI : I 0 s) (n : ℕ) :
    Lays pos mem (n * k) (fun i => w (i / k) (i % k)) s (f^[n] s) ∧ I n (f^[n] s) := by
  induction n with
  | zero =>
      rw [Nat.zero_mul]
      exact ⟨nil _ s, hI⟩
  | succ n ih =>
      obtain ⟨hround, hnext⟩ := hf n _ ih.2
      rw [Function.iterate_succ_apply', Nat.succ_mul]
      refine ⟨(ih.1.append hround).congr fun i hi => ?_, hnext⟩
      split
      · rfl
      · next hge =>
          -- the place is one of the last round
          have hdiv : i / k = n := by
            refine Nat.div_eq_of_lt_le (by omega) ?_
            rw [Nat.succ_mul]
            omega
          have hmod : i % k = i - n * k := by
            rw [Nat.mod_eq_sub_mul_div, hdiv, Nat.mul_comm]
          rw [hdiv, hmod]

/-- Counted loops whose rounds all lay the same strip. -/
theorem iterate_same {f : α → α} (hf : ∀ s, Lays pos mem k w s (f s)) (n : ℕ) (s : α) :
    Lays pos mem (n * k) (fun i => w (i % k)) s (f^[n] s) :=
  (iterate (I := fun _ _ => True) (w := fun _ => w) (fun _ s _ => ⟨hf s, trivial⟩) trivial n).1

end Lays
