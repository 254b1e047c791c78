import Mathlib.Data.Int.ModEq
import Mathlib.Data.List.Induction
import Mathlib.Logic.Function.Basic

/-!
# Circular Logs

A window of memory into which elements are stored one after the other, from its start again once
its end is reached. Nothing is ever taken out: an element stays until the log comes round.

## Main results

* `putAll_offset`: where the next element goes;
* `putAll_outside`: nothing outside of the window changes;
* `putAll_recent`: the last elements, as many as the window has cells, stand in order;
* `putAll_untouched`: a cell that the log has not reached is as before.
-/

/-- The memory, and the cell of the window that the next element goes to. -/
structure CircularLog (α : Type) where
  memory : ℕ → α
  offset : ℕ

namespace CircularLog

variable {α : Type} (base size : ℕ)

/-- Store an element, and go back to the start behind the last cell. -/
def put (l : CircularLog α) (a : α) : CircularLog α where
  memory := Function.update l.memory (base + l.offset) a
  offset := if l.offset + 1 ≥ size then 0 else l.offset + 1

/-- Store elements one after the other. -/
def putAll (l : CircularLog α) (as : List α) : CircularLog α := as.foldl (put base size) l

variable {base size} {l : CircularLog α} {as : List α} {a : α}

/-- Writing two lists behind each other. -/
theorem putAll_append (l : CircularLog α) (as bs : List α) :
    l.putAll base size (as ++ bs) = (l.putAll base size as).putAll base size bs :=
  List.foldl_append

/-- Writing one more element. -/
theorem putAll_concat (l : CircularLog α) (as : List α) (a : α) :
    l.putAll base size (as ++ [a]) = (l.putAll base size as).put base size a :=
  putAll_append l as [a]

/-- An element goes to the place of the offset. -/
theorem put_memory_self (l : CircularLog α) (a : α) :
    (l.put base size a).memory (base + l.offset) = a := Function.update_self ..

/-- Every other place keeps what it holds. -/
theorem put_memory_of_ne {x : ℕ} (hx : x ≠ base + l.offset) (a : α) :
    (l.put base size a).memory x = l.memory x := Function.update_of_ne hx ..

/-- The offset goes on by one, from the end to the start. -/
theorem put_offset (h : l.offset < size) (a : α) :
    (l.put base size a).offset = (l.offset + 1) % size := by
  rw [put]
  by_cases hlast : l.offset + 1 ≥ size
  · have heq : l.offset + 1 = size := Nat.le_antisymm h hlast
    rw [if_pos hlast, heq, Nat.mod_self]
  · rw [if_neg hlast, Nat.mod_eq_of_lt (Nat.not_le.mp hlast)]

/-- **Where the next element goes.** -/
theorem putAll_offset (h : l.offset < size) (as : List α) :
    (l.putAll base size as).offset = (l.offset + as.length) % size := by
  induction as using List.reverseRecOn with
  | nil => exact (Nat.mod_eq_of_lt h).symm
  | append_singleton as a ih =>
      have hlt : (l.putAll base size as).offset < size := ih ▸ Nat.mod_lt _ (by omega)
      rw [putAll_concat, put_offset hlt, ih, Nat.mod_add_mod, List.length_append,
        List.length_singleton, Nat.add_assoc]

/-- **Nothing outside of the window changes.** -/
theorem putAll_outside (h : l.offset < size) (as : List α) {x : ℕ}
    (hx : ¬ (base ≤ x ∧ x < base + size)) : (l.putAll base size as).memory x = l.memory x := by
  induction as using List.reverseRecOn with
  | nil => rfl
  | append_singleton as a ih =>
      have hlt : (l.putAll base size as).offset < size :=
        putAll_offset h as ▸ Nat.mod_lt _ (by omega)
      rw [putAll_concat, put_memory_of_ne (by omega), ih]

/-- Two elements less than a window apart go to different cells. -/
theorem mod_ne_of_lt {i n : ℕ} (o : ℕ) (hi : i < n) (hn : n < i + size) :
    (o + i) % size ≠ (o + n) % size := by
  intro h
  have hmod : i ≡ n [MOD size] := Nat.ModEq.add_left_cancel' o h
  have hdvd : size ∣ n - i := (Nat.modEq_iff_dvd' hi.le).mp hmod
  exact absurd (Nat.le_of_dvd (by omega) hdvd) (by omega)

/-- **The last elements stand in the window**, each at its number in all that was stored. -/
theorem putAll_recent (h : l.offset < size) {as : List α} {i : ℕ} (hi : i < as.length)
    (hrecent : as.length ≤ i + size) :
    (l.putAll base size as).memory (base + (l.offset + i) % size) = as[i] := by
  induction as using List.reverseRecOn with
  | nil => cases hi
  | append_singleton as a ih =>
      rw [List.length_append, List.length_singleton] at hi hrecent
      have hoffset := @putAll_offset _ base _ _ h as
      rw [putAll_concat]
      rcases Nat.lt_or_eq_of_le (Nat.le_of_lt_succ hi) with hlt | rfl
      · have hne := mod_ne_of_lt l.offset hlt (by omega : as.length < i + size)
        rw [put_memory_of_ne (by omega), ih hlt (by omega), List.getElem_append_left hlt]
      · rw [← hoffset, put_memory_self, List.getElem_concat_length rfl]

/-- **A cell that the log has not reached** is as before. -/
theorem putAll_untouched (h : l.offset < size) {as : List α} {j : ℕ}
    (hj : ∀ i < as.length, (l.offset + i) % size ≠ j) :
    (l.putAll base size as).memory (base + j) = l.memory (base + j) := by
  induction as using List.reverseRecOn with
  | nil => rfl
  | append_singleton as a ih =>
      rw [List.length_append, List.length_singleton] at hj
      have hne := hj as.length (Nat.lt_succ_self _)
      have hoffset := @putAll_offset _ base _ _ h as
      rw [putAll_concat, put_memory_of_ne (by omega),
        ih fun i hi => hj i (Nat.lt_succ_of_lt hi)]

end CircularLog
