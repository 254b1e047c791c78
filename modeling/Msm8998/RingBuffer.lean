import Mathlib.Algebra.Group.Nat.Defs
import Mathlib.Data.List.Basic

/-!
# Ring Buffers

A ring of `n` slots with a head and a tail index, one slot of which always stays free, so that
equal indices mean an empty ring. A push into a full ring gives up the oldest element.

## Main results

* `contents_eq_nil_iff`: the emptiness test looks at the contents;
* `pop_eq_some`: a pop takes the oldest element;
* `contents_push_of_room`, `contents_push_of_full`: a push appends, and drops the oldest element
  of a full ring;
* `WellFormed.advance`, `WellFormed.push`: the indices stay below `n`.
-/

/-- The slots, the index of the oldest element, and the index the next element goes to. -/
structure RingBuffer (α : Type) where
  slots : ℕ → α
  head : ℕ
  tail : ℕ

namespace RingBuffer

variable {α : Type} (n : ℕ) (r : RingBuffer α)

/-- Equal indices mean an empty ring. -/
def isEmpty : Bool := r.head == r.tail

/-- Step over the oldest element. -/
def advance : RingBuffer α := { r with head := (r.head + 1) % n }

/-- Take the oldest element; `none` on an empty ring. -/
def pop : Option (α × RingBuffer α) :=
  if r.isEmpty then none else some (r.slots r.head, r.advance n)

/-- Give up the oldest element, if there is one. -/
def dropOldest : RingBuffer α := ((r.pop n).map Prod.snd).getD r

/-- Put an element into the slot at the tail. -/
def store (a : α) : RingBuffer α :=
  { r with slots := fun i => if i = r.tail then a else r.slots i, tail := (r.tail + 1) % n }

/-- Put an element at the tail; a full ring gives up its oldest element first. -/
def push (a : α) : RingBuffer α :=
  (if (r.tail + 1) % n = r.head then r.dropOldest n else r).store n a

/-- Forget all elements. -/
def clear : RingBuffer α := { r with head := 0, tail := 0 }

/-- Both indices name a slot. -/
structure WellFormed : Prop where
  head_lt : r.head < n
  tail_lt : r.tail < n

/-- How many elements wait in the ring. -/
def count : ℕ := (r.tail + n - r.head) % n

/-- The elements that wait in the ring, the oldest first. -/
def contents : List α := (List.range (r.count n)).map fun i => r.slots ((r.head + i) % n)

@[simp] theorem length_contents : (r.contents n).length = r.count n := by simp [contents]

variable {n} {r}

/-! ### Positions in the ring -/

/-- How many elements there are, by the places of head and tail. -/
theorem count_eq (h : r.WellFormed n) :
    r.count n = if r.head ≤ r.tail then r.tail - r.head else r.tail + n - r.head := by
  obtain ⟨hh, ht⟩ := h
  rw [count]
  split
  · rw [show r.tail + n - r.head = r.tail - r.head + n by omega, Nat.add_mod_right,
      Nat.mod_eq_of_lt (by omega)]
  · exact Nat.mod_eq_of_lt (by omega)

/-- One slot is always free. -/
theorem count_lt (h : r.WellFormed n) : r.count n < n :=
  Nat.mod_lt _ (by have := h.head_lt; omega)

/-- Counting on from the head leads to the tail. -/
theorem head_add_count (h : r.WellFormed n) : (r.head + r.count n) % n = r.tail := by
  have ⟨hh, ht⟩ := h
  rw [count_eq h]
  split
  · rw [Nat.add_sub_cancel' (by assumption), Nat.mod_eq_of_lt ht]
  · rw [show r.head + (r.tail + n - r.head) = r.tail + n by omega, Nat.add_mod_right,
      Nat.mod_eq_of_lt ht]

/-- The place of an element is not the free one. -/
theorem head_add_ne_tail (h : r.WellFormed n) {i : ℕ} (hi : i < r.count n) :
    (r.head + i) % n ≠ r.tail := by
  have ⟨hh, ht⟩ := h
  have hc := count_lt h
  rw [count_eq h] at hi hc
  rcases Nat.lt_or_ge (r.head + i) n with hlt | hge
  · rw [Nat.mod_eq_of_lt hlt]
    split at hi <;> omega
  · rw [Nat.mod_eq_sub_mod hge, Nat.mod_eq_of_lt (by omega)]
    split at hi <;> omega

/-- There are none when head and tail meet. -/
theorem count_eq_zero_iff (h : r.WellFormed n) : r.count n = 0 ↔ r.head = r.tail := by
  have ⟨hh, ht⟩ := h
  rw [count_eq h]
  split <;> omega

/-- This is the test for an empty buffer. -/
theorem isEmpty_iff : r.isEmpty = true ↔ r.head = r.tail := by simp [isEmpty]

/-- It is passed when there is nothing in it. -/
theorem contents_eq_nil_iff (h : r.WellFormed n) : r.contents n = [] ↔ r.isEmpty = true := by
  rw [isEmpty_iff, ← count_eq_zero_iff h, ← length_contents, List.length_eq_zero_iff]

/-- The ring is full when the tail is one slot behind the head. -/
theorem full_iff (h : r.WellFormed n) : (r.tail + 1) % n = r.head ↔ r.count n + 1 = n := by
  have ⟨hh, ht⟩ := h
  rw [count_eq h]
  rcases Nat.lt_or_ge (r.tail + 1) n with hlt | hge
  · rw [Nat.mod_eq_of_lt hlt]
    split <;> omega
  · rw [show r.tail + 1 = n by omega, Nat.mod_self]
    split <;> omega

/-! ### Taking elements out -/

/-- Going on keeps the indices in range. -/
theorem WellFormed.advance (h : r.WellFormed n) : (r.advance n).WellFormed n :=
  ⟨Nat.mod_lt _ (by have := h.head_lt; omega), h.tail_lt⟩

/-- It leaves one element less. -/
theorem count_advance (h : r.WellFormed n) (hne : r.head ≠ r.tail) :
    (r.advance n).count n + 1 = r.count n := by
  have ⟨hh, ht⟩ := h
  rw [count_eq h, count_eq h.advance]
  rw [RingBuffer.advance]
  dsimp only
  rcases Nat.lt_or_ge (r.head + 1) n with hlt | hge
  · rw [Nat.mod_eq_of_lt hlt]
    split <;> split <;> omega
  · rw [show r.head + 1 = n by omega, Nat.mod_self]
    split <;> split <;> omega

/-- The element at the head comes first, the rest is what a ring without it holds. -/
theorem contents_eq_cons (h : r.WellFormed n) (hne : r.head ≠ r.tail) :
    r.contents n = r.slots r.head :: (r.advance n).contents n := by
  have hc := count_advance h hne
  rw [contents]
  rw [← hc, List.range_succ_eq_map, List.map_cons, List.map_map]
  congr 1
  · rw [Nat.add_zero, Nat.mod_eq_of_lt h.head_lt]
  · apply List.map_congr_left
    intro i _
    have hi : ((r.head + 1) % n + i) % n = (r.head + (i + 1)) % n := by
      rw [Nat.mod_add_mod, Nat.add_assoc, Nat.add_comm 1 i]
    simp [RingBuffer.advance, hi]

/-- Nothing can be taken from an empty buffer. -/
theorem pop_eq_none (h : r.WellFormed n) (hc : r.contents n = []) : r.pop n = none := by
  simp [pop, (contents_eq_nil_iff h).mp hc]

/-- **A pop takes the oldest element** and leaves the others. -/
theorem pop_eq_some (h : r.WellFormed n) {a : α} {l : List α} (hc : r.contents n = a :: l) :
    r.pop n = some (a, r.advance n) ∧ (r.advance n).contents n = l := by
  have hne : r.head ≠ r.tail := by
    intro heq
    rw [(contents_eq_nil_iff h).mpr (isEmpty_iff.mpr heq)] at hc
    exact List.cons_ne_nil a l hc.symm
  rw [contents_eq_cons h hne] at hc
  obtain ⟨rfl, rfl⟩ := List.cons.inj hc
  exact ⟨by simp [pop, isEmpty, hne], rfl⟩

/-- Dropping the oldest element is going on. -/
theorem dropOldest_of_cons (h : r.WellFormed n) {a : α} {l : List α}
    (hc : r.contents n = a :: l) : r.dropOldest n = r.advance n := by
  simp [dropOldest, (pop_eq_some h hc).1]

/-! ### Putting elements in -/

/-- Storing keeps the indices in range. -/
theorem WellFormed.store (h : r.WellFormed n) (a : α) : (r.store n a).WellFormed n :=
  ⟨h.head_lt, Nat.mod_lt _ (by have := h.head_lt; omega)⟩

/-- It makes one element more. -/
theorem count_store (h : r.WellFormed n) (hroom : r.count n + 1 < n) (a : α) :
    (r.store n a).count n = r.count n + 1 := by
  have ⟨hh, ht⟩ := h
  rw [count_eq (h.store a)]
  rw [count_eq h] at hroom ⊢
  rw [RingBuffer.store]
  dsimp only
  rcases Nat.lt_or_ge (r.tail + 1) n with hlt | hge
  · rw [Nat.mod_eq_of_lt hlt]
    split at hroom <;> split <;> omega
  · rw [show r.tail + 1 = n by omega, Nat.mod_self]
    split at hroom <;> split <;> omega

/-- The stored element comes last. -/
theorem contents_store (h : r.WellFormed n) (hroom : r.count n + 1 < n) (a : α) :
    (r.store n a).contents n = r.contents n ++ [a] := by
  rw [contents]
  rw [count_store h hroom, List.range_succ, List.map_append]
  congr 1
  · apply List.map_congr_left
    intro i hi
    exact if_neg (head_add_ne_tail h (List.mem_range.mp hi))
  · simp [RingBuffer.store, head_add_count h]

/-- Where there is room an element is stored. -/
theorem push_of_room (h : r.WellFormed n) (hroom : r.count n + 1 < n) (a : α) :
    r.push n a = r.store n a := by
  have hfull : ¬(r.tail + 1) % n = r.head := by
    rw [full_iff h]
    omega
  simp [push, hfull]

/-- In a full buffer the oldest is dropped first. -/
theorem push_of_full (h : r.WellFormed n) (hfull : r.count n + 1 = n) {a b : α} {l : List α}
    (hc : r.contents n = a :: l) : r.push n b = (r.advance n).store n b := by
  rw [push, if_pos ((full_iff h).mpr hfull), dropOldest_of_cons h hc]

/-- Pushing keeps the indices in range. -/
theorem WellFormed.push (h : r.WellFormed n) (a : α) : (r.push n a).WellFormed n := by
  rw [RingBuffer.push]
  split
  · cases hc : r.contents n with
    | nil =>
      have hd : r.dropOldest n = r := by simp [dropOldest, pop_eq_none h hc]
      rw [hd]
      exact h.store a
    | cons b l =>
      rw [dropOldest_of_cons h hc]
      exact h.advance.store a
  · exact h.store a

/-- **A push appends** when there is room. -/
theorem contents_push_of_room (h : r.WellFormed n) (hroom : r.count n + 1 < n) (a : α) :
    (r.push n a).contents n = r.contents n ++ [a] := by
  rw [push_of_room h hroom, contents_store h hroom]

/-- **A push into a full ring** gives up the oldest element. -/
theorem contents_push_of_full (h : r.WellFormed n) (hfull : r.count n + 1 = n) {a b : α}
    {l : List α} (hc : r.contents n = a :: l) : (r.push n b).contents n = l ++ [b] := by
  have hl : (r.advance n).contents n = l := (pop_eq_some h hc).2
  have hlen : l.length + 1 = r.count n := by rw [← length_contents, hc, List.length_cons]
  have hroom : (r.advance n).count n + 1 < n := by
    rw [← length_contents, hl]
    omega
  rw [push_of_full h hfull hc, contents_store h.advance hroom, hl]

/-! ### Forgetting all elements -/

/-- A cleared buffer has its indices in range. -/
theorem wellFormed_clear (hn : 0 < n) (r : RingBuffer α) : r.clear.WellFormed n := ⟨hn, hn⟩

@[simp] theorem contents_clear (n : ℕ) (r : RingBuffer α) : r.clear.contents n = [] := by
  simp [contents, count, clear]

end RingBuffer
