import Mathlib.Data.List.Basic

/-!
# Terminated Sequences

Sequences laid down one after another, each with a terminator behind it, and one more
terminator behind the last. A reader knows where such a set ends by the first two
terminators in a row.

## Main results

* `firstPair_set_iff`: the first two terminators in a row are the end of the set exactly
  when no sequence after the first is empty;
* `fields_set_iff`: what is read up to there is what was laid down, the set of one empty
  sequence apart.
-/

namespace Terminated

variable {α : Type*} (d : α)

/-- The sequences, each followed by the terminator. -/
def join (ss : List (List α)) : List α := ss.flatMap (· ++ [d])

/-- The sequences with the terminator that ends the set. -/
def set (ss : List (List α)) : List α := join d ss ++ [d]

/-- The first string, with its end. -/
theorem join_cons (s : List α) (ss : List (List α)) : join d (s :: ss) = s ++ d :: join d ss := by
  rw [join, List.flatMap_cons, List.append_assoc, List.singleton_append, join]

/-- The same with the end of the set. -/
theorem set_cons (s : List α) (ss : List (List α)) : set d (s :: ss) = s ++ d :: set d ss := by
  rw [set, join_cons, List.append_assoc, List.cons_append, set]

/-- An empty set is its end alone. -/
theorem set_nil : set d [] = [d] := rfl

/-- The last terminator but one stands behind the last sequence. -/
theorem join_eq_intercalate {ss : List (List α)} (h : ss ≠ []) :
    join d ss = [d].intercalate ss ++ [d] := by
  induction ss with
  | nil => exact absurd rfl h
  | cons s ss ih =>
      cases ss with
      | nil => rw [join_cons, List.intercalate_singleton]; rfl
      | cons t ts =>
          rw [join_cons, ih (List.cons_ne_nil t ts),
            List.intercalate_cons_of_ne_nil (List.cons_ne_nil t ts)]
          simp only [List.append_assoc, List.cons_append, List.nil_append]

/-- A set is only as short as a pair of terminators when its sequence is empty. -/
theorem length_set_eq_two {s : List α} {ss : List (List α)} :
    (set d (s :: ss)).length = 2 ↔ s = [] ∧ ss = [] := by
  rw [set_cons]
  cases ss with
  | nil => simp [set_nil]
  | cons t ts =>
      rw [set_cons]
      simp only [List.length_append, List.length_cons, reduceCtorEq, and_false, iff_false]
      have hpos : 0 < (set d ts).length := by
        rw [set, List.length_append]
        exact Nat.succ_pos _
      omega

/-- A set of at least one sequence holds a pair of terminators. -/
theorem two_le_length_set (s : List α) (ss : List (List α)) : 2 ≤ (set d (s :: ss)).length := by
  rw [set_cons, set, List.length_append, List.length_cons, List.length_append,
    List.length_singleton]
  omega

/-- A set starts with the terminator only if its first sequence is empty. -/
theorem head?_set_cons {s : List α} (hs : d ∉ s) (ss : List (List α)) :
    (set d (s :: ss)).head? = some d ↔ s = [] := by
  rw [set_cons]
  cases s with
  | nil => simp
  | cons x s =>
      have hx : x ≠ d := fun h => hs (h ▸ List.mem_cons_self)
      simp [hx]

variable [DecidableEq α]

/-- Where two terminators in a row stand first. -/
def firstPair : List α → Option ℕ
  | [] => none
  | x :: xs => if x = d ∧ xs.head? = some d then some 0 else (firstPair xs).map (· + 1)

/-- The sequences read up to the first two terminators in a row. -/
def fields (l : List α) : Option (List (List α)) :=
  (firstPair d l).map fun n => if n = 0 then [] else (l.take n).splitOn d

variable {d}

/-- No pair starts with another element. -/
theorem firstPair_cons_of_ne {x : α} (xs : List α) (h : x ≠ d) :
    firstPair d (x :: xs) = (firstPair d xs).map (· + 1) := by
  rw [firstPair, if_neg fun hx => h hx.1]

/-- A terminator with something else behind it is passed over. -/
theorem firstPair_cons_self {xs : List α} (h : xs.head? ≠ some d) :
    firstPair d (d :: xs) = (firstPair d xs).map (· + 1) := by
  rw [firstPair, if_neg fun hx => h hx.2]

/-- Nothing in front of the first terminator matters. -/
theorem firstPair_append {s : List α} (hs : d ∉ s) (l : List α) :
    firstPair d (s ++ l) = (firstPair d l).map (· + s.length) := by
  induction s with
  | nil => simp
  | cons x s ih =>
      have hx : x ≠ d := fun h => hs (h ▸ List.mem_cons_self)
      have hrest : d ∉ s := fun h => hs (List.mem_cons_of_mem x h)
      rw [List.cons_append, firstPair_cons_of_ne _ hx, ih hrest, Option.map_map,
        List.length_cons]
      rfl

/-- **The end of a set.** The first two terminators in a row end a set of at least one
sequence exactly when none but the first is empty. -/
theorem firstPair_set_iff {s : List α} {ss : List (List α)} (h : ∀ t ∈ s :: ss, d ∉ t) :
    firstPair d (set d (s :: ss)) = some ((set d (s :: ss)).length - 2) ↔ ∀ t ∈ ss, t ≠ [] := by
  have hs := h s List.mem_cons_self
  induction ss generalizing s with
  | nil => simp [set_cons, set_nil, firstPair_append hs, firstPair]
  | cons t ts ih =>
      have ht := h t (List.mem_cons_of_mem s List.mem_cons_self)
      have hrest : ∀ u ∈ t :: ts, d ∉ u := fun u hu => h u (List.mem_cons_of_mem s hu)
      have hlen := two_le_length_set d t ts
      rw [set_cons, firstPair_append hs, List.length_append, List.length_cons]
      by_cases hnil : t = []
      · -- two terminators stand behind `s` already
        have hhead := (head?_set_cons d ht ts).mpr hnil
        rw [firstPair, if_pos ⟨rfl, hhead⟩, List.forall_mem_cons, Option.map_some,
          Option.some.injEq]
        refine iff_of_false ?_ fun hall => hall.1 hnil
        omega
      · have hhead := mt (head?_set_cons d ht ts).mp hnil
        have hih := ih hrest ht
        rw [firstPair_cons_self hhead, Option.map_map, List.forall_mem_cons,
          and_iff_right hnil]
        refine Iff.trans ?_ hih
        cases hpair : firstPair d (set d (t :: ts)) with
        | none => simp
        | some n =>
            simp only [Option.map_some, Function.comp_apply, Option.some.injEq]
            omega

/-- **Reading a set back.** Up to its end, a set of at least one sequence reads as what was
laid down, if that is not one empty sequence. -/
theorem take_set_splitOn {ss : List (List α)} (h : ∀ t ∈ ss, d ∉ t) (hne : ss ≠ []) :
    ((set d ss).take ((set d ss).length - 2)).splitOn d = ss := by
  have hset : set d ss = [d].intercalate ss ++ [d, d] := by
    rw [set, join_eq_intercalate d hne, List.append_assoc, List.singleton_append]
  have hlen : (set d ss).length - 2 = ([d].intercalate ss).length := by
    rw [hset, List.length_append]
    exact Nat.add_sub_cancel _ _
  rw [hlen, hset, List.take_left, List.splitOn_intercalate d h hne]

/-- **Which sets read back.** -/
theorem fields_set_iff {s : List α} {ss : List (List α)} (h : ∀ t ∈ s :: ss, d ∉ t) :
    (firstPair d (set d (s :: ss)) = some ((set d (s :: ss)).length - 2) ∧
        fields d (set d (s :: ss)) = some (s :: ss)) ↔
      (∀ t ∈ ss, t ≠ []) ∧ ¬ (s = [] ∧ ss = []) := by
  rw [firstPair_set_iff h]
  refine and_congr_right fun htail => ?_
  have hlen := two_le_length_set d s ss
  rw [fields, (firstPair_set_iff h).mpr htail, Option.map_some,
    take_set_splitOn h (List.cons_ne_nil s ss), Option.some.injEq, ← length_set_eq_two d]
  split_ifs with hzero
  · simp only [false_iff, not_not]
    omega
  · simp only [true_iff]
    omega

end Terminated
