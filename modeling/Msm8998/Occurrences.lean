import Mathlib.Algebra.Group.Nat.Defs
import Mathlib.Data.List.Basic
import Mathlib.Data.List.Nodup

/-!
# Occurrences of a Pattern

Where a pattern occurs in a list, and the search for the next place. The elements of the
patterns here are distinct, so two occurrences never overlap and a search that goes on behind
each occurrence meets all of them.

## Main results

* `OccursAt.add_length_le`: occurrences of a pattern of distinct elements do not overlap;
* `occurrences_eq`: all occurrences are the next one and those behind it;
* `occurrences_pairwise`: they are listed in increasing order;
* `occursAt_append_left_iff`: behind a prefix a pattern occurs as it does alone.
-/

namespace Occurrences

variable {α : Type*} {sub data : List α} {i j pos : ℕ}

/-- The pattern stands at a place. -/
def OccursAt (sub data : List α) (i : ℕ) : Prop := sub <+: data.drop i

instance [DecidableEq α] (sub data : List α) (i : ℕ) : Decidable (OccursAt sub data i) :=
  inferInstanceAs (Decidable (_ <+: _))

/-- An occurrence lies in the data. -/
theorem OccursAt.add_length_le_length (h : OccursAt sub data i) (hsub : sub ≠ []) :
    i + sub.length ≤ data.length := by
  have hlen := h.length_le
  have hpos := List.length_pos_of_ne_nil hsub
  rw [List.length_drop] at hlen
  omega

/-- The elements of an occurrence. -/
theorem OccursAt.getElem? (h : OccursAt sub data i) {k : ℕ} (hk : k < sub.length) :
    data[i + k]? = sub[k]? := by
  rw [← List.getElem?_drop]
  obtain ⟨rest, hrest⟩ := h
  rw [← hrest, List.getElem?_append_left hk]

/-- **No overlap.** Two occurrences of a pattern of distinct elements are apart. -/
theorem OccursAt.add_length_le (hsub : sub.Nodup) (hi : OccursAt sub data i)
    (hj : OccursAt sub data j) (hij : i < j) : i + sub.length ≤ j := by
  by_contra hlt
  have hk : j - i < sub.length := by omega
  have hzero : 0 < sub.length := by omega
  have hfirst := hj.getElem? hzero
  have hinner := hi.getElem? hk
  rw [Nat.add_sub_cancel' (Nat.le_of_lt hij)] at hinner
  rw [Nat.add_zero, hinner, List.getElem?_eq_getElem hk, List.getElem?_eq_getElem hzero,
    Option.some.injEq, hsub.getElem_inj_iff] at hfirst
  omega

/-- Behind a prefix a pattern occurs as it does alone. -/
theorem occursAt_append_left_iff (front : List α) :
    OccursAt sub (front ++ data) (front.length + i) ↔ OccursAt sub data i := by
  rw [OccursAt, List.drop_length_add_append, OccursAt]

variable [DecidableEq α]

/-- The next occurrence from a place on. -/
def find (sub data : List α) (pos : ℕ) : Option ℕ :=
  (List.range' pos (data.length - pos)).find? fun i => decide (OccursAt sub data i)

/-- All occurrences from a place on. -/
def occurrences (sub data : List α) (pos : ℕ) : List ℕ :=
  (List.range' pos (data.length - pos)).filter fun i => decide (OccursAt sub data i)

/-- The search finds every occurrence from its start on, and nothing else. -/
theorem mem_occurrences (hsub : sub ≠ []) :
    i ∈ occurrences sub data pos ↔ pos ≤ i ∧ OccursAt sub data i := by
  rw [occurrences, List.mem_filter, List.mem_range'_1, decide_eq_true_eq]
  constructor
  · rintro ⟨⟨hle, -⟩, hocc⟩
    exact ⟨hle, hocc⟩
  · rintro ⟨hle, hocc⟩
    have hend := hocc.add_length_le_length hsub
    have hpos := List.length_pos_of_ne_nil hsub
    exact ⟨⟨hle, by omega⟩, hocc⟩

/-- The occurrences are listed in increasing order. -/
theorem occurrences_pairwise (sub data : List α) (pos : ℕ) :
    (occurrences sub data pos).Pairwise (· < ·) :=
  (List.pairwise_lt_range' ..).filter _

/-- Where nothing is found there is no occurrence. -/
theorem find_eq_none (h : find sub data pos = none) : occurrences sub data pos = [] := by
  rw [occurrences, List.filter_eq_nil_iff]
  exact List.find?_eq_none.mp h

/-- **The next occurrence** and those behind it are all. -/
theorem occurrences_eq (hsub : sub.Nodup) (hne : sub ≠ []) (h : find sub data pos = some i) :
    pos ≤ i ∧ i + sub.length ≤ data.length ∧
      occurrences sub data pos = i :: occurrences sub data (i + sub.length) := by
  obtain ⟨hocc, hmem, hbefore⟩ := List.find?_range'_eq_some.mp h
  rw [decide_eq_true_eq] at hocc
  obtain ⟨hle, hlt⟩ := List.mem_range'_1.mp hmem
  have hend := hocc.add_length_le_length hne
  have hpos := List.length_pos_of_ne_nil hne
  refine ⟨hle, hend, ?_⟩
  have hskip : ∀ j ∈ List.range' pos (i - pos), decide (OccursAt sub data j) = false := by
    intro j hj
    obtain ⟨hlo, hhi⟩ := List.mem_range'_1.mp hj
    have hnot := hbefore j hlo (by omega)
    simpa using hnot
  have hover : ∀ j ∈ List.range' (i + 1) (sub.length - 1),
      decide (OccursAt sub data j) = false := by
    intro j hj
    obtain ⟨hlo, hhi⟩ := List.mem_range'_1.mp hj
    rw [decide_eq_false_iff_not]
    intro hocc'
    have hfar := hocc.add_length_le hsub hocc' (by omega)
    omega
  have hsplit : List.range' pos (data.length - pos) = List.range' pos (i - pos)
      ++ i :: (List.range' (i + 1) (sub.length - 1)
        ++ List.range' (i + sub.length) (data.length - (i + sub.length))) := by
    have hmid : List.range' (i + 1) (sub.length - 1)
        ++ List.range' (i + sub.length) (data.length - (i + sub.length)) =
        List.range' (i + 1) (data.length - (i + 1)) := by
      have hjoin := List.range'_append_1 (s := i + 1) (m := sub.length - 1)
        (n := data.length - (i + sub.length))
      rwa [show i + 1 + (sub.length - 1) = i + sub.length by omega,
        show sub.length - 1 + (data.length - (i + sub.length)) = data.length - (i + 1) by omega]
        at hjoin
    have hcons : i :: List.range' (i + 1) (data.length - (i + 1)) =
        List.range' i (data.length - i) := by
      rw [← List.range'_succ]
      congr 1
      omega
    have hall := List.range'_append_1 (s := pos) (m := i - pos) (n := data.length - i)
    rw [hmid, hcons]
    rwa [Nat.add_sub_cancel' hle, show i - pos + (data.length - i) = data.length - pos by omega,
      eq_comm] at hall
  rw [occurrences, hsplit, List.filter_append, List.filter_eq_nil_iff.mpr (by simpa using hskip),
    List.nil_append, List.filter_cons_of_pos (by simpa using hocc), List.filter_append,
    List.filter_eq_nil_iff.mpr (by simpa using hover), List.nil_append, occurrences]

end Occurrences
