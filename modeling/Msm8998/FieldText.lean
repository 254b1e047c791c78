import Mathlib.Data.List.TakeWhile

/-!
# Texts in Fields

A field of fixed size holds a text and, if there is room, a delimiter behind it; what is left is
filled with the delimiter. A text that is too long for one field goes on in a second one.

## Main results

* `text_field`: a text that fits is read back from its field;
* `text_split`: a text that is split over two fields is read back by joining what they hold.
-/

namespace FieldText

variable {α : Type} [DecidableEq α] {d : α} {s : List α}

/-- A field of a given size: what is too long is cut, what is left is filled. -/
def field (d : α) (n : ℕ) (xs : List α) : List α := (xs ++ List.replicate n d).take n

/-- The text in a field, up to the first delimiter. -/
def text (d : α) (xs : List α) : List α := xs.takeWhile fun x => x ≠ d

/-- The text of a field ends at the delimiter. -/
theorem text_append (hs : d ∉ s) (t : List α) : text d (s ++ d :: t) = s := by
  have hall : ∀ x ∈ s, decide (x ≠ d) = true := fun x hx =>
    decide_eq_true fun heq => hs (heq ▸ hx)
  rw [text, List.takeWhile_append_of_pos hall, List.takeWhile_cons_of_neg (by simp),
    List.append_nil]

/-- Without a delimiter all of it is the text. -/
theorem text_eq_self (hs : d ∉ s) : text d s = s :=
  List.takeWhile_eq_self_iff.mpr fun _ hx => decide_eq_true fun heq => hs (heq ▸ hx)

/-- **A text that fits** is read back from its field, also when it leaves no room for the
delimiter. -/
theorem text_field {n : ℕ} (hs : d ∉ s) (hn : s.length ≤ n) (t : List α) :
    text d (field d n (s ++ d :: t)) = s := by
  rw [field, List.append_assoc, List.take_append, List.take_of_length_le hn]
  rcases Nat.lt_or_eq_of_le hn with hlt | rfl
  · obtain ⟨k, hk⟩ := Nat.exists_eq_add_of_lt hlt
    have hroom : n - s.length = k + 1 := by omega
    rw [hroom, List.cons_append, List.take_succ_cons]
    exact text_append hs _
  · rw [Nat.sub_self, List.take_zero, List.append_nil, text_eq_self hs]

/-- An empty field has an empty text. -/
theorem text_field_nil (n : ℕ) : text d (field d n []) = [] := by
  rw [field, List.nil_append, List.take_replicate, Nat.min_self]
  cases n with
  | zero => rfl
  | succ n => exact List.takeWhile_cons_of_neg (by simp)

/-- **A text that is split** over two fields, with delimiters of its own in each, is read back by
joining the texts in the fields. -/
theorem text_split {m n : ℕ} (hs : d ∉ s) (h : s.length ≤ m + n) :
    text d (field d (m + 1) ((s ++ [d]).take m ++ [d])) ++ text d (field d n ((s ++ [d]).drop m)) =
      s := by
  rcases Nat.le_or_ge s.length m with hfits | hlong
  · -- The first field has the whole text, the second one at most its delimiter.
    have hfirst : ∃ t, (s ++ [d]).take m ++ [d] = s ++ d :: t := by
      rw [List.take_append, List.take_of_length_le hfits]
      cases m - s.length with
      | zero => exact ⟨[], by rw [List.take_zero, List.append_nil]⟩
      | succ k => exact ⟨[d], by rw [List.take_succ_cons, List.take_nil, List.append_assoc]; rfl⟩
    have hsecond : text d (field d n ((s ++ [d]).drop m)) = [] := by
      rw [List.drop_append, List.drop_of_length_le hfits, List.nil_append]
      cases m - s.length with
      | zero => exact text_field List.not_mem_nil (Nat.zero_le n) []
      | succ k => rw [List.drop_succ_cons, List.drop_nil, text_field_nil]
    obtain ⟨t, ht⟩ := hfirst
    rw [ht, hsecond, text_field hs (by omega), List.append_nil]
  · rw [List.take_append_of_le_length hlong, List.drop_append_of_le_length hlong]
    have htake : (s.take m).length ≤ m + 1 := by
      rw [List.length_take]
      omega
    have hdrop : (s.drop m).length ≤ n := by
      rw [List.length_drop]
      omega
    rw [text_field (fun hd => hs (List.mem_of_mem_take hd)) htake,
      text_field (fun hd => hs (List.mem_of_mem_drop hd)) hdrop, List.take_append_drop]

end FieldText
