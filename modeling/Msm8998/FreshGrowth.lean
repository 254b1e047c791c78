import Mathlib.Data.Set.Insert

/-!
# Growth by What Is Not There Yet

A collection is kept up to a likeness: two elements that are alike count as one entry. Some of
its elements last and others come and go. This module follows collections from which nothing
that lasts is taken, and to which nothing that lasts is added when its like is there.

## Main results

* `FreshGrowth.trans`: such changes compose;
* `FreshGrowth.frozen`: the copies of what is there are never more, and never others;
* `FreshInsert.atMostOne`: one copy stays one copy.
-/

variable {α : Type*}

/-- From `s` to `t` nothing that lasts is lost, and what is new and lasts has no like in `s`. -/
structure FreshGrowth (like : α → α → Prop) (lasting : α → Prop) (s t : Set α) : Prop where
  keeps : ∀ a ∈ s, lasting a → a ∈ t
  fresh : ∀ a ∈ t, lasting a → a ∈ s ∨ ∀ b ∈ s, ¬ like b a

/-- At most one element comes in, which has no like yet. -/
def FreshInsert (like : α → α → Prop) (s t : Set α) : Prop :=
  t = s ∨ ∃ a, (∀ b ∈ s, ¬ like b a) ∧ t = insert a s

/-- All the likes of `a` in `s` are one. -/
def AtMostOne (like : α → α → Prop) (s : Set α) (a : α) : Prop :=
  ∀ x ∈ s, ∀ y ∈ s, like x a → like y a → x = y

variable {like : α → α → Prop} {lasting : α → Prop} {s t u : Set α} {a b : α}

namespace FreshGrowth

/-- A set grows to itself. -/
theorem refl (s : Set α) : FreshGrowth like lasting s s :=
  ⟨fun _ h _ => h, fun _ h _ => Or.inl h⟩

/-- What does not last may come and go. -/
theorem of_iff (h : ∀ a, lasting a → (a ∈ t ↔ a ∈ s)) : FreshGrowth like lasting s t :=
  ⟨fun a ha hl => (h a hl).mpr ha, fun a ha hl => Or.inl ((h a hl).mp ha)⟩

/-- An element that has no like in `s` may be added to `t`. -/
theorem insert (h : FreshGrowth like lasting s t) (hnew : ∀ b ∈ s, ¬ like b a) :
    FreshGrowth like lasting s (insert a t) := by
  refine ⟨fun x hx hl => Set.mem_insert_of_mem a (h.keeps x hx hl), fun x hx hl => ?_⟩
  rcases Set.mem_insert_iff.mp hx with rfl | hmem
  · exact Or.inr hnew
  · exact h.fresh x hmem hl

/-- Growth follows growth. -/
theorem trans (hlasting : ∀ a b, like b a → lasting a → lasting b)
    (h : FreshGrowth like lasting s t) (h' : FreshGrowth like lasting t u) :
    FreshGrowth like lasting s u := by
  refine ⟨fun a ha hl => h'.keeps a (h.keeps a ha hl) hl, fun a ha hl => ?_⟩
  rcases h'.fresh a ha hl with hmem | hnone
  · exact h.fresh a hmem hl
  · exact Or.inr fun b hb hlike => hnone b (h.keeps b hb (hlasting a b hlike hl)) hlike

/-- What is there already never gets another copy. -/
theorem frozen (hlike : Equivalence like) (h : FreshGrowth like lasting s t) (hb : b ∈ s)
    (hba : like b a) : ∀ x ∈ t, lasting x → like x a → x ∈ s := by
  intro x hx hl hxa
  rcases h.fresh x hx hl with hmem | hnone
  · exact hmem
  · exact absurd (hlike.trans hba (hlike.symm hxa)) (hnone b hb)

end FreshGrowth

namespace AtMostOne

/-- One element may come in that has no like yet. -/
theorem insert (hlike : Equivalence like) (h : AtMostOne like s a)
    (hnew : ∀ x ∈ s, ¬ like x b) : AtMostOne like (insert b s) a := by
  intro x hx y hy hxa hya
  rcases Set.mem_insert_iff.mp hx with rfl | hxs <;> rcases Set.mem_insert_iff.mp hy with rfl | hys
  · rfl
  · exact absurd (hlike.trans hya (hlike.symm hxa)) (hnew y hys)
  · exact absurd (hlike.trans hxa (hlike.symm hya)) (hnew x hxs)
  · exact h x hxs y hys hxa hya

/-- A set that has nothing more of a kind has at most one of it, too. -/
theorem mono (h : AtMostOne like s a) (ht : ∀ x ∈ t, like x a → x ∈ s) : AtMostOne like t a :=
  fun x hx y hy hxa hya => h x (ht x hx hxa) y (ht y hy hya) hxa hya

end AtMostOne

namespace FreshInsert

/-- An insertion is a growth. -/
theorem grows (h : FreshInsert like s t) : FreshGrowth like lasting s t := by
  rcases h with rfl | ⟨a, hnew, rfl⟩
  · exact .refl _
  · exact (FreshGrowth.refl s).insert hnew

/-- After an insertion there is still at most one of a kind. -/
theorem atMostOne (hlike : Equivalence like) (h : FreshInsert like s t)
    (hs : AtMostOne like s a) : AtMostOne like t a := by
  rcases h with rfl | ⟨b, hnew, rfl⟩
  · exact hs
  · exact hs.insert hlike hnew

end FreshInsert
