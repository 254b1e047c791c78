import Mathlib.Algebra.Group.Nat.Defs
import Mathlib.Data.List.Basic

/-!
# Bounded Queues that Give Up Their Oldest Element

What a first-in first-out queue is for, told by the log of what happened to it. A queue at its
bound makes room for a new element by giving up the oldest. An element leaves at the front, for
one of four reasons: a reader got it, it was skipped, a reset forgot it, or it was displaced.

## Main results

* `Run.conserves`: what was there and what was accepted is what left and what is there, in
  this order;
* `Run.delivered_sublist`: readers get elements in the order of their arrival, each once;
* `Run.fate`: an accepted element is delivered, still there, or gone for a stated reason.
-/

/-- The bound of a queue, what a reader that gets an element may be shown, and which elements
may be skipped. -/
structure BoundedQueue (α ρ : Type) where
  bound : ℕ
  Shows : α → ρ → Prop
  Skippable : α → Prop

namespace BoundedQueue

variable {α ρ : Type}

/-- What can happen to a queue. An arrival and a reset note what was waiting before. -/
inductive Happening (α ρ : Type)
  | accepted (a : α) (before : List α)
  | delivered (a : α) (shown : ρ)
  | skipped (a : α)
  | reset (before : List α)

variable (Q : BoundedQueue α ρ)

/-- One thing that happens to the waiting elements. -/
inductive Step : List α → Happening α ρ → List α → Prop
  | accept {l : List α} {a : α} : l.length < Q.bound → Step l (.accepted a l) (l ++ [a])
  | displace {l : List α} {a b : α} : (b :: l).length = Q.bound →
      Step (b :: l) (.accepted a (b :: l)) (l ++ [a])
  | deliver {l : List α} {a : α} {r : ρ} : Q.Shows a r → Step (a :: l) (.delivered a r) l
  | skip {l : List α} {a : α} : Q.Skippable a → Step (a :: l) (.skipped a) l
  | reset {l : List α} : Step l (.reset l) []

/-- A log of things that happen to the waiting elements. -/
inductive Run : List α → List (Happening α ρ) → List α → Prop
  | nil (l : List α) : Run l [] l
  | cons {l m k : List α} {e : Happening α ρ} {h : List (Happening α ρ)} :
      Step Q l e m → Run m h k → Run l (e :: h) k

/-! ### Reading a log -/

/-- The element that a happening accepts. -/
def Happening.accepted? : Happening α ρ → Option α
  | .accepted a _ => some a
  | _ => none

/-- The element that a happening delivers. -/
def Happening.delivered? : Happening α ρ → Option α
  | .delivered a _ => some a
  | _ => none

/-- The elements that leave the queue. -/
def Happening.removed : Happening α ρ → List α
  | .accepted _ before => if before.length = Q.bound then before.take 1 else []
  | .delivered a _ => [a]
  | .skipped a => [a]
  | .reset before => before

/-- The accepted elements, in the order of their arrival. -/
def accepted (h : List (Happening α ρ)) : List α := h.filterMap Happening.accepted?

/-- The delivered elements, in the order of their delivery. -/
def delivered (h : List (Happening α ρ)) : List α := h.filterMap Happening.delivered?

/-- The elements that left, in the order in which they did. -/
def removed (h : List (Happening α ρ)) : List α := h.flatMap (Happening.removed Q)

variable {Q} {l m k : List α} {e : Happening α ρ} {g h : List (Happening α ρ)} {a : α} {r : ρ}

/-! ### Runs -/

/-- One happening is a run. -/
theorem Step.run (hs : Step Q l e m) : Run Q l [e] m := .cons hs (.nil m)

/-- Runs behind each other are a run. -/
theorem Run.append (hg : Run Q l g m) (hh : Run Q m h k) : Run Q l (g ++ h) k := by
  induction hg with
  | nil => exact hh
  | cons hs _ ih => exact .cons hs (ih hh)

/-- Elements skipped one after the other from the front. -/
theorem run_skips (hskip : ∀ a ∈ l, Q.Skippable a) (m : List α) :
    Run Q (l ++ m) (l.map .skipped) m := by
  induction l with
  | nil => exact .nil m
  | cons a l ih =>
    have ⟨ha, hl⟩ := List.forall_mem_cons.mp hskip
    exact .cons (.skip ha) (ih hl)

/-! ### Conservation -/

/-- In one step what was there and is accepted is what is removed and is left. -/
theorem Step.conserves (hs : Step Q l e m) :
    l ++ e.accepted?.toList = e.removed Q ++ m := by
  cases hs with
  | accept hlt => simp [Happening.accepted?, Happening.removed, Nat.ne_of_lt hlt]
  | displace hfull => simp [Happening.accepted?, Happening.removed, ← hfull]
  | deliver _ => simp [Happening.accepted?, Happening.removed]
  | skip _ => simp [Happening.accepted?, Happening.removed]
  | reset => simp [Happening.accepted?, Happening.removed]

/-- **Conservation**: what was waiting and what was accepted since is what left and what waits
now, in this order. -/
theorem Run.conserves (hr : Run Q l h m) : l ++ accepted h = removed Q h ++ m := by
  induction hr with
  | nil => simp [accepted, removed]
  | @cons l m k e h hs _ ih =>
    have hacc : accepted (e :: h) = e.accepted?.toList ++ accepted h := by
      cases he : e.accepted? <;> simp [accepted, he]
    have hrem : removed Q (e :: h) = e.removed Q ++ removed Q h := List.flatMap_cons
    calc l ++ accepted (e :: h)
        = (l ++ e.accepted?.toList) ++ accepted h := by rw [hacc, List.append_assoc]
      _ = e.removed Q ++ (m ++ accepted h) := by rw [hs.conserves, List.append_assoc]
      _ = removed Q (e :: h) ++ k := by rw [ih, hrem, List.append_assoc]

/-- What is delivered was removed, in this order. -/
theorem delivered_sublist_removed (Q : BoundedQueue α ρ) (h : List (Happening α ρ)) :
    (delivered h).Sublist (removed Q h) := by
  induction h with
  | nil => exact List.Sublist.slnil
  | cons e h ih =>
    cases e with
    | delivered a r => exact ih.cons_cons a
    | accepted a before => exact ih.trans (List.sublist_append_right _ _)
    | skipped a => exact ih.trans (List.sublist_append_right _ _)
    | reset before => exact ih.trans (List.sublist_append_right _ _)

/-- **Order**: what readers got is a subsequence of what was accepted. -/
theorem Run.delivered_sublist (hr : Run Q [] h m) : (delivered h).Sublist (accepted h) := by
  have hcons := hr.conserves
  rw [List.nil_append] at hcons
  rw [hcons]
  exact (delivered_sublist_removed Q h).trans (List.sublist_append_left _ _)

/-! ### What happened to an element -/

/-- A delivered element was shown as the queue shows it. -/
theorem Run.shows (hr : Run Q l h m) (hmem : .delivered a r ∈ h) : Q.Shows a r := by
  induction hr with
  | nil => cases hmem
  | cons hs _ ih =>
    rcases List.mem_cons.mp hmem with rfl | hmem
    · cases hs with
      | deliver hshow => exact hshow
    · exact ih hmem

/-- What is skipped may be skipped. -/
theorem Run.skippable (hr : Run Q l h m) (hmem : .skipped a ∈ h) : Q.Skippable a := by
  induction hr with
  | nil => cases hmem
  | cons hs _ ih =>
    rcases List.mem_cons.mp hmem with rfl | hmem
    · cases hs with
      | skip hskip => exact hskip
    · exact ih hmem

/-- Why an element is no longer in the queue. -/
theorem mem_removed (hmem : a ∈ removed Q h) :
    a ∈ delivered h ∨ .skipped a ∈ h ∨ (∃ before, .reset before ∈ h ∧ a ∈ before) ∨
      ∃ b before, .accepted b before ∈ h ∧ before.length = Q.bound ∧ before.head? = some a := by
  obtain ⟨e, he, ha⟩ := List.mem_flatMap.mp hmem
  cases e with
  | accepted b before =>
    refine .inr (.inr (.inr ⟨b, before, he, ?_⟩))
    simp only [Happening.removed] at ha
    split at ha
    · rename_i hfull
      cases before with
      | nil => cases ha
      | cons c before => exact ⟨hfull, by rw [List.mem_singleton.mp ha]; rfl⟩
    · cases ha
  | delivered b r =>
    rw [List.mem_singleton.mp ha]
    exact .inl (List.mem_filterMap.mpr ⟨_, he, rfl⟩)
  | skipped b =>
    rw [List.mem_singleton.mp ha]
    exact .inr (.inl he)
  | reset before => exact .inr (.inr (.inl ⟨before, he, ha⟩))

/-- **Fate**: an accepted element was delivered, waits, was skipped as it may be, was forgotten
by a reset, or was the oldest of a queue at its bound when another arrived. -/
theorem Run.fate (hr : Run Q [] h m) (hmem : a ∈ accepted h) :
    a ∈ delivered h ∨ a ∈ m ∨ (.skipped a ∈ h ∧ Q.Skippable a) ∨
      (∃ before, .reset before ∈ h ∧ a ∈ before) ∨
      ∃ b before, .accepted b before ∈ h ∧ before.length = Q.bound ∧ before.head? = some a := by
  have hcons := hr.conserves
  rw [List.nil_append] at hcons
  rw [hcons] at hmem
  rcases List.mem_append.mp hmem with hrem | hm
  · rcases mem_removed hrem with hd | hs | hreset | hfull
    · exact .inl hd
    · exact .inr (.inr (.inl ⟨hs, hr.skippable hs⟩))
    · exact .inr (.inr (.inr (.inl hreset)))
    · exact .inr (.inr (.inr (.inr hfull)))
  · exact .inr (.inl hm)

end BoundedQueue
