import Mathlib.Data.List.Basic

/-!
# A Mailbox in Two Halves Without a Lock

A box holds the last thing posted, in two halves, and a flag that tells whether it is new. One
reader looks at the flag, copies the halves one after the other and lowers the flag, or wipes
the box in the same order. A post is atomic and may come between any two of these.

## Main results

* `run_draws`: what was received is drawn in order from stretches of the posts that do not
  overlap, a stretch for each, the second half from the same post as the first or a later one;
* `received_sublist`: with no post between the copies of the halves, it is a part of the posts;
* `last_of_full`: a raised flag outside of the reader means the box holds the last post.
-/

namespace Mailbox

variable {α β : Type*}

/-- How far the reader is. -/
inductive Reader (α β : Type*)
  | outside
  | checked
  | half (a : α)
  | whole (a : α) (b : β)
  | wipedFirst
  | wipedSecond
deriving Repr, DecidableEq

/-- The box, the reader, and what was received so far. -/
structure State (α β : Type*) where
  first : α
  second : β
  full : Bool
  reader : Reader α β
  received : List (α × β)
deriving Repr, DecidableEq

/-- A post, the begin of a receipt or of a wipe, or the next step of the reader. -/
inductive Event (α β : Type*)
  | post (a : α) (b : β)
  | receive
  | wipe (a : α)
  | next (b : β)
deriving Repr, DecidableEq

/-- One event. A reader that is busy cannot begin anew; a receipt from a box that is not full
ends at once. The next step of a wipe stores `b`. -/
def step (s : State α β) : Event α β → State α β
  | .post a b => { s with first := a, second := b, full := true }
  | .receive =>
      match s.reader with
      | .outside => if s.full then { s with reader := .checked } else s
      | _ => s
  | .wipe a =>
      match s.reader with
      | .outside => { s with first := a, reader := .wipedFirst }
      | _ => s
  | .next b =>
      match s.reader with
      | .outside => s
      | .checked => { s with reader := .half s.first }
      | .half a => { s with reader := .whole a s.second }
      | .whole a b =>
          { s with full := false, reader := .outside, received := s.received ++ [(a, b)] }
      | .wipedFirst => { s with second := b, reader := .wipedSecond }
      | .wipedSecond => { s with full := false, reader := .outside }

def run (s : State α β) (es : List (Event α β)) : State α β := es.foldl step s

/-- What is posted by some events. -/
def posts (es : List (Event α β)) : List (α × β) :=
  es.filterMap fun
    | .post a b => some (a, b)
    | _ => none

/-- Nothing was received yet, and nothing is there. -/
structure State.Idle (s : State α β) : Prop where
  full : s.full = false
  reader : s.reader = .outside
  received : s.received = []

/-- No post comes when the reader has copied one half only. -/
def Undisturbed (s : State α β) (es : List (Event α β)) : Prop :=
  ∀ before a b after, es = before ++ .post a b :: after →
    ∀ x, (run s before).reader ≠ .half x

/-- A pair is drawn from some posts: the first half from one of them, the second from the same
or a later one, and from the same in a calm. -/
def Drawn (calm : Prop) (ps : List (α × β)) (r : α × β) : Prop :=
  ∃ earlier p later, ps = earlier ++ p :: later ∧ r.1 = p.1 ∧
    ∃ q ∈ p :: later, r.2 = q.2 ∧ (calm → q = p)

/-- The posts can be cut into stretches, of which each pair is drawn from its own. -/
inductive Draws (calm : Prop) : List (α × β) → List (α × β) → Prop
  | nil (ps : List (α × β)) : Draws calm ps []
  | snoc {ps stretch rs : List (α × β)} {r : α × β} (h : Draws calm ps rs)
      (hr : Drawn calm stretch r) : Draws calm (ps ++ stretch) (rs ++ [r])

/-! ### Stretches -/

/-- What was drawn from some values was drawn from these and more. -/
theorem Drawn.append {calm : Prop} {ps : List (α × β)} {r : α × β} (h : Drawn calm ps r)
    (qs : List (α × β)) : Drawn calm (ps ++ qs) r := by
  obtain ⟨earlier, p, later, rfl, hfirst, q, hq, hsecond, hcalm⟩ := h
  refine ⟨earlier, p, later ++ qs, by rw [List.append_assoc, List.cons_append], hfirst, q, ?_,
    hsecond, hcalm⟩
  exact List.mem_append_left qs hq

/-- In a calm what is drawn is one of the posts. -/
theorem Drawn.mem {ps : List (α × β)} {r : α × β} (h : Drawn True ps r) : r ∈ ps := by
  obtain ⟨earlier, p, later, rfl, hfirst, q, -, hsecond, hcalm⟩ := h
  obtain rfl := hcalm trivial
  rw [show r = q from Prod.ext hfirst hsecond]
  exact List.mem_append_right _ List.mem_cons_self

/-- What was drawn stays so when more values come. -/
theorem Draws.append {calm : Prop} {ps rs : List (α × β)} (h : Draws calm ps rs)
    (qs : List (α × β)) : Draws calm (ps ++ qs) rs := by
  cases h with
  | nil => exact .nil _
  | snoc h hr =>
      rw [List.append_assoc]
      exact h.snoc (hr.append qs)

/-- Calm draws are a part of the values, in their order. -/
theorem Draws.sublist {ps rs : List (α × β)} (h : Draws True ps rs) : rs.Sublist ps := by
  induction h with
  | nil ps => exact List.nil_sublist ps
  | snoc _ hr ih => exact ih.append (List.singleton_sublist.mpr hr.mem)

/-! ### The invariant -/

/-- What the reader has and what the box holds, after the posts `ps` that came since the last
receipt. -/
def Fits (calm : Prop) (s : State α β) (ps : List (α × β)) : Prop :=
  match s.reader with
  | .outside => s.full = true → ps.getLast? = some (s.first, s.second)
  | .checked => ps.getLast? = some (s.first, s.second)
  | .half a => ps.getLast? = some (s.first, s.second) ∧
      ∃ earlier p later, ps = earlier ++ p :: later ∧ a = p.1 ∧ (calm → later = [])
  | .whole a b => Drawn calm ps (a, b)
  | .wipedFirst => True
  | .wipedSecond => True

/-- The posts so far: those of the receipts, and those since. -/
def Inv (calm : Prop) (s : State α β) (ps : List (α × β)) : Prop :=
  ∃ old new, ps = old ++ new ∧ Draws calm old s.received ∧ Fits calm s new

variable {calm : Prop} {s : State α β} {ps : List (α × β)}

/-- A mailbox that nothing was done with keeps the invariant. -/
theorem State.Idle.inv (h : s.Idle) : Inv calm s [] := by
  refine ⟨[], [], rfl, by rw [h.received]; exact .nil [], ?_⟩
  rw [Fits, h.reader]
  exact fun hfull => absurd (h.full.symm.trans hfull) Bool.false_ne_true

/-- A post. -/
theorem Inv.post (h : Inv calm s ps) (a : α) (b : β) (hcalm : calm → ∀ x, s.reader ≠ .half x) :
    Inv calm (step s (.post a b)) (ps ++ [(a, b)]) := by
  obtain ⟨old, new, rfl, hdraws, hfits⟩ := h
  refine ⟨old, new ++ [(a, b)], List.append_assoc .., hdraws, ?_⟩
  have hlast : (new ++ [(a, b)]).getLast? = some (a, b) := List.getLast?_concat
  rw [Fits] at hfits ⊢
  dsimp only [step]
  cases hreader : s.reader with
  | outside => exact fun _ => hlast
  | checked => exact hlast
  | half x =>
      rw [hreader] at hfits
      obtain ⟨-, earlier, p, later, rfl, hx, -⟩ := hfits
      refine ⟨hlast, earlier, p, later ++ [(a, b)], ?_, hx, fun hc => absurd hreader (hcalm hc x)⟩
      rw [List.append_assoc, List.cons_append]
  | whole x y =>
      rw [hreader] at hfits
      exact Drawn.append hfits _
  | wipedFirst => trivial
  | wipedSecond => trivial

/-- A receipt begins. -/
theorem Inv.receive (h : Inv calm s ps) : Inv calm (step s .receive) ps := by
  obtain ⟨old, new, rfl, hdraws, hfits⟩ := h
  rw [step]
  split
  · next hreader =>
      split
      · next hfull =>
          refine ⟨old, new, rfl, hdraws, ?_⟩
          rw [Fits, hreader] at hfits
          exact hfits hfull
      · exact ⟨old, new, rfl, hdraws, hfits⟩
  · exact ⟨old, new, rfl, hdraws, hfits⟩

/-- A wipe begins. -/
theorem Inv.wipe (h : Inv calm s ps) (a : α) : Inv calm (step s (.wipe a)) ps := by
  obtain ⟨old, new, rfl, hdraws, hfits⟩ := h
  rw [step]
  split
  · exact ⟨old, new, rfl, hdraws, trivial⟩
  · exact ⟨old, new, rfl, hdraws, hfits⟩

/-- The reader goes on. -/
theorem Inv.next (h : Inv calm s ps) (b : β) : Inv calm (step s (.next b)) ps := by
  obtain ⟨old, new, rfl, hdraws, hfits⟩ := h
  rw [Fits] at hfits
  rw [step]
  split
  · next hreader => exact ⟨old, new, rfl, hdraws, by rw [Fits, hreader]; rwa [hreader] at hfits⟩
  · next hreader =>
      rw [hreader] at hfits
      refine ⟨old, new, rfl, hdraws, hfits, ?_⟩
      obtain ⟨earlier, rfl⟩ := List.getLast?_eq_some_iff.mp hfits
      exact ⟨earlier, _, [], rfl, rfl, fun _ => rfl⟩
  · next a hreader =>
      rw [hreader] at hfits
      obtain ⟨hlast, earlier, p, later, rfl, ha, hcalm⟩ := hfits
      refine ⟨old, _, rfl, hdraws, earlier, p, later, rfl, ha, (s.first, s.second), ?_, rfl,
        fun hc => ?_⟩
      · rw [List.getLast?_append_of_ne_nil _ (List.cons_ne_nil p later)] at hlast
        exact List.mem_of_getLast? hlast
      · rw [hcalm hc, List.getLast?_concat] at hlast
        exact (Option.some.inj hlast).symm
  · next a c hreader =>
      rw [hreader] at hfits
      exact ⟨old ++ new, [], (List.append_nil _).symm, hdraws.snoc hfits,
        fun hfull => absurd hfull Bool.false_ne_true⟩
  · exact ⟨old, new, rfl, hdraws, trivial⟩
  · exact ⟨old, new, rfl, hdraws, fun hfull => absurd hfull Bool.false_ne_true⟩

/-- One event. -/
theorem Inv.step (h : Inv calm s ps) (e : Event α β)
    (hcalm : ∀ a b, e = .post a b → calm → ∀ x, s.reader ≠ .half x) :
    Inv calm (step s e) (ps ++ posts [e]) := by
  cases e with
  | post a b => exact h.post a b (hcalm a b rfl)
  | receive => exact (List.append_nil ps).symm ▸ h.receive
  | wipe a => exact (List.append_nil ps).symm ▸ h.wipe a
  | next b => exact (List.append_nil ps).symm ▸ h.next b

/-- Any events. -/
theorem Inv.run (h : Inv calm s ps) (es : List (Event α β)) (hcalm : calm → Undisturbed s es) :
    Inv calm (run s es) (ps ++ posts es) := by
  induction es generalizing s ps with
  | nil => exact (List.append_nil ps).symm ▸ h
  | cons e es ih =>
      have hstep := h.step e fun a b he hc => hcalm hc [] a b es (he ▸ rfl)
      have hrun := ih hstep fun hc before a b after hes =>
        hcalm hc (e :: before) a b after (hes ▸ rfl)
      rwa [List.append_assoc, posts, posts, ← List.filterMap_append] at hrun

/-! ### What is received -/

/-- Each receipt draws from a stretch of the posts of its own. -/
theorem run_draws (h : s.Idle) (es : List (Event α β)) :
    Draws False (posts es) (run s es).received := by
  obtain ⟨old, new, heq, hdraws, -⟩ := Inv.run (h.inv : Inv False s []) es False.elim
  rw [List.nil_append] at heq
  exact heq ▸ hdraws.append new

/-- With no post between the copies of the halves, posts are received whole, at most once each
and in order. -/
theorem received_sublist (h : s.Idle) {es : List (Event α β)} (hes : Undisturbed s es) :
    (run s es).received.Sublist (posts es) := by
  obtain ⟨old, new, heq, hdraws, -⟩ := Inv.run (h.inv : Inv True s []) es fun _ => hes
  rw [List.nil_append] at heq
  exact heq ▸ (hdraws.append new).sublist

/-- What a receipt will find. -/
theorem last_of_full (h : s.Idle) {es : List (Event α β)}
    (hreader : (run s es).reader = .outside) (hfull : (run s es).full = true) :
    (posts es).getLast? = some ((run s es).first, (run s es).second) := by
  obtain ⟨old, new, heq, -, hfits⟩ := Inv.run (h.inv : Inv False s []) es False.elim
  rw [List.nil_append] at heq
  rw [Fits, hreader] at hfits
  rw [heq, List.getLast?_append, hfits hfull]
  rfl

end Mailbox
