import Mathlib.Data.List.Pairwise
import Mathlib.Data.Nat.Basic
import Mathlib.Tactic.Common

/-!
# Half-Open Spans of Addresses

A `Span` is the set `[base, base + length)` of natural numbers. Descriptor tables are
lists of spans that carry data, so this module develops, over arbitrary carriers,

* the pointwise reading of spans (`Span.Mem`) and its decidable counterpart on the
  bounds (`Span.Disjoint`, `Span.Subset`);
* the **last writer**: `lastCovering f l x` is the last entry of `l` whose span covers
  `x`, the meaning of a table in which a later entry overwrites an earlier one;
* the **finite cover test**: a span lies inside a finite union of spans exactly when
  its first address does and every end of a member span that falls inside it does
  (`Span.covered_iff`), so that a statement about every address is decided by finitely
  many of them.
-/

/-- The half-open span `[base, base + length)`. -/
structure Span where
  base : ℕ
  length : ℕ
deriving Repr, DecidableEq

namespace Span

/-- One past the last address of the span. -/
def stop (s : Span) : ℕ := s.base + s.length

/-- The address `x` lies in the span. -/
def Mem (s : Span) (x : ℕ) : Prop := s.base ≤ x ∧ x < s.stop

instance (s : Span) (x : ℕ) : Decidable (s.Mem x) :=
  inferInstanceAs (Decidable (_ ∧ _))

/-- No address lies in both spans, read off the bounds. An empty span is disjoint from
every span. -/
def Disjoint (s t : Span) : Prop :=
  s.stop ≤ t.base ∨ t.stop ≤ s.base ∨ s.length = 0 ∨ t.length = 0

instance (s t : Span) : Decidable (s.Disjoint t) :=
  inferInstanceAs (Decidable (_ ∨ _))

/-- The first span lies inside the second, read off the bounds. -/
def Subset (s t : Span) : Prop := t.base ≤ s.base ∧ s.stop ≤ t.stop

instance (s t : Span) : Decidable (s.Subset t) :=
  inferInstanceAs (Decidable (_ ∧ _))

/-- The bounds test decides pointwise disjointness. -/
theorem disjoint_iff {s t : Span} : s.Disjoint t ↔ ∀ x, s.Mem x → ¬ t.Mem x := by
  constructor
  · rintro h x ⟨hsx, hxs⟩ ⟨htx, hxt⟩
    simp only [Disjoint, stop] at *
    omega
  · intro h
    by_contra hd
    simp only [Disjoint, stop] at hd
    -- the larger of the two bases is a common address of overlapping spans
    refine h (max s.base t.base) ⟨le_max_left _ _, ?_⟩ ⟨le_max_right _ _, ?_⟩
    · rw [stop]
      omega
    · rw [stop]
      omega

/-- Disjoint spans have no common address. -/
theorem Disjoint.not_mem {s t : Span} (h : s.Disjoint t) {x : ℕ} (hx : s.Mem x) :
    ¬ t.Mem x :=
  disjoint_iff.mp h x hx

/-- The order of two spans does not matter. -/
theorem Disjoint.symm {s t : Span} (h : s.Disjoint t) : t.Disjoint s := by
  rw [Disjoint] at *
  omega

instance : Std.Symm Disjoint := ⟨fun _ _ h => h.symm⟩

/-- A subspan only holds addresses of the larger span. -/
theorem Subset.mem {s t : Span} (h : s.Subset t) {x : ℕ} (hx : s.Mem x) : t.Mem x :=
  ⟨le_trans h.1 hx.1, lt_of_lt_of_le hx.2 h.2⟩

/-! ### The finite cover test -/

/-- Some span of the list holds `x`. -/
def Covers (l : List Span) (x : ℕ) : Prop := ∃ t ∈ l, t.Mem x

instance (l : List Span) (x : ℕ) : Decidable (Covers l x) :=
  inferInstanceAs (Decidable (∃ t ∈ l, t.Mem x))

/-- The addresses that decide whether `s` lies inside the union of `l`: the first
address of `s` and every end of a span of `l` that falls inside `s`. -/
def probes (s : Span) (l : List Span) : List ℕ :=
  (s.base :: l.map stop).filter fun x => decide (s.Mem x)

/-- From any address of `s` that the union misses, the nearest probe at or below it is
missed as well: no span of `l` can end between the two. -/
theorem exists_probe_not_covers {s : Span} {l : List Span} {x : ℕ} (hx : s.Mem x)
    (hmiss : ¬ Covers l x) : ∃ p ∈ probes s l, ¬ Covers l p := by
  induction x using Nat.strong_induction_on with
  | _ x ih =>
      by_cases hb : x = s.base
      · subst hb
        exact ⟨s.base, by simp [probes, hx], hmiss⟩
      by_cases hprev : Covers l (x - 1)
      · -- a span holding `x - 1` but not `x` ends at `x`, so `x` is itself a probe
        obtain ⟨t, htl, ht⟩ := hprev
        have hstop : t.stop = x := by
          have hnot : ¬ t.Mem x := fun h => hmiss ⟨t, htl, h⟩
          rw [Mem] at ht hnot hx
          omega
        have hmem : x ∈ s.base :: l.map stop := by
          rw [← hstop]
          exact List.mem_cons_of_mem _ (List.mem_map_of_mem htl)
        exact ⟨x, by simpa [probes, hx] using hmem, hmiss⟩
      · have hx' : s.Mem (x - 1) := by
          rw [Mem] at *
          omega
        have hpos : 0 < x := by
          rw [Mem] at hx
          omega
        exact ih (x - 1) (by omega) hx' hprev

/-- **The finite cover test.** A span lies inside the union of a finite list of spans
exactly when each of its probes does. -/
theorem covered_iff {s : Span} {l : List Span} :
    (∀ x, s.Mem x → Covers l x) ↔ ∀ p ∈ probes s l, Covers l p := by
  constructor
  · intro h p hp
    have hmem : s.Mem p := by
      have := (List.mem_filter.mp hp).2
      simpa using this
    exact h p hmem
  · intro h x hx
    by_contra hmiss
    obtain ⟨p, hp, hnot⟩ := exists_probe_not_covers hx hmiss
    exact hnot (h p hp)

/-! ### The last writer -/

variable {α : Type*}

/-- The last entry of the list whose span holds `x`. -/
def lastCovering (f : α → Span) (l : List α) (x : ℕ) : Option α :=
  l.reverse.find? fun a => decide ((f a).Mem x)

/-- The last writer after appending a list is the appended list's own last writer,
where it has one. -/
theorem lastCovering_append (f : α → Span) (l m : List α) (x : ℕ) :
    lastCovering f (l ++ m) x = (lastCovering f m x).or (lastCovering f l x) := by
  simp [lastCovering, List.find?_append]

/-- Appending one entry overwrites exactly its own span. -/
theorem lastCovering_concat (f : α → Span) (l : List α) (a : α) (x : ℕ) :
    lastCovering f (l ++ [a]) x = if (f a).Mem x then some a else lastCovering f l x := by
  rw [lastCovering_append]
  by_cases h : (f a).Mem x <;> simp [lastCovering, h]

/-- The last entry of the list whose span meets `s`. -/
def lastMeeting (f : α → Span) (l : List α) (s : Span) : Option α :=
  l.reverse.find? fun a => decide (¬ s.Disjoint (f a))

/-- An entry that is the last one to meet its own span is the last writer at every
address of that span, so one comparison of bounds settles them all. -/
theorem lastCovering_of_lastMeeting {f : α → Span} {l : List α} {a : α}
    (h : lastMeeting f l (f a) = some a) {x : ℕ} (hx : (f a).Mem x) :
    lastCovering f l x = some a := by
  obtain ⟨-, later, earlier, hl, hlater⟩ := List.find?_eq_some_iff_append.mp h
  refine List.find?_eq_some_iff_append.mpr ⟨by simpa using hx, later, earlier, hl, ?_⟩
  intro b hb
  have hdisj : (f a).Disjoint (f b) := by simpa using hlater b hb
  simpa using hdisj.not_mem hx

end Span
