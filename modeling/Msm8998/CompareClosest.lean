import Msm8998.CompareVerdict

/-!
# The Closest Match

Among several candidates `compare-dtb.py` names the first with the fewest meaningful changes.
The properties that a candidate is missing are printed with it and are not weighed, so a later
candidate with as many changes can be better.

The two numbers are those of two files: `changesOf` and `missingFrom` say what they count, on
the properties of the files.

## Main results

* `Candidate.comparison_eq`: what a run counts is what the two numbers say.
* `closest_undominated_iff`: which candidate is named, with which numbers, and when no other one
  is at least as good in both numbers and better in one.
-/

open Fallible OrderedDict FirstMinimum

namespace Msm8998

namespace Fdt

/-! ### The two numbers -/

/-- The keys under which both files have a value, but not the same, phandles apart. -/
def changesOf (rs rs' : List Record) : Finset Str :=
  (rs.map Record.key).toFinset.filter fun key =>
    isNoise key = false ∧ lastValue key rs' ≠ none ∧ lastValue key rs ≠ lastValue key rs'

/-- The keys that the other file does not have. -/
def missingFrom (rs rs' : List Record) : Finset Str :=
  (rs.map Record.key).toFinset.filter fun key => lastValue key rs' = none

/-- A candidate that can be read: its path, its contents, and the properties in them. -/
structure Candidate where
  path : Str
  data : Bytes
  records : List Record
  readable : ∃ header toks, Reads data header toks records

/-- What the command line finds. -/
def Candidate.file (x : Candidate) : Str × Bytes := (x.path, x.data)

section

variable (rs : List Record)

/-- The number of meaningful changes. -/
def Candidate.changes (x : Candidate) : ℕ := (changesOf rs x.records).card

/-- The number of missing properties. -/
def Candidate.missing (x : Candidate) : ℕ := (missingFrom rs x.records).card

/-- At least as good in both numbers, and better in one of them. -/
def Dominates (y x : Candidate) : Prop :=
  y.changes rs ≤ x.changes rs ∧ y.missing rs ≤ x.missing rs ∧
    (y.changes rs < x.changes rs ∨ y.missing rs < x.missing rs)

/-- The candidate that is named is dominated by none, and the numbers named with it are its
own. -/
def NamesUndominated (candidates : List Candidate) (report : CompareReport) : Prop :=
  ∀ best, report.closest = some best → ∃ x ∈ candidates,
    best = ⟨x.path, x.changes rs, x.missing rs⟩ ∧ ∀ y ∈ candidates, ¬ Dominates rs y x

/-- The candidate with the fewest changes, the first of these, with what is before it and behind
it. -/
structure FirstFewest (candidates before : List Candidate) (x : Candidate)
    (after : List Candidate) : Prop where
  split : candidates = before ++ x :: after
  before : ∀ y ∈ before, x.changes rs < y.changes rs
  after : ∀ y ∈ after, x.changes rs ≤ y.changes rs

/-- No later candidate has as many changes and is missing fewer properties. -/
def NoBetterTie (candidates : List Candidate) : Prop :=
  ∀ before x after, FirstFewest rs candidates before x after →
    ∀ y ∈ after, y.changes rs = x.changes rs → x.missing rs ≤ y.missing rs

/-! ### What a run counts -/

/-- What a run says of a candidate. -/
def Candidate.comparison (x : Candidate) : Comparison :=
  compareTrees (describeRecords rs) x.path (describeRecords x.records)

variable {rs} {reference : Bytes} {header : Header} {toks : List Token}

/-- A file has a value under the keys of its properties. -/
theorem mem_keys_iff {key : Str} :
    key ∈ (rs.map Record.key).toFinset ↔ ∃ v, lastValue key rs = some v := by
  rw [← Option.isSome_iff_exists, lastValue, Option.isSome_map, lastRecord, lastWith?_isSome,
    List.any_eq_true, List.mem_toFinset, List.mem_map]
  simp only [decide_eq_true_eq]

/-- **The sets of a run** are those that the numbers count. -/
theorem Candidate.comparison_eq (x : Candidate) :
    (x.comparison rs).meaningful = changesOf rs x.records ∧
      (x.comparison rs).onlyRef = missingFrom rs x.records := by
  refine ⟨Finset.ext fun key => ?_, Finset.ext fun key => ?_⟩
  · rw [comparison, mem_meaningful, changesOf, Finset.mem_filter, mem_keys_iff]
    constructor
    · rintro ⟨⟨v, w, hv, hw, hne⟩, hnoise⟩
      rw [hv, hw]
      exact ⟨⟨v, rfl⟩, hnoise, nofun, fun h => hne (Option.some.inj h)⟩
    · rintro ⟨⟨v, hv⟩, hnoise, hsome, hne⟩
      obtain ⟨w, hw⟩ := Option.ne_none_iff_exists'.mp hsome
      rw [hv, hw] at hne
      exact ⟨⟨v, w, hv, hw, fun h => hne (congrArg some h)⟩, hnoise⟩
  · rw [comparison, mem_onlyRef, missingFrom, Finset.mem_filter, mem_keys_iff]

/-- What is kept of a candidate that is closest so far. -/
theorem Candidate.toBest_comparison (x : Candidate) :
    (x.comparison rs).toBest = ⟨x.path, x.changes rs, x.missing rs⟩ := by
  obtain ⟨hmeaningful, honlyRef⟩ := @Candidate.comparison_eq rs x
  rw [Comparison.toBest, hmeaningful, honlyRef]
  rfl

/-- Comparing the candidates one after the other. -/
theorem mapM_comparison (candidates : List Candidate) :
    (candidates.map Candidate.file).mapM (compareCandidate (describeRecords rs)) =
      .ok (candidates.map (Candidate.comparison rs)) := by
  induction candidates with
  | nil => rfl
  | cons x candidates ih =>
      obtain ⟨header, toks, hreads⟩ := x.readable
      have hx : compareCandidate (describeRecords rs) x.file = .ok (x.comparison rs) :=
        (compareCandidate_eq_ok_iff hreads).mpr rfl
      rw [List.map_cons, List.mapM_cons, hx, ok_bind, ih]
      rfl

/-- A run on candidates that can be read. -/
theorem compareMain_candidates (href : Reads reference header toks rs)
    (candidates : List Candidate) :
    compareMain reference (candidates.map Candidate.file) =
      .ok ⟨describeRecords rs, candidates.map (Candidate.comparison rs),
        if 1 < candidates.length then
          ((candidates.map (Candidate.comparison rs)).argmin fun c => c.meaningful.card).map
            Comparison.toBest
        else none⟩ :=
  compareMain_eq_ok_iff.mpr ⟨(describe_eq_ok_iff href).mpr rfl, mapM_comparison candidates, by
    rw [List.length_map]⟩

/-- The candidate that a run on several names. -/
theorem exists_named {candidates : List Candidate} (hmany : 1 < candidates.length) :
    ∃ before x after, FirstFewest rs candidates before x after ∧
      ((candidates.map (Candidate.comparison rs)).argmin fun c => c.meaningful.card).map
        Comparison.toBest = some ⟨x.path, x.changes rs, x.missing rs⟩ := by
  cases hmin : (candidates.map (Candidate.comparison rs)).argmin fun c => c.meaningful.card with
  | none =>
      rw [List.argmin_eq_none, List.map_eq_nil_iff] at hmin
      rw [hmin] at hmany
      exact absurd hmany (by simp)
  | some c =>
      obtain ⟨before, after, hsplit, hbefore, hafter⟩ := split_of_argmin_eq_some hmin
      obtain ⟨before', rest, rfl, rfl, hrest⟩ := List.map_eq_append_iff.mp hsplit
      obtain ⟨x, after', rfl, rfl, rfl⟩ := List.map_eq_cons_iff.mp hrest
      simp only [List.forall_mem_map, (Candidate.comparison_eq _).1] at hbefore hafter
      exact ⟨before', x, after', ⟨rfl, hbefore, hafter⟩, congrArg some x.toBest_comparison⟩

/-! ### When it is dominated -/

/-- Only a later candidate with as many changes can be better than the first that has the
fewest. -/
theorem FirstFewest.undominated_iff {candidates before after : List Candidate} {x : Candidate}
    (h : FirstFewest rs candidates before x after) :
    (∀ y ∈ candidates, ¬ Dominates rs y x) ↔
      ∀ y ∈ after, y.changes rs = x.changes rs → x.missing rs ≤ y.missing rs := by
  rw [h.split]
  constructor
  · intro hnone y hy htie
    by_contra hlt
    have hlt' := Nat.not_le.mp hlt
    exact hnone y (by simp [hy]) ⟨htie.le, hlt'.le, .inr hlt'⟩
  · rintro htie y hy ⟨hchanges, hmissing, hstrict⟩
    rcases List.mem_append.mp hy with hy | hy
    · exact absurd hchanges (Nat.not_le.mpr (h.before y hy))
    rcases List.mem_cons.mp hy with rfl | hy
    · omega
    · have hge := h.after y hy
      have hle := htie y hy (by omega)
      omega

/-- There is one first candidate with the fewest changes. -/
theorem noBetterTie_iff {candidates before after : List Candidate} {x : Candidate}
    (h : FirstFewest rs candidates before x after) :
    NoBetterTie rs candidates ↔
      ∀ y ∈ after, y.changes rs = x.changes rs → x.missing rs ≤ y.missing rs := by
  refine ⟨fun htie => htie before x after h, fun htie before' x' after' h' => ?_⟩
  obtain ⟨rfl, rfl, rfl⟩ := split_unique (f := Candidate.changes rs) (h.split.symm.trans h'.split)
    h.before h.after h'.before h'.after
  exact htie

/-- Candidates with the same numbers are dominated by the same. -/
theorem Dominates.congr {x x' y : Candidate} (h : Dominates rs y x)
    (hchanges : x'.changes rs = x.changes rs) (hmissing : x'.missing rs = x.missing rs) :
    Dominates rs y x' := by
  rw [Dominates, hchanges, hmissing]
  exact h

/-- A run that names the first candidate with the fewest changes names one that is dominated by
none exactly when no tie behind it is better. -/
theorem FirstFewest.namesUndominated_iff {candidates before after : List Candidate}
    {x : Candidate} (h : FirstFewest rs candidates before x after) {report : CompareReport}
    (hnamed : report.closest = some ⟨x.path, x.changes rs, x.missing rs⟩) :
    NamesUndominated rs candidates report ↔ NoBetterTie rs candidates := by
  rw [noBetterTie_iff h, ← h.undominated_iff]
  constructor
  · intro hnames y hy hdominates
    obtain ⟨x', -, heq, hnone⟩ := hnames _ hnamed
    obtain ⟨-, hchanges, hmissing⟩ := Best.mk.inj heq
    exact hnone y hy (hdominates.congr hchanges.symm hmissing.symm)
  · intro hnone best hbest
    have hmem : x ∈ candidates := h.split ▸ by simp
    exact ⟨x, hmem, (Option.some.inj (hnamed.symm.trans hbest)).symm, hnone⟩

/-- Behind the only candidate there is none. -/
theorem noBetterTie_of_single {candidates : List Candidate} (h : candidates.length ≤ 1) :
    NoBetterTie rs candidates := by
  intro before x after hfirst y hy
  have hlength := congrArg List.length hfirst.split
  have hpos := List.length_pos_of_mem hy
  simp only [List.length_append, List.length_cons] at hlength
  omega

/-- **The closest match.** A run on a reference and candidates that can be read compares every
candidate, in order. It names a closest match exactly when there are two candidates or more: the
first candidate with the fewest meaningful changes, with the numbers of that candidate. That one
is dominated by no other exactly when no later one has as many meaningful changes and is missing
fewer properties. -/
theorem closest_undominated_iff (href : Reads reference header toks rs)
    (candidates : List Candidate) :
    ∃ report, compareMain reference (candidates.map Candidate.file) = .ok report ∧
      report.comparisons.map (fun c => (c.path, c.meaningful, c.onlyRef)) =
        candidates.map (fun x => (x.path, changesOf rs x.records, missingFrom rs x.records)) ∧
      (report.closest = none ↔ candidates.length ≤ 1) ∧
      (∀ best, report.closest = some best → ∃ before x after,
        FirstFewest rs candidates before x after ∧
          best = ⟨x.path, x.changes rs, x.missing rs⟩) ∧
      (NamesUndominated rs candidates report ↔ NoBetterTie rs candidates) := by
  refine ⟨_, compareMain_candidates href candidates, ?_, ?_⟩
  · rw [List.map_map]
    refine List.map_congr_left fun x _ => ?_
    obtain ⟨hmeaningful, honlyRef⟩ := @Candidate.comparison_eq rs x
    rw [Function.comp_apply, hmeaningful, honlyRef]
    rfl
  · by_cases hmany : 1 < candidates.length
    · obtain ⟨before, x, after, hfirst, hnamed⟩ := @exists_named rs _ hmany
      simp only [if_pos hmany, hnamed]
      refine ⟨iff_of_false (Option.some_ne_none _) (Nat.not_le.mpr hmany),
        fun best hbest => ?_, hfirst.namesUndominated_iff rfl⟩
      exact ⟨before, x, after, hfirst, (Option.some.inj hbest).symm⟩
    · simp only [if_neg hmany]
      have hsingle := Nat.not_lt.mp hmany
      have hnone (best : Best) : none ≠ some best := (Option.some_ne_none best).symm
      exact ⟨iff_of_true trivial hsingle, fun best hbest => absurd hbest (hnone best),
        iff_of_true (fun best hbest => absurd hbest (hnone best)) (noBetterTie_of_single hsingle)⟩

end

/-! ### A dominated match -/

/-- The tree without its memory, and then the reference itself. -/
def twoCandidates : List Candidate :=
  [⟨"a.dtb".toList, (memoryTree []).file, (memoryTree []).root.records [],
      (reads_of_serialises serialises_noMemory).imp fun _ => .imp fun _ => And.left⟩,
    ⟨"b.dtb".toList, (memoryTree memoryReg).file, (memoryTree memoryReg).root.records [],
      (reads_of_serialises serialises_memoryReg).imp fun _ => .imp fun _ => And.left⟩]

/-- What `closest_undominated_iff` says of that run. -/
theorem closest_twoCandidates : ∃ report,
    compareMain (memoryTree memoryReg).file (twoCandidates.map Candidate.file) = .ok report ∧
      report.comparisons.map (fun c => (c.path, c.meaningful, c.onlyRef)) =
        twoCandidates.map (fun x => (x.path,
          changesOf ((memoryTree memoryReg).root.records []) x.records,
          missingFrom ((memoryTree memoryReg).root.records []) x.records)) ∧
      (report.closest = none ↔ twoCandidates.length ≤ 1) ∧
      (∀ best, report.closest = some best → ∃ before x after,
        FirstFewest ((memoryTree memoryReg).root.records []) twoCandidates before x after ∧
          best = ⟨x.path, x.changes ((memoryTree memoryReg).root.records []),
            x.missing ((memoryTree memoryReg).root.records [])⟩) ∧
      (NamesUndominated ((memoryTree memoryReg).root.records []) twoCandidates report ↔
        NoBetterTie ((memoryTree memoryReg).root.records []) twoCandidates) := by
  obtain ⟨header, toks, href, -⟩ := reads_of_serialises serialises_memoryReg
  exact closest_undominated_iff href twoCandidates

/-- The tree without its memory is named, although the other candidate is the reference. -/
theorem twoCandidates_dominated : ∃ report,
    compareMain (memoryTree memoryReg).file (twoCandidates.map Candidate.file) = .ok report ∧
      report.closest = some ⟨"a.dtb".toList, 0, 1⟩ ∧
      ¬ NamesUndominated ((memoryTree memoryReg).root.records []) twoCandidates report := by
  obtain ⟨header, toks, href, -⟩ := reads_of_serialises serialises_memoryReg
  have hclosest : (if 1 < twoCandidates.length then
      ((twoCandidates.map (Candidate.comparison ((memoryTree memoryReg).root.records []))).argmin
        fun c => c.meaningful.card).map Comparison.toBest
      else none) = some ⟨"a.dtb".toList, 0, 1⟩ := by decide +kernel
  refine ⟨_, compareMain_candidates href twoCandidates, hclosest, fun hnames => ?_⟩
  obtain ⟨x, hx, heq, hnone⟩ := hnames _ hclosest
  obtain ⟨-, hchanges, hmissing⟩ := Best.mk.inj heq
  refine hnone (twoCandidates.get ⟨1, by decide⟩) (List.get_mem _ _) ?_
  rw [Dominates, ← hchanges, ← hmissing]
  decide +kernel

end Fdt

end Msm8998
