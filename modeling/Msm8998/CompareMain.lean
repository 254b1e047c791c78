import Mathlib.Data.Finset.Sort
import Mathlib.Data.List.Lex
import Msm8998.CompareClosest
import Msm8998.InspectLayout

/-!
# What the Comparison Prints

This module models `main` of `compare-dtb.py` with everything it prints, as a transcript. The
properties that differ are listed in the order in which Python iterates a set, which is not
specified and need not be the same for two candidates or in two runs; here each candidate comes
with an order.

How `argparse` reads the command line, which files a pattern matches, and how the output is encoded
are left out.

## Main results

* `candidateRun_eq`: what is printed about a candidate, in terms of its comparison.
* `compareMain_eq_error`: which file ends a comparison that fails.
* `compareMain_ne_outOfFuel`: the loops of the parser end on every file.
* `compareRun_spec`: the transcript against the report, to the end of a run or up to its error.
* `compareRun_stable`: the output depends on the trees alone, up to the order of what it lists.
-/

open Fallible OrderedDict Transcript

namespace Msm8998

namespace Fdt

open BootImage (pyDecimal)

/-! ### Sorting -/

/-- The order of the characters. -/
def charLt (c d : Char) : Prop := c.toNat < d.toNat

instance : Std.Trichotomous charLt :=
  ⟨fun _ _ h h' => Char.toNat_inj.mp (Nat.le_antisymm (Nat.not_lt.mp h') (Nat.not_lt.mp h))⟩

instance : Std.Asymm charLt := ⟨fun _ _ h h' => Nat.lt_asymm h h'⟩

instance : IsOrderConnected Char charLt :=
  ⟨fun a b c (h : a.toNat < c.toNat) => by
    by_cases hab : a.toNat < b.toNat
    · exact .inl hab
    · exact .inr (Nat.lt_of_le_of_lt (Nat.not_lt.mp hab) h)⟩

/-- The order of the lines is the lexical one. -/
theorem pyLe_iff {a b : Str} : pyLe a b = true ↔ ¬ List.Lex charLt b a := by
  rw [pyLe, Bool.not_eq_true', Bool.eq_false_iff, ne_eq, List.lex_eq_true_iff_lex]
  simp only [decide_eq_true_eq]
  rfl

/-- The order of two texts. -/
def PyLe (a b : Str) : Prop := pyLe a b = true

instance : DecidableRel PyLe := fun a b => inferInstanceAs (Decidable (pyLe a b = true))

instance : Std.Antisymm PyLe := ⟨fun a b h h' =>
  Std.Trichotomous.trichotomous (r := List.Lex charLt) a b (pyLe_iff.mp h') (pyLe_iff.mp h)⟩

instance : Std.Total PyLe := ⟨fun a b => by
  rw [PyLe, PyLe, pyLe_iff, pyLe_iff]
  by_cases h : List.Lex charLt b a
  · exact .inr (Std.Asymm.asymm b a h)
  · exact .inl h⟩

instance : IsTrans Str PyLe := ⟨fun a b c h h' => by
  rw [PyLe, pyLe_iff] at h h' ⊢
  intro hca
  rcases IsOrderConnected.conn c b a hca with hcb | hba
  · exact h' hcb
  · exact h hba⟩

/-- `sorted(s)`, which is the same list in whatever order the set is iterated. -/
def sortedKeys (s : Finset Str) : List Str := s.sort PyLe

/-! ### Sets and slices -/

/-- An order in which sets of keys are iterated. -/
structure SetOrder where
  list : Finset Str → List Str
  nodup : ∀ s, (list s).Nodup
  mem_iff : ∀ s k, k ∈ list s ↔ k ∈ s

/-- `xs[:limit]`; a negative limit counts from the end. -/
def sliceTo {α : Type} (xs : List α) (limit : ℤ) : List α :=
  if 0 ≤ limit then xs.take limit.toNat else xs.take (xs.length - (-limit).toNat)

/-! ### What is printed -/

/-- `str` of a tuple of numbers, or of `None`. -/
def pyTuple : Option (List ℕ) → Str
  | none => "None".toList
  | some [n] => "(".toList ++ pyDecimal n ++ ",)".toList
  | some ns => "(".toList ++ ", ".toList.intercalate (ns.map pyDecimal) ++ ")".toList

/-- The text of `status`. -/
def Status.text : Status → Str
  | .msmIdAndBoardId => "msm-id+board-id match".toList
  | .msmIdOnly => "msm-id only".toList
  | .noMatch => []

/-- The command line: the path of the reference, and the options. -/
structure CompareArgs where
  reference : Str
  verbose : Bool := false
  limit : ℤ := 8

section Program

variable (orders : Str → SetOrder) (args : CompareArgs)

/-- The lines on the reference. -/
def referenceLines (ref : Description) : List Str :=
  ["reference : ".toList ++ args.reference,
    "  model   : ".toList ++ ref.model,
    "  msm-id  : ".toList ++ pyTuple ref.msmId,
    "  board-id: ".toList ++ pyTuple ref.boardId,
    "  props   : ".toList ++ pyDecimal ref.props.entries.length ++ ['\n']]

/-- The first differing properties, and how many more there are, or the verdict. -/
def listMeaningful (meaningful : List Str) : Run PyError Str Unit :=
  if meaningful ≠ [] then do
    forM (sliceTo meaningful args.limit) fun key => print ("    ~ ".toList ++ key)
    if (meaningful.length : ℤ) > args.limit then
      print ("    ... ".toList ++ pyDecimal (meaningful.length - args.limit).toNat ++
        " more".toList)
    else pure ()
  else print "    -> no meaningful property differences: same hardware variant".toList

/-- What `--verbose` adds. -/
def listVerbose (onlyRef onlyCand : Finset Str) : Run PyError Str Unit :=
  if args.verbose then do
    forM (sliceTo (sortedKeys onlyRef) args.limit) fun key =>
      print ("    only in reference: ".toList ++ key)
    forM (sliceTo (sortedKeys onlyCand) args.limit) fun key =>
      print ("    only in candidate: ".toList ++ key)
  else pure ()

/-- One pass of the loop over the candidates; `best` is its variable. -/
def candidateRun (ref : Description) (best : Option Best) (candidate : Str × Bytes) :
    Run PyError Str (Option Best) := do
  let cand ← quiet (describe candidate.2)
  let keysRef := ref.props.keys
  let keysCand := cand.props.keys
  let onlyRef := keysRef \ keysCand
  let onlyCand := keysCand \ keysRef
  let changed := ((orders candidate.1).list (keysRef ∩ keysCand)).filter fun k =>
    ref.props.get? k ≠ cand.props.get? k
  let meaningful := changed.filter fun k => !isNoise k
  print candidate.1
  print ("  msm-id=".toList ++ pyTuple cand.msmId ++ " board-id=".toList ++ pyTuple cand.boardId ++
    "  ".toList ++ (statusOf ref cand).text)
  print ("  missing=".toList ++ pyDecimal onlyRef.card ++ " extra=".toList ++
    pyDecimal onlyCand.card ++ " changed=".toList ++ pyDecimal changed.length ++
    " (meaningful changed=".toList ++ pyDecimal meaningful.length ++ ")".toList)
  listMeaningful args meaningful
  listVerbose args onlyRef onlyCand
  return match best with
    | none => some ⟨candidate.1, meaningful.length, onlyRef.card⟩
    | some b =>
        if meaningful.length < b.meaningful then
          some ⟨candidate.1, meaningful.length, onlyRef.card⟩
        else some b

/-- The last line. -/
def closestLines (best : Option Best) (matched : ℕ) : List Str :=
  match best with
  | none => []
  | some b =>
      if 1 < matched then
        ["\nclosest match: ".toList ++ b.path ++ " (meaningful diffs=".toList ++
          pyDecimal b.meaningful ++ ", missing=".toList ++ pyDecimal b.missing ++ ")".toList]
      else []

/-- `main` of `compare-dtb.py`, on the contents of the files; the result is the exit status. -/
def compareRun (reference : Bytes) (candidates : List (Str × Bytes)) : Run PyError Str ℕ := do
  let ref ← quiet (describe reference)
  printAll (referenceLines args ref)
  let best ← candidates.foldlM (candidateRun orders args ref) none
  printAll (closestLines best candidates.length)
  return 0

/-! ### The transcript of a comparison -/

/-- The lines on the meaningful changes, listed in some order. -/
def meaningfulLines (listing : List Str) : List Str :=
  if listing ≠ [] then
    (sliceTo listing args.limit).map (fun key => "    ~ ".toList ++ key) ++
      if (listing.length : ℤ) > args.limit then
        ["    ... ".toList ++ pyDecimal (listing.length - args.limit).toNat ++ " more".toList]
      else []
  else ["    -> no meaningful property differences: same hardware variant".toList]

/-- The lines that `--verbose` adds. -/
def verboseLines (c : Comparison) : List Str :=
  if args.verbose then
    (sliceTo (sortedKeys c.onlyRef) args.limit).map
        (fun key => "    only in reference: ".toList ++ key) ++
      (sliceTo (sortedKeys c.onlyCand) args.limit).map
        (fun key => "    only in candidate: ".toList ++ key)
  else []

/-- The lines on a candidate, from its comparison. -/
def comparisonLines (c : Comparison) (listing : List Str) : List Str :=
  [c.path,
    "  msm-id=".toList ++ pyTuple c.msmId ++ " board-id=".toList ++ pyTuple c.boardId ++
      "  ".toList ++ c.status.text,
    "  missing=".toList ++ pyDecimal c.onlyRef.card ++ " extra=".toList ++
      pyDecimal c.onlyCand.card ++ " changed=".toList ++ pyDecimal c.changed.card ++
      " (meaningful changed=".toList ++ pyDecimal c.meaningful.card ++ ")".toList] ++
    meaningfulLines args listing ++ verboseLines args c

/-- The meaningful changes in the order in which they are listed. -/
def listingOf (order : SetOrder) (ref cand : Description) : List Str :=
  ((order.list (ref.props.keys ∩ cand.props.keys)).filter fun k =>
    ref.props.get? k ≠ cand.props.get? k).filter fun k => !isNoise k

variable {orders args}

/-- A listing of a finite set. -/
def Lists (s : Finset Str) (listing : List Str) : Prop :=
  listing.Nodup ∧ ∀ k, k ∈ listing ↔ k ∈ s

/-- Two lists of the same set, in any orders. -/
theorem Lists.perm {s : Finset Str} {xs ys : List Str} (hx : Lists s xs) (hy : Lists s ys) :
    xs.Perm ys :=
  (List.perm_ext_iff_of_nodup hx.1 hy.1).mpr fun k => (hx.2 k).trans (hy.2 k).symm

/-- A set that is listed has as many elements as its list. -/
theorem Lists.length_eq {s : Finset Str} {xs : List Str} (h : Lists s xs) :
    xs.length = s.card := by
  rw [← List.toFinset_card_of_nodup h.1]
  exact congrArg Finset.card (Finset.ext fun k => List.mem_toFinset.trans (h.2 k))

/-- What a filter leaves of a listing. -/
theorem Lists.filter {s : Finset Str} {xs : List Str} (h : Lists s xs) (p : Str → Prop)
    [DecidablePred p] : Lists (s.filter p) (xs.filter fun k => p k) :=
  ⟨h.1.filter _, fun k => by
    rw [List.mem_filter, Finset.mem_filter, h.2 k, decide_eq_true_eq]⟩

/-- Every iteration order lists the elements of a set. -/
theorem SetOrder.lists (order : SetOrder) (s : Finset Str) : Lists s (order.list s) :=
  ⟨order.nodup s, order.mem_iff s⟩

/-- The two lists of a pass are the two sets of the comparison. -/
theorem changed_listed (order : SetOrder) (ref cand : Description) (path : Str) :
    Lists (compareTrees ref path cand).changed
      ((order.list (ref.props.keys ∩ cand.props.keys)).filter fun k =>
        ref.props.get? k ≠ cand.props.get? k) :=
  (order.lists _).filter fun k => ref.props.get? k ≠ cand.props.get? k

/-- The meaningful changes of a candidate are listed in the order of the run. -/
theorem meaningful_listed (order : SetOrder) (ref cand : Description) (path : Str) :
    Lists (compareTrees ref path cand).meaningful (listingOf order ref cand) := by
  refine ⟨(changed_listed order ref cand path).1.filter _, fun k => ?_⟩
  rw [listingOf, List.mem_filter, (changed_listed order ref cand path).2, compareTrees,
    Finset.mem_filter, Bool.not_eq_true']

/-- The listing of the meaningful changes prints its lines and does not fail. -/
theorem listMeaningful_eq (listing : List Str) :
    listMeaningful args listing = printAll (meaningfulLines args listing) := by
  rw [listMeaningful, meaningfulLines]
  split
  · rw [forM_print]
    split <;> rfl
  · rfl

/-- So does the listing of the keys of one side. -/
theorem listVerbose_eq (c : Comparison) :
    listVerbose args c.onlyRef c.onlyCand = printAll (verboseLines args c) := by
  rw [listVerbose, verboseLines]
  split
  · rw [forM_print, forM_print]
    rfl
  · rfl

/-- **One candidate**: what is printed is its comparison, and the best is kept as in the report. -/
theorem candidateRun_eq {ref cand : Description} {path : Str} {data : Bytes}
    (hcand : describe data = .ok cand) (best : Option Best) :
    candidateRun orders args ref best (path, data) =
      ⟨comparisonLines args (compareTrees ref path cand) (listingOf (orders path) ref cand),
        .ok (keepBest best (compareTrees ref path cand))⟩ := by
  have hchanged := (changed_listed (orders path) ref cand path).length_eq
  have hmeaningful := (meaningful_listed (orders path) ref cand path).length_eq
  have hlisting : (((orders path).list (ref.props.keys ∩ cand.props.keys)).filter fun k =>
      ref.props.get? k ≠ cand.props.get? k).filter (fun k => !isNoise k) =
        listingOf (orders path) ref cand := rfl
  have hverbose : listVerbose args (ref.props.keys \ cand.props.keys)
      (cand.props.keys \ ref.props.keys) =
        printAll (verboseLines args (compareTrees ref path cand)) :=
    listVerbose_eq (compareTrees ref path cand)
  rw [candidateRun, hcand, quiet_bind_ok]
  dsimp only
  rw [hlisting, hchanged, hmeaningful, listMeaningful_eq, hverbose]
  simp only [print_bind, printAll_bind]
  refine Run.ext ?_ ?_
  · rw [pure_lines, List.append_nil]
    rfl
  · cases best <;> rfl

/-- A candidate that cannot be parsed ends the run before anything is said of it. -/
theorem candidateRun_error {ref : Description} {candidate : Str × Bytes} {e : PyError}
    (h : describe candidate.2 = .error e) (best : Option Best) :
    candidateRun orders args ref best candidate = ⟨[], .error e⟩ := by
  rw [candidateRun, h]
  rfl

/-! ### The transcript of a run -/

/-- The lines on a candidate that can be parsed. -/
def candidateLines (orders : Str → SetOrder) (args : CompareArgs) (ref : Description)
    (candidate : Str × Bytes) : List Str :=
  match describe candidate.2 with
  | .error _ => []
  | .ok cand =>
      comparisonLines args (compareTrees ref candidate.1 cand)
        (listingOf (orders candidate.1) ref cand)

/-- The comparison of a candidate that can be parsed, as the loop keeps it. -/
def keepCandidate (ref : Description) (best : Option Best) (candidate : Str × Bytes) :
    Option Best :=
  match describe candidate.2 with
  | .error _ => best
  | .ok cand => keepBest best (compareTrees ref candidate.1 cand)

/-- A candidate that can be parsed gets its block of lines, and is kept if it is the closest. -/
theorem candidateRun_ok {ref : Description} {candidate : Str × Bytes}
    (h : ∃ cand, describe candidate.2 = .ok cand) (best : Option Best) :
    candidateRun orders args ref best candidate =
      ⟨candidateLines orders args ref candidate, .ok (keepCandidate ref best candidate)⟩ := by
  obtain ⟨cand, hcand⟩ := h
  rw [candidateLines, keepCandidate, hcand]
  exact candidateRun_eq hcand best

/-- The candidates, one after the other, against their comparisons. -/
theorem candidateLines_of_comparisons {ref : Description} {candidates : List (Str × Bytes)}
    {cs : List Comparison} (h : candidates.mapM (compareCandidate ref) = .ok cs) :
    ∃ listings, List.Forall₂ (fun c listing => Lists c.meaningful listing) cs listings ∧
      candidates.flatMap (candidateLines orders args ref) =
        (List.zipWith (comparisonLines args) cs listings).flatten ∧
      ∀ best, candidates.foldl (keepCandidate ref) best = cs.foldl keepBest best := by
  induction candidates generalizing cs with
  | nil =>
      cases h
      exact ⟨[], .nil, rfl, fun _ => rfl⟩
  | cons x candidates ih =>
      rw [List.mapM_cons] at h
      obtain ⟨c, hc, h⟩ := bind_eq_ok.mp h
      obtain ⟨cs', hcs, h⟩ := bind_eq_ok.mp h
      cases h
      obtain ⟨cand, hcand, hc⟩ := bind_eq_ok.mp hc
      cases hc
      obtain ⟨listings, hlists, hlines, hbest⟩ := ih hcs
      refine ⟨listingOf (orders x.1) ref cand :: listings,
        .cons (meaningful_listed (orders x.1) ref cand x.1) hlists, ?_, fun best => ?_⟩
      · rw [List.flatMap_cons, hlines, candidateLines, hcand, List.zipWith_cons_cons,
          List.flatten_cons]
      · rw [List.foldl_cons, List.foldl_cons, keepCandidate, hcand, hbest]

/-- The closest candidate is not looked at unless there are two. -/
theorem closestLines_ite (best : Option Best) (matched : ℕ) :
    closestLines (if 1 < matched then best else none) matched = closestLines best matched := by
  split
  · rfl
  · rename_i hfew
    cases best with
    | none => rfl
    | some b => exact (if_neg hfew).symm

/-- **A run to its end** prints its report. -/
theorem compareRun_of_report {reference : Bytes} {candidates : List (Str × Bytes)}
    {report : CompareReport} (h : compareMain reference candidates = .ok report) :
    ∃ listings, List.Forall₂ (fun c listing => Lists c.meaningful listing)
        report.comparisons listings ∧
      compareRun orders args reference candidates =
        ⟨referenceLines args report.reference ++
          (List.zipWith (comparisonLines args) report.comparisons listings).flatten ++
          closestLines report.closest candidates.length, .ok 0⟩ := by
  obtain ⟨href, hcs, hclosest⟩ := compareMain_eq_ok_iff.mp h
  obtain ⟨listings, hlists, hlines, hbest⟩ := @candidateLines_of_comparisons orders args _ _ _ hcs
  refine ⟨listings, hlists, ?_⟩
  have hall := exists_mapM_eq_ok.mp ⟨_, hcs⟩
  have hloop : candidates.foldlM (candidateRun orders args report.reference) none =
      ⟨candidates.flatMap (candidateLines orders args report.reference),
        .ok (candidates.foldl (keepCandidate report.reference) none)⟩ := by
    refine foldlM_of_ok (fun best x hx => ?_) none
    obtain ⟨c, hc⟩ := hall x hx
    obtain ⟨cand, hcand, -⟩ := bind_eq_ok.mp hc
    exact candidateRun_ok ⟨cand, hcand⟩ best
  rw [compareRun, href, quiet_bind_ok, printAll_bind, hloop, bind_of_ok rfl, printAll_bind, hlines,
    hbest, foldl_keepBest, hclosest, closestLines_ite]
  refine Run.ext ?_ rfl
  rw [pure_lines, List.append_nil, List.append_assoc]

/-- The first candidate that cannot be parsed. -/
theorem exists_first_error {candidates : List (Str × Bytes)}
    (h : ¬ ∀ x ∈ candidates, ∃ cand, describe x.2 = .ok cand) :
    ∃ before bad after e, candidates = before ++ bad :: after ∧
      (∀ x ∈ before, ∃ cand, describe x.2 = .ok cand) ∧ describe bad.2 = .error e := by
  induction candidates with
  | nil => exact absurd (List.forall_mem_nil _) h
  | cons x candidates ih =>
      cases hx : describe x.2 with
      | error e => exact ⟨[], x, candidates, e, rfl, List.forall_mem_nil _, hx⟩
      | ok cand =>
          have hrest : ¬ ∀ x ∈ candidates, ∃ cand, describe x.2 = .ok cand := fun hall =>
            h (List.forall_mem_cons.mpr ⟨⟨cand, hx⟩, hall⟩)
          obtain ⟨before, bad, after, e, rfl, hbefore, hbad⟩ := ih hrest
          exact ⟨x :: before, bad, after, e, rfl, List.forall_mem_cons.mpr ⟨⟨cand, hx⟩, hbefore⟩,
            hbad⟩

/-- Candidates that can all be parsed can all be compared. -/
theorem exists_comparisons (ref : Description) {candidates : List (Str × Bytes)}
    (h : ∀ x ∈ candidates, ∃ cand, describe x.2 = .ok cand) :
    ∃ cs, candidates.mapM (compareCandidate ref) = .ok cs := by
  refine exists_mapM_eq_ok.mpr fun x hx => ?_
  obtain ⟨cand, hcand⟩ := h x hx
  exact ⟨compareTrees ref x.1 cand, by rw [compareCandidate, hcand]; rfl⟩

/-- **When the comparison fails**: the reference cannot be parsed, or some candidate is the first
that cannot. -/
theorem compareMain_eq_error {reference : Bytes} {candidates : List (Str × Bytes)} {e : PyError}
    (h : compareMain reference candidates = .error e) :
    describe reference = .error e ∨
      ∃ ref before bad after, describe reference = .ok ref ∧ candidates = before ++ bad :: after ∧
        (∀ x ∈ before, ∃ cand, describe x.2 = .ok cand) ∧ describe bad.2 = .error e := by
  cases href : describe reference with
  | error e' =>
      rw [compareMain, href] at h
      exact .inl (congrArg Except.error (Except.error.inj h))
  | ok ref =>
      by_cases hall : ∀ x ∈ candidates, ∃ cand, describe x.2 = .ok cand
      · obtain ⟨cs, hcs⟩ := exists_comparisons ref hall
        have hok := (@compareMain_eq_ok_iff reference candidates
          ⟨ref, cs, if 1 < candidates.length then
            (cs.argmin fun c => c.meaningful.card).map Comparison.toBest else none⟩).mpr
          ⟨href, hcs, rfl⟩
        rw [h] at hok
        cases hok
      · obtain ⟨before, bad, after, e', rfl, hbefore, hbad⟩ := exists_first_error hall
        obtain ⟨cs, hcs⟩ := exists_comparisons ref hbefore
        have hfold := (foldlM_eq_ok_iff (g := Progress.keep) (s := ⟨[], none⟩)).mpr
          ⟨cs, hcs, rfl⟩
        have hcandidate : compareCandidate ref bad = .error e' := by
          rw [compareCandidate, hbad]
          rfl
        rw [compareMain, href, ok_bind, List.foldlM_append, hfold, ok_bind, List.foldlM_cons,
          hcandidate] at h
        obtain rfl : e' = e := Except.error.inj h
        exact .inr ⟨ref, before, bad, after, rfl, rfl, hbefore, hbad⟩

/-- The parser has enough fuel for every file. -/
theorem describe_ne_outOfFuel (data : Bytes) : describe data ≠ .error .outOfFuel := by
  intro h
  rw [describe] at h
  cases hparse : compareParse data with
  | ok result =>
      rw [hparse] at h
      cases h
  | error e =>
      rw [hparse] at h
      exact compareParse_ne_outOfFuel data (hparse.trans (congrArg Except.error (Except.error.inj h)))

/-- A comparison that fails does so because of a file. -/
theorem compareMain_ne_outOfFuel (reference : Bytes) (candidates : List (Str × Bytes)) :
    compareMain reference candidates ≠ .error .outOfFuel := by
  intro h
  rcases compareMain_eq_error h with href | ⟨-, -, bad, -, -, -, -, hbad⟩
  · exact describe_ne_outOfFuel reference href
  · exact describe_ne_outOfFuel bad.2 hbad

/-- **A run that fails** has printed what it has to say of the files before the first one that
cannot be parsed. -/
theorem compareRun_of_error {reference : Bytes} {candidates : List (Str × Bytes)} {e : PyError}
    (h : compareMain reference candidates = .error e) :
    describe reference = .error e ∧ compareRun orders args reference candidates = ⟨[], .error e⟩ ∨
      ∃ ref before bad after, describe reference = .ok ref ∧ candidates = before ++ bad :: after ∧
        (∀ x ∈ before, ∃ cand, describe x.2 = .ok cand) ∧ describe bad.2 = .error e ∧
        compareRun orders args reference candidates =
          ⟨referenceLines args ref ++ before.flatMap (candidateLines orders args ref),
            .error e⟩ := by
  rcases compareMain_eq_error h with href | ⟨ref, before, bad, after, href, rfl, hbefore, hbad⟩
  · refine .inl ⟨href, ?_⟩
    rw [compareRun, href]
    rfl
  · have hloop (best : Option Best) :
        (before ++ bad :: after).foldlM (candidateRun orders args ref) best =
          ⟨before.flatMap (candidateLines orders args ref), .error e⟩ :=
      foldlM_of_error after (fun best x hx => candidateRun_ok (hbefore x hx) best)
        (candidateRun_error hbad) best
    refine .inr ⟨ref, before, bad, after, href, rfl, hbefore, hbad, ?_⟩
    rw [compareRun, href, quiet_bind_ok, printAll_bind, hloop, bind_of_error rfl]

/-- **The transcript of every run.** A run that ends prints its report, with the meaningful changes
of each candidate listed in some order. A run that fails has printed the same up to the first file
that cannot be parsed, and nothing of that file. -/
theorem compareRun_spec (orders : Str → SetOrder) (args : CompareArgs) (reference : Bytes)
    (candidates : List (Str × Bytes)) :
    (∀ report, compareMain reference candidates = .ok report →
      ∃ listings, List.Forall₂ (fun c listing => Lists c.meaningful listing)
          report.comparisons listings ∧
        compareRun orders args reference candidates =
          ⟨referenceLines args report.reference ++
            (List.zipWith (comparisonLines args) report.comparisons listings).flatten ++
            closestLines report.closest candidates.length, .ok 0⟩) ∧
    ∀ e, compareMain reference candidates = .error e →
      describe reference = .error e ∧
          compareRun orders args reference candidates = ⟨[], .error e⟩ ∨
        ∃ ref before bad after, describe reference = .ok ref ∧
          candidates = before ++ bad :: after ∧
          (∀ x ∈ before, ∃ cand, describe x.2 = .ok cand) ∧ describe bad.2 = .error e ∧
          compareRun orders args reference candidates =
            ⟨referenceLines args ref ++ before.flatMap (candidateLines orders args ref),
              .error e⟩ :=
  ⟨fun _ h => compareRun_of_report h, fun _ h => compareRun_of_error h⟩

end Program

/-! ### What a transcript depends on -/

section Stable

variable {orders orders' : Str → SetOrder} {args : CompareArgs} {reference reference' : Bytes}
variable {candidates candidates' : List (Str × Bytes)}

/-- A slice has a length that depends on the length of the list only. -/
theorem sliceTo_length {xs ys : List Str} (h : xs.length = ys.length) (limit : ℤ) :
    (sliceTo xs limit).length = (sliceTo ys limit).length := by
  rw [sliceTo, sliceTo]
  split
  · rw [List.length_take, List.length_take, h]
  · rw [List.length_take, List.length_take, h]

/-- A limit that suffices. -/
theorem sliceTo_of_le {xs : List Str} {limit : ℤ} (h : (xs.length : ℤ) ≤ limit) :
    sliceTo xs limit = xs := by
  rw [sliceTo, if_pos (by omega), List.take_of_length_le (by omega)]

/-- As many lines for any two listings, and the same lines when the limit suffices. -/
theorem meaningfulLines_perm {xs ys : List Str} (h : xs.Perm ys) :
    (meaningfulLines args xs).length = (meaningfulLines args ys).length ∧
      ((xs.length : ℤ) ≤ args.limit →
        (meaningfulLines args xs).Perm (meaningfulLines args ys)) := by
  have hlength := h.length_eq
  rw [meaningfulLines, meaningfulLines]
  by_cases hx : xs = []
  · subst hx
    rw [List.nil_perm.mp h]
    exact ⟨rfl, fun _ => .refl _⟩
  · have hy : ys ≠ [] := fun hy => hx (List.perm_nil.mp (hy ▸ h))
    rw [if_pos hx, if_pos hy, ← hlength]
    refine ⟨?_, fun hfits => ?_⟩
    · rw [List.length_append, List.length_append, List.length_map, List.length_map,
        sliceTo_length hlength]
    · rw [sliceTo_of_le hfits, sliceTo_of_le (hlength ▸ hfits)]
      exact (h.map _).append_right _

/-- The lines on one candidate. -/
theorem comparisonLines_perm {c : Comparison} {xs ys : List Str} (hx : Lists c.meaningful xs)
    (hy : Lists c.meaningful ys) :
    (comparisonLines args c xs).length = (comparisonLines args c ys).length ∧
      ((c.meaningful.card : ℤ) ≤ args.limit →
        (comparisonLines args c xs).Perm (comparisonLines args c ys)) := by
  obtain ⟨hlength, hperm⟩ := @meaningfulLines_perm args _ _ (hx.perm hy)
  rw [comparisonLines, comparisonLines]
  refine ⟨?_, fun hfits => ?_⟩
  · simp only [List.length_append, hlength]
  · rw [← hx.length_eq] at hfits
    exact ((hperm hfits).append_left _).append_right _

/-- The lines on all candidates. -/
theorem flatten_comparisonLines_perm {cs : List Comparison} {xss yss : List (List Str)}
    (hx : List.Forall₂ (fun c listing => Lists c.meaningful listing) cs xss)
    (hy : List.Forall₂ (fun c listing => Lists c.meaningful listing) cs yss) :
    (List.zipWith (comparisonLines args) cs xss).flatten.length =
        (List.zipWith (comparisonLines args) cs yss).flatten.length ∧
      ((∀ c ∈ cs, (c.meaningful.card : ℤ) ≤ args.limit) →
        (List.zipWith (comparisonLines args) cs xss).flatten.Perm
          (List.zipWith (comparisonLines args) cs yss).flatten) := by
  induction hx generalizing yss with
  | nil =>
      cases hy
      exact ⟨rfl, fun _ => .refl _⟩
  | cons hlists hx ih =>
      cases hy with
      | cons hlists' hy =>
          obtain ⟨hlength, hperm⟩ := @comparisonLines_perm args _ _ _ hlists hlists'
          obtain ⟨hlengths, hperms⟩ := ih hy
          rw [List.zipWith_cons_cons, List.zipWith_cons_cons, List.flatten_cons, List.flatten_cons]
          refine ⟨?_, fun hfits => ?_⟩
          · rw [List.length_append, List.length_append, hlength, hlengths]
          · obtain ⟨hfit, hfits⟩ := List.forall_mem_cons.mp hfits
            exact (hperm hfit).append (hperms hfits)

/-- The orders in which sets are iterated matter for the listed changes only. -/
theorem compareRun_orders {report : CompareReport}
    (h : compareMain reference candidates = .ok report) :
    ∃ lines lines', compareRun orders args reference candidates = ⟨lines, .ok 0⟩ ∧
      compareRun orders' args reference candidates = ⟨lines', .ok 0⟩ ∧
      lines.length = lines'.length ∧
      ((∀ c ∈ report.comparisons, (c.meaningful.card : ℤ) ≤ args.limit) →
        lines.Perm lines') := by
  obtain ⟨xss, hx, hrun⟩ := @compareRun_of_report orders args _ _ _ h
  obtain ⟨yss, hy, hrun'⟩ := @compareRun_of_report orders' args _ _ _ h
  obtain ⟨hlength, hperm⟩ := @flatten_comparisonLines_perm args _ _ _ hx hy
  refine ⟨_, _, hrun, hrun', ?_, fun hfits => ?_⟩
  · simp only [List.length_append, hlength]
  · exact ((hperm hfits).append_left _).append_right _

/-- A run sees of its files what `describe` finds in them. -/
theorem compareRun_congr (href : describe reference = describe reference')
    (hcands : List.Forall₂ (fun x y => x.1 = y.1 ∧ describe x.2 = describe y.2)
      candidates candidates') :
    compareRun orders args reference candidates =
      compareRun orders args reference' candidates' := by
  have hpass (ref : Description) (best : Option Best) {x y : Str × Bytes}
      (h : x.1 = y.1 ∧ describe x.2 = describe y.2) :
      candidateRun orders args ref best x = candidateRun orders args ref best y := by
    rw [candidateRun, candidateRun, h.1, h.2]
  have hloop (ref : Description) (best : Option Best) :
      candidates.foldlM (candidateRun orders args ref) best =
        candidates'.foldlM (candidateRun orders args ref) best := by
    induction hcands generalizing best with
    | nil => rfl
    | cons h hcands ih =>
        rw [List.foldlM_cons, List.foldlM_cons, hpass ref best h]
        exact congrArg _ (funext ih)
  rw [compareRun, compareRun, href, hcands.length_eq]
  simp only [hloop]

/-- The description of a file is that of the records of its tree. -/
theorem describe_of_serialises {tree : DeviceTree} {data : Bytes} (h : Serialises tree data) :
    describe data = .ok (describeRecords (tree.root.records [])) := by
  obtain ⟨header, toks, hreads, -⟩ := reads_of_serialises h
  exact (describe_eq_ok_iff hreads).mpr rfl

/-- Two files of the same tree. -/
def SameTree (data data' : Bytes) : Prop :=
  ∃ tree, Serialises tree data ∧ Serialises tree data'

/-- Files of the same tree have the same description. -/
theorem SameTree.describe_eq {data data' : Bytes} (h : SameTree data data') :
    describe data = describe data' := by
  obtain ⟨tree, hdata, hdata'⟩ := h
  rw [describe_of_serialises hdata, describe_of_serialises hdata']

/-- **What the output depends on.** Two runs on files of the same trees, under the same names and
options, return 0 and print as many lines, whatever the layouts of the files and the orders of the
sets are. With one order they print the same; with two orders the lines are the same up to their
order, if the limit leaves no change out. -/
theorem compareRun_stable (orders orders' : Str → SetOrder) (args : CompareArgs)
    (href : SameTree reference reference')
    (hcands : List.Forall₂ (fun x y => x.1 = y.1 ∧ SameTree x.2 y.2) candidates candidates') :
    ∃ report lines lines', compareMain reference candidates = .ok report ∧
      compareRun orders args reference candidates = ⟨lines, .ok 0⟩ ∧
      compareRun orders' args reference' candidates' = ⟨lines', .ok 0⟩ ∧
      lines.length = lines'.length ∧ (orders = orders' → lines = lines') ∧
      ((∀ c ∈ report.comparisons, (c.meaningful.card : ℤ) ≤ args.limit) →
        lines.Perm lines') := by
  obtain ⟨tree, hdata, hdata'⟩ := href
  obtain ⟨header, toks, hreads, -⟩ := reads_of_serialises hdata
  have hread : ∀ x y : Str × Bytes, x.1 = y.1 ∧ SameTree x.2 y.2 →
      (∃ header toks rs, Reads x.2 header toks rs) ∧ describe x.2 = describe y.2 := by
    rintro x y ⟨-, tree, hx, hy⟩
    obtain ⟨header, toks, hreads, -⟩ := reads_of_serialises hx
    exact ⟨⟨header, toks, _, hreads⟩, SameTree.describe_eq ⟨tree, hx, hy⟩⟩
  have hall := ((List.forall₂_and_left _ _).mp (hcands.imp hread)).1
  obtain ⟨report, hreport⟩ := exists_compareMain hreads hall
  obtain ⟨lines, lines', hrun, hrun', hlength, hperm⟩ :=
    @compareRun_orders orders orders' args _ _ _ hreport
  have hcongr : compareRun orders' args reference candidates =
      compareRun orders' args reference' candidates' :=
    compareRun_congr (SameTree.describe_eq ⟨tree, hdata, hdata'⟩)
      (hcands.imp fun x y h => ⟨h.1, (hread x y h).2⟩)
  refine ⟨report, lines, lines', hreport, hrun, hcongr ▸ hrun', hlength, fun heq => ?_, hperm⟩
  subst heq
  rw [hrun] at hrun'
  exact congrArg Run.lines hrun'

end Stable

/-! ### Two layouts and two orders -/

/-- Some order. -/
noncomputable def someOrder : SetOrder :=
  ⟨Finset.toList, Finset.nodup_toList, fun _ _ => Finset.mem_toList⟩

/-- The other way round. -/
noncomputable def reverseOrder : SetOrder :=
  ⟨fun s => s.toList.reverse, fun s => List.nodup_reverse.mpr s.nodup_toList,
    fun _ _ => List.mem_reverse.trans Finset.mem_toList⟩

/-- Two runs on the same trees in other layouts, with two orders of the sets. -/
theorem compareRun_stable_layouts : ∃ report lines lines',
    compareMain twoNodesFile [("a.dtb".toList, reservedFile)] = .ok report ∧
    compareRun (fun _ => someOrder) ⟨"ref.dtb".toList, true, 8⟩ twoNodesFile
      [("a.dtb".toList, reservedFile)] = ⟨lines, .ok 0⟩ ∧
    compareRun (fun _ => reverseOrder) ⟨"ref.dtb".toList, true, 8⟩ reservedFile
      [("a.dtb".toList, twoNodesFile)] = ⟨lines', .ok 0⟩ ∧ lines.length = lines'.length := by
  have hone : SameTree twoNodesFile reservedFile :=
    ⟨twoNodes, twoNodesFile_serialises, reservedFile_serialises⟩
  have hother : SameTree reservedFile twoNodesFile :=
    ⟨twoNodes, reservedFile_serialises, twoNodesFile_serialises⟩
  have hcands : List.Forall₂ (fun x y : Str × Bytes => x.1 = y.1 ∧ SameTree x.2 y.2)
      [("a.dtb".toList, reservedFile)] [("a.dtb".toList, twoNodesFile)] :=
    .cons ⟨rfl, hother⟩ .nil
  obtain ⟨report, lines, lines', hreport, hrun, hrun', hlength, -⟩ :=
    compareRun_stable (fun _ => someOrder) (fun _ => reverseOrder) ⟨"ref.dtb".toList, true, 8⟩ hone
      hcands
  exact ⟨report, lines, lines', hreport, hrun, hrun', hlength⟩

end Fdt

end Msm8998
