import Msm8998.DictDiff
import Msm8998.FdtAgreement
import Msm8998.FirstMinimum

/-!
# Comparing Device Trees

This module models `main` of `compare-dtb.py`: what it says about a reference and about each
candidate, and which candidate it calls the closest. A candidate is the path it was found
under with the contents of the file, in the order in which `main` visits them.

A Python `set` has no order, so the sets of keys are finite sets. Which of the differing
properties are listed, up to the limit, is left out.

## Main results

* `compareMain_eq_ok_iff`: a run is a traversal of the candidates.
* `foldl_keepBest`: the running best is the first minimum of the numbers of meaningful changes.
* `mem_meaningful`, `mem_onlyRef`, `mem_onlyCand`: what the sets say about two files.
* `comparison_at`: what a run says about each candidate.
-/

open Fallible OrderedDict FirstMinimum

namespace Msm8998

namespace Fdt

/-! ### What is said about one tree -/

/-- `value.rstrip(b"\0")`. -/
def rstripNul (value : Bytes) : Bytes := (value.reverse.dropWhile fun b => decide (b = 0)).reverse

/-- `root_words`. -/
def rootWords (props : Dict Str Bytes) (name : Str) : Option (List ℕ) :=
  match props.get? ("/:".toList ++ name) with
  | none => none
  | some [] => none
  | some value => some (unpackWords value)

/-- `is_noise`. -/
def isNoise (key : Str) : Bool :=
  ":phandle".toList.isSuffixOf key || ":linux,phandle".toList.isSuffixOf key

/-- What `describe` returns. -/
structure Description where
  props : Dict Str Bytes
  model : Str
  msmId : Option (List ℕ)
  boardId : Option (List ℕ)

/-- `describe`, after the file has been parsed. -/
def describeProps (props : Dict Str Bytes) : Description where
  props
  model := decodeReplace (rstripNul ((props.get? "/:model".toList).getD []))
  msmId := rootWords props "qcom,msm-id".toList
  boardId := rootWords props "qcom,board-id".toList

/-- `describe`. -/
def describe (data : Bytes) : Except PyError Description := do
  let result ← compareParse data
  return describeProps result.props

/-! ### What is said about a candidate -/

/-- How the board identification of a candidate agrees with the reference. -/
inductive Status
  | msmIdAndBoardId | msmIdOnly | noMatch
deriving Repr, DecidableEq

/-- What `main` prints about one candidate. -/
structure Comparison where
  path : Str
  msmId : Option (List ℕ)
  boardId : Option (List ℕ)
  status : Status
  onlyRef : Finset Str
  onlyCand : Finset Str
  changed : Finset Str
  meaningful : Finset Str
deriving DecidableEq

/-- Whether "no meaningful property differences: same hardware variant" is printed. -/
def Comparison.sameVariant (c : Comparison) : Bool := decide (c.meaningful = ∅)

/-- The status of a candidate. -/
def statusOf (ref cand : Description) : Status :=
  if cand.msmId = ref.msmId ∧ cand.boardId = ref.boardId then .msmIdAndBoardId
  else if cand.msmId = ref.msmId then .msmIdOnly
  else .noMatch

/-- The body of the loop of `main`, after the candidate has been described. -/
def compareTrees (ref : Description) (path : Str) (cand : Description) : Comparison where
  path
  msmId := cand.msmId
  boardId := cand.boardId
  status := statusOf ref cand
  onlyRef := ref.props.onlyIn cand.props
  onlyCand := cand.props.onlyIn ref.props
  changed := ref.props.changed cand.props
  meaningful := (ref.props.changed cand.props).filter fun key => isNoise key = false

/-- `best`: the path, the number of meaningful changes and the number of missing properties. -/
structure Best where
  path : Str
  meaningful : ℕ
  missing : ℕ
deriving Repr, DecidableEq

/-- What is kept about a candidate that becomes the best. -/
def Comparison.toBest (c : Comparison) : Best := ⟨c.path, c.meaningful.card, c.onlyRef.card⟩

/-- `if best is None or len(meaningful) < best[1]`. -/
def keepBest (best : Option Best) (c : Comparison) : Option Best :=
  match best with
  | none => some c.toBest
  | some b => if c.meaningful.card < b.meaningful then some c.toBest else some b

/-- The variables of the loop. -/
structure Progress where
  comparisons : List Comparison
  best : Option Best

/-- One candidate more. -/
def Progress.keep (p : Progress) (c : Comparison) : Progress :=
  ⟨p.comparisons ++ [c], keepBest p.best c⟩

/-- What a run prints. -/
structure CompareReport where
  reference : Description
  comparisons : List Comparison
  /-- The closest match, when it is printed. -/
  closest : Option Best

/-- What `main` says about the candidate in one file. -/
def compareCandidate (ref : Description) (candidate : Str × Bytes) :
    Except PyError Comparison := do
  let cand ← describe candidate.2
  return compareTrees ref candidate.1 cand

/-- `main` on the contents of the reference and the candidates. -/
def compareMain (reference : Bytes) (candidates : List (Str × Bytes)) :
    Except PyError CompareReport := do
  let ref ← describe reference
  let progress ← candidates.foldlM (fun (progress : Progress) candidate => do
    let c ← compareCandidate ref candidate
    return progress.keep c) ⟨[], none⟩
  return ⟨ref, progress.comparisons,
    if 1 < candidates.length then progress.best else none⟩

/-! ### A run -/

/-- The comparisons are collected in order, beside the search for the best one. -/
theorem foldl_keep (cs : List Comparison) (p : Progress) :
    cs.foldl Progress.keep p = ⟨p.comparisons ++ cs, cs.foldl keepBest p.best⟩ := by
  induction cs generalizing p with
  | nil => rw [List.foldl_nil, List.foldl_nil, List.append_nil]
  | cons c cs ih =>
      rw [List.foldl_cons, ih, List.foldl_cons]
      simp only [Progress.keep, List.append_assoc, List.singleton_append]

/-- **The running best** is the first minimum. -/
theorem foldl_keepBest (cs : List Comparison) :
    cs.foldl keepBest none =
      (cs.argmin fun c => c.meaningful.card).map Comparison.toBest := by
  induction cs using List.reverseRecOn with
  | nil => rfl
  | append_singleton cs c ih =>
      rw [List.foldl_append, ih, List.argmin_concat, List.foldl_cons, List.foldl_nil]
      cases cs.argmin fun c => c.meaningful.card with
      | none => rfl
      | some b =>
          exact (apply_ite (Option.map Comparison.toBest) (c.meaningful.card < b.meaningful.card)
            (some c) (some b)).symm

/-- **A run** describes the reference and then every candidate. -/
theorem compareMain_eq_ok_iff {reference : Bytes} {candidates : List (Str × Bytes)}
    {report : CompareReport} :
    compareMain reference candidates = .ok report ↔
      describe reference = .ok report.reference ∧
      candidates.mapM (compareCandidate report.reference) = .ok report.comparisons ∧
      report.closest = if 1 < candidates.length then
        (report.comparisons.argmin fun c => c.meaningful.card).map Comparison.toBest
        else none := by
  rw [compareMain]
  simp only [bind_eq_ok, foldlM_eq_ok_iff]
  constructor
  · rintro ⟨ref, href, progress, ⟨cs, hcs, rfl⟩, h⟩
    cases h
    rw [foldl_keep, List.nil_append, foldl_keepBest]
    exact ⟨href, hcs, rfl⟩
  · rintro ⟨href, hcs, hclosest⟩
    refine ⟨report.reference, href, _, ⟨report.comparisons, hcs, rfl⟩, ?_⟩
    rw [foldl_keep, List.nil_append, foldl_keepBest, ← hclosest]
    rfl

/-! ### What the sets say about two files -/

/-- The value that `compare-dtb.py` has under a key. -/
def lastValue (key : Str) (rs : List Record) : Option Bytes :=
  (lastRecord key rs).map Record.value

section

variable {data reference : Bytes} {header : Header} {toks : List Token} {rs rs' : List Record}
  {ref : Description} {path key : Str} {c : Comparison}

/-- What is said of a file with these properties. -/
def describeRecords (rs : List Record) : Description :=
  describeProps (setAll Dict.empty (rs.map Record.keyed))

/-- A file is described by its properties. -/
theorem describe_eq_ok_iff (h : Reads data header toks rs) :
    describe data = .ok ref ↔ ref = describeRecords rs := by
  have hparse := (compareParse_ok_iff data _).mpr ⟨header, toks, rs, h, rfl⟩
  rw [describe, hparse, ok_bind]
  exact ⟨fun h => (Except.ok.inj h).symm, fun h => congrArg _ h.symm⟩

/-- A candidate that can be read is compared by its records. -/
theorem compareCandidate_eq_ok_iff (h : Reads data header toks rs) :
    compareCandidate ref (path, data) = .ok c ↔ c = compareTrees ref path (describeRecords rs) := by
  rw [compareCandidate, bind_eq_ok]
  simp only [describe_eq_ok_iff h, exists_eq_left]
  exact ⟨fun h => (Except.ok.inj h).symm, fun h => congrArg _ h.symm⟩

/-- A key has the value of the last record with that key. -/
theorem describeRecords_get? (rs : List Record) (key : Str) :
    (describeRecords rs).props.get? key = lastValue key rs :=
  compare_get? rs key

/-- The properties of the reference that the candidate does not have. -/
theorem mem_onlyRef :
    key ∈ (compareTrees (describeRecords rs) path (describeRecords rs')).onlyRef ↔
      (∃ v, lastValue key rs = some v) ∧ lastValue key rs' = none := by
  rw [compareTrees, Dict.mem_onlyIn, describeRecords_get?, describeRecords_get?]

/-- The properties of the candidate that the reference does not have. -/
theorem mem_onlyCand :
    key ∈ (compareTrees (describeRecords rs) path (describeRecords rs')).onlyCand ↔
      (∃ v, lastValue key rs' = some v) ∧ lastValue key rs = none := by
  rw [compareTrees, Dict.mem_onlyIn, describeRecords_get?, describeRecords_get?]

/-- The meaningful changes. -/
theorem mem_meaningful :
    key ∈ (compareTrees (describeRecords rs) path (describeRecords rs')).meaningful ↔
      (∃ v w, lastValue key rs = some v ∧ lastValue key rs' = some w ∧ v ≠ w) ∧
        isNoise key = false := by
  rw [compareTrees, Finset.mem_filter, Dict.mem_changed, describeRecords_get?,
    describeRecords_get?]

/-- A run on files that can be read succeeds. -/
theorem exists_compareMain {candidates : List (Str × Bytes)}
    (href : Reads reference header toks rs)
    (hcands : ∀ x ∈ candidates, ∃ header toks rs, Reads x.2 header toks rs) :
    ∃ report, compareMain reference candidates = .ok report := by
  have hcs : ∀ x ∈ candidates, ∃ c, compareCandidate (describeRecords rs) x = .ok c := by
    intro x hx
    obtain ⟨header', toks', rs', hcand⟩ := hcands x hx
    exact ⟨_, (compareCandidate_eq_ok_iff hcand).mpr rfl⟩
  obtain ⟨cs, hcs⟩ := exists_mapM_eq_ok.mpr hcs
  exact ⟨⟨describeRecords rs, cs, if 1 < candidates.length then
      (cs.argmin fun c => c.meaningful.card).map Comparison.toBest else none⟩,
    compareMain_eq_ok_iff.mpr ⟨(describe_eq_ok_iff href).mpr rfl, hcs, rfl⟩⟩

/-- What a run says about the candidate at an index. -/
theorem comparison_at {candidates : List (Str × Bytes)} {report : CompareReport} {i : ℕ}
    (hrun : compareMain reference candidates = .ok report)
    (href : Reads reference header toks rs) (hi : candidates[i]? = some (path, data))
    {header' : Header} {toks' : List Token} (hcand : Reads data header' toks' rs') :
    report.comparisons[i]? =
      some (compareTrees (describeRecords rs) path (describeRecords rs')) := by
  obtain ⟨hreference, hcomparisons, -⟩ := compareMain_eq_ok_iff.mp hrun
  rw [describe_eq_ok_iff href] at hreference
  obtain ⟨c, hget, hc⟩ := getElem?_of_mapM_eq_ok hcomparisons hi
  rw [compareCandidate_eq_ok_iff hcand, hreference] at hc
  rw [hget, hc]

/-- A run on one candidate. -/
theorem exists_compareMain_single (href : Reads reference header toks rs) {header' : Header}
    {toks' : List Token} (hcand : Reads data header' toks' rs') (path : Str) :
    ∃ report, compareMain reference [(path, data)] = .ok report ∧
      report.comparisons[0]? =
        some (compareTrees (describeRecords rs) path (describeRecords rs')) := by
  have hcands : ∀ x ∈ [(path, data)], ∃ header toks rs, Reads x.2 header toks rs :=
    List.forall_mem_singleton.mpr ⟨header', toks', rs', hcand⟩
  obtain ⟨report, hrun⟩ := exists_compareMain href hcands
  exact ⟨report, hrun, comparison_at hrun href rfl hcand⟩

end

end Fdt

end Msm8998
