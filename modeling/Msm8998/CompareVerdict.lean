import Msm8998.CompareDtb
import Msm8998.FdtWriter

/-!
# The Verdict of the Comparison

`compare-dtb.py` calls a candidate the same hardware variant when no property that both trees
have differs, phandles apart. It counts the properties that only one of the trees has, but the
verdict does not look at them.

A property is a node path, a name and a value. The tool looks at the keys, in which path and
name are joined, so two properties of a tree can share a key and a name can end like a
phandle's. `KeyTells` is what is otherwise the case.

## Main results

* `mem_of_keyTells`: a property that its key tells apart is in the other tree, if its name is;
* `sameVariant_sound_iff`: when the verdict is right.
-/

open Fallible OrderedDict

namespace Msm8998

namespace Fdt

/-- The names of the properties that number the nodes. -/
def IsPhandle (name : Str) : Prop := name = "phandle".toList ∨ name = "linux,phandle".toList

instance (name : Str) : Decidable (IsPhandle name) := inferInstanceAs (Decidable (_ ∨ _))

/-- Apart from phandles, each tree has every property of the other, with the same bytes. -/
def SameApartFromPhandles (rs rs' : List Record) : Prop :=
  ∀ r : Record, ¬ IsPhandle r.name → (r ∈ rs ↔ r ∈ rs')

/-- Apart from phandles, the trees have the same properties, whatever the bytes. -/
def SameNames (rs rs' : List Record) : Prop :=
  ∀ node name, ¬ IsPhandle name →
    ((∃ value, (⟨node, name, value⟩ : Record) ∈ rs) ↔ ∃ value, ⟨node, name, value⟩ ∈ rs')

/-- No two properties of the tree have this key. -/
def Sole (key : Str) (rs : List Record) : Prop :=
  ∀ r ∈ rs, ∀ r' ∈ rs, r.key = key → r'.key = key → r = r'

/-- The key of a property is not that of another one, and does not end like a phandle's. -/
def KeyTells (rs rs' : List Record) (r : Record) : Prop :=
  Sole r.key rs ∧ Sole r.key rs' ∧ isNoise r.key = false

/-- The properties that their keys do not tell are the same, with the same bytes. -/
def SameUntold (rs rs' : List Record) : Prop :=
  ∀ r : Record, ¬ IsPhandle r.name → ¬ KeyTells rs rs' r → (r ∈ rs ↔ r ∈ rs')

/-- No key that both trees have, and that is not noise, has two different values. -/
def NoMeaningfulChange (rs rs' : List Record) : Prop :=
  ∀ key v w, isNoise key = false → lastValue key rs = some v → lastValue key rs' = some w → v = w

variable {rs rs' : List Record} {r : Record} {key : Str}

/-- A property that alone has its key is the one the tool looks at. -/
theorem lastRecord_of_sole (hr : r ∈ rs) (hsole : Sole r.key rs) :
    lastRecord r.key rs = some r := by
  have hsome : (lastRecord r.key rs).isSome = true := by
    rw [lastRecord, lastWith?_isSome, List.any_eq_true]
    exact ⟨r, hr, decide_eq_true rfl⟩
  obtain ⟨r', hr'⟩ := Option.isSome_iff_exists.mp hsome
  obtain ⟨hmem, hkey⟩ := mem_of_lastWith? hr'
  rw [hr', hsole r' hmem r hr (of_decide_eq_true hkey) rfl]

/-- The order of the two files does not matter. -/
theorem NoMeaningfulChange.symm (h : NoMeaningfulChange rs rs') : NoMeaningfulChange rs' rs :=
  fun key v w hkey hv hw => (h key w v hkey hw hv).symm

/-- A property whose key tells it apart, in a tree that has the same names. -/
theorem mem_of_keyTells (hsame : NoMeaningfulChange rs rs') (hr : r ∈ rs)
    (hkey : KeyTells rs rs' r) {value : Bytes} (hname : ⟨r.node, r.name, value⟩ ∈ rs') :
    r ∈ rs' := by
  obtain ⟨hsole, hsole', hnoise⟩ := hkey
  have hlast := lastRecord_of_sole hr hsole
  have hlast' : lastRecord r.key rs' = some ⟨r.node, r.name, value⟩ :=
    lastRecord_of_sole hname hsole'
  have hvalue : r.value = value := by
    refine hsame r.key r.value value hnoise ?_ ?_
    · rw [lastValue, hlast, Option.map_some]
    · rw [lastValue, hlast', Option.map_some]
  rw [← hvalue] at hname
  exact hname

/-- Without meaningful changes, the trees are the same when they have the same names, as far
as the keys tell. -/
theorem sameApartFromPhandles_iff (hsame : NoMeaningfulChange rs rs') :
    SameApartFromPhandles rs rs' ↔ SameNames rs rs' ∧ SameUntold rs rs' := by
  constructor
  · intro h
    refine ⟨fun node name hname => ?_, fun r hr _ => h r hr⟩
    exact exists_congr fun value => h ⟨node, name, value⟩ hname
  · rintro ⟨hnames, hother⟩ r hr
    by_cases hkey : KeyTells rs rs' r
    · constructor
      · intro hmem
        obtain ⟨value, hvalue⟩ := (hnames r.node r.name hr).mp ⟨r.value, hmem⟩
        exact mem_of_keyTells hsame hmem hkey hvalue
      · intro hmem
        obtain ⟨value, hvalue⟩ := (hnames r.node r.name hr).mpr ⟨r.value, hmem⟩
        exact mem_of_keyTells hsame.symm hmem ⟨hkey.2.1, hkey.1, hkey.2.2⟩ hvalue
    · exact hother r hr hkey

/-- The verdict is that of the records. -/
theorem sameVariant_iff {path : Str} :
    (compareTrees (describeRecords rs) path (describeRecords rs')).sameVariant = true ↔
      NoMeaningfulChange rs rs' := by
  rw [Comparison.sameVariant, decide_eq_true_eq, Finset.eq_empty_iff_forall_notMem]
  simp only [mem_meaningful, NoMeaningfulChange]
  constructor
  · intro h key v w hnoise hv hw
    by_contra hne
    exact h key ⟨⟨v, w, hv, hw, hne⟩, hnoise⟩
  · rintro h key ⟨⟨v, w, hv, hw, hne⟩, hnoise⟩
    exact hne (h key v w hnoise hv hw)

/-- **The verdict.** A run on files that can be read says something of every candidate, and what
it says is right exactly when there is a meaningful change, so that it is not called the same
variant, or the trees have the same properties by name, and with the same bytes where the keys do
not tell them. -/
theorem sameVariant_sound_iff (reference : Bytes) (candidates : List (Str × Bytes))
    (header : Header) (toks : List Token) (rs : List Record)
    (href : Reads reference header toks rs)
    (hcands : ∀ x ∈ candidates, ∃ header toks rs, Reads x.2 header toks rs) :
    ∃ report, compareMain reference candidates = .ok report ∧
      ∀ (i : ℕ) path data header' toks' rs', candidates[i]? = some (path, data) →
        Reads data header' toks' rs' → ∃ c : Comparison, report.comparisons[i]? = some c ∧
          ((c.sameVariant = true → SameApartFromPhandles rs rs') ↔
            ¬ NoMeaningfulChange rs rs' ∨ (SameNames rs rs' ∧ SameUntold rs rs')) := by
  obtain ⟨report, hrun⟩ := exists_compareMain href hcands
  refine ⟨report, hrun, fun i path data header' toks' rs' hi hcand => ?_⟩
  refine ⟨_, comparison_at hrun href hi hcand, ?_⟩
  rw [sameVariant_iff]
  by_cases hsame : NoMeaningfulChange rs rs'
  · rw [sameApartFromPhandles_iff hsame, or_iff_right (not_not.mpr hsame)]
    exact ⟨fun h => h hsame, fun h _ => h⟩
  · exact iff_of_true (fun h => absurd h hsame) (.inl hsame)

/-! ### A tree without its memory -/

/-- A tree whose only node may have properties. -/
def memoryTree (props : List (Str × Bytes)) : DeviceTree where
  props := []
  children := .cons "memory".toList props .none .none
  wellFormed := ⟨by decide, by decide, by decide, trivial, trivial⟩

/-- One bank. -/
def memoryReg : List (Str × Bytes) := [("reg".toList, [0x80, 0, 0, 0])]

/-- The file of the tree with a memory region is a serialisation of it. -/
theorem serialises_memoryReg : Serialises (memoryTree memoryReg) (memoryTree memoryReg).file :=
  serialises_file (by decide) (by decide +kernel)

/-- So is that of the tree without one. -/
theorem serialises_noMemory : Serialises (memoryTree []) (memoryTree []).file :=
  serialises_file (by decide) (by decide +kernel)

/-- A candidate without the memory banks of the reference is called the same variant. -/
theorem missingMemory_sameVariant : ∃ report c,
    compareMain (memoryTree memoryReg).file [("a.dtb".toList, (memoryTree []).file)] =
      .ok report ∧
    report.comparisons[0]? = some c ∧ c.sameVariant = true ∧
    ¬ SameApartFromPhandles ((memoryTree memoryReg).root.records [])
      ((memoryTree []).root.records []) := by
  obtain ⟨header, toks, href, -⟩ := reads_of_serialises serialises_memoryReg
  obtain ⟨header', toks', hcand, -⟩ := reads_of_serialises serialises_noMemory
  obtain ⟨report, hrun, hc⟩ := exists_compareMain_single href hcand "a.dtb".toList
  refine ⟨report, _, hrun, hc, sameVariant_iff.mpr ?_, fun h => ?_⟩
  · intro key v w _ _ hw
    cases hw
  · have hmem := (h ⟨"/memory".toList, "reg".toList, [0x80, 0, 0, 0]⟩ (by decide)).mp
      (by decide +kernel)
    cases hmem

/-- The criterion for that run. -/
theorem sameVariant_sound_missingMemory : ∃ report c,
    compareMain (memoryTree memoryReg).file [("a.dtb".toList, (memoryTree []).file)] =
      .ok report ∧
    report.comparisons[0]? = some c ∧
    ((c.sameVariant = true → SameApartFromPhandles ((memoryTree memoryReg).root.records [])
        ((memoryTree []).root.records [])) ↔
      ¬ NoMeaningfulChange ((memoryTree memoryReg).root.records [])
        ((memoryTree []).root.records []) ∨
      (SameNames ((memoryTree memoryReg).root.records []) ((memoryTree []).root.records []) ∧
        SameUntold ((memoryTree memoryReg).root.records [])
          ((memoryTree []).root.records []))) := by
  obtain ⟨header, toks, href, -⟩ := reads_of_serialises serialises_memoryReg
  obtain ⟨header', toks', hcand, -⟩ := reads_of_serialises serialises_noMemory
  obtain ⟨report, hrun, hverdict⟩ := sameVariant_sound_iff _ [("a.dtb".toList, _)] _ _ _ href
    (List.forall_mem_singleton.mpr ⟨_, _, _, hcand⟩)
  obtain ⟨c, hc, hsound⟩ := hverdict 0 _ _ _ _ _ rfl hcand
  exact ⟨report, c, hrun, hc, hsound⟩

end Fdt

end Msm8998
