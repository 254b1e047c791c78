import Msm8998.ScanBootImage

/-!
# The Searches of a Scan Are Complete and Exact

The three searches of `scan-boot-image.py` move four bytes on behind each hit. Their magic
numbers have four distinct bytes, so no two occurrences overlap and none is skipped; what is
left is that the test at each hit is the one meant.

## Main results

* `fdtAt_eq`: one pass of `find_fdts`.
* `searches_exact`: what each search returns, and in which order.
-/

open Fallible Occurrences

namespace Msm8998

namespace BootImage

open Fdt (Bytes)

variable {data : Bytes} {pos : ℕ}

/-- A header of a flattened device tree stands at an offset, with this total size and version:
there is room for its 40 bytes, the tree lies inside the file, and its last compatible version
is not after its version. -/
structure FdtHeaderAt (data : Bytes) (pos totalsize version : ℕ) : Prop where
  room : pos + 40 ≤ data.length
  totalsize_eq : Fdt.wordAt data (pos + 4) = .ok totalsize
  version_eq : Fdt.wordAt data (pos + 20) = .ok version
  compatible : ∃ lastcomp, Fdt.wordAt data (pos + 24) = .ok lastcomp ∧ lastcomp ≤ version
  le_totalsize : 40 ≤ totalsize
  inside : pos + totalsize ≤ data.length

/-- The words are those that stand one behind the other. -/
theorem wordAt_of_unpackBig {k j w : ℕ} {ws : List ℕ} (h : unpackBig k data pos = .ok ws)
    (hj : ws[j]? = some w) : Fdt.wordAt data (pos + 4 * j) = .ok w := by
  induction k generalizing pos j ws with
  | zero =>
      cases h
      cases hj
  | succ k ih =>
      rw [unpackBig] at h
      cases hword : Fdt.wordAt data pos with
      | error e =>
          rw [hword] at h
          cases h
      | ok first =>
          rw [hword] at h
          obtain ⟨rest, hrest, h⟩ := bind_eq_ok.mp h
          cases h
          cases j with
          | zero =>
              cases hj
              exact hword
          | succ j =>
              have hnext := ih hrest hj
              rwa [Nat.add_assoc, Nat.add_comm 4, ← Nat.mul_succ] at hnext

/-- **One pass of `find_fdts`** reports the header that stands there, if it passes the test. -/
theorem fdtAt_eq (data : Bytes) (pos : ℕ) : ∃ found, fdtAt data pos = .ok found ∧
    found.length ≤ 1 ∧ ∀ p totalsize version, (p, totalsize, version) ∈ found ↔
      p = pos ∧ FdtHeaderAt data pos totalsize version := by
  rw [fdtAt]
  split
  · rename_i hroom
    obtain ⟨ws, hws, hlen⟩ := unpackBig_isOk (by omega : pos + 4 * 7 ≤ data.length)
    obtain ⟨magic, totalsize, offStruct, offStrings, offRsvmap, version, lastcomp, rfl⟩ :=
      exists_of_length_eq_seven hlen
    have hsize := wordAt_of_unpackBig (j := 1) hws rfl
    have hversion := wordAt_of_unpackBig (j := 5) hws rfl
    have hlast := wordAt_of_unpackBig (j := 6) hws rfl
    have hheader : ∀ size ver, FdtHeaderAt data pos size ver ↔ (size = totalsize ∧ ver = version) ∧
        (totalsize ≥ 40 ∧ pos + totalsize ≤ data.length ∧ lastcomp ≤ version) := by
      intro size ver
      constructor
      · intro h
        obtain rfl := Except.ok.inj (h.totalsize_eq.symm.trans hsize)
        obtain rfl := Except.ok.inj (h.version_eq.symm.trans hversion)
        obtain ⟨last, hlast', hle⟩ := h.compatible
        obtain rfl := Except.ok.inj (hlast'.symm.trans hlast)
        exact ⟨⟨rfl, rfl⟩, h.le_totalsize, h.inside, hle⟩
      · rintro ⟨⟨rfl, rfl⟩, hle, hinside, hcompatible⟩
        exact ⟨hroom, hsize, hversion, ⟨lastcomp, hlast, hcompatible⟩, hle, hinside⟩
    rw [hws]
    dsimp only
    split
    · rename_i htest
      refine ⟨_, rfl, Nat.le_refl 1, fun p size ver => ?_⟩
      rw [List.mem_singleton, Prod.mk.injEq, Prod.mk.injEq, hheader, and_iff_left htest]
    · rename_i htest
      refine ⟨[], rfl, Nat.zero_le 1, fun p size ver => ?_⟩
      rw [hheader]
      exact iff_of_false List.not_mem_nil fun h => htest h.2.2
  · rename_i hroom
    refine ⟨[], rfl, Nat.zero_le 1, fun p size ver => ?_⟩
    exact iff_of_false List.not_mem_nil fun h => hroom h.2.room

/-! ### The order of what is found -/

/-- What is added at increasing places, at most one thing at each, is in increasing order. -/
theorem pairwise_added {α : Type} {places : List ℕ} {body : ℕ → Except ToolError (List α)}
    {offset : α → ℕ} (hplaces : places.Pairwise (· < ·))
    (hone : ∀ i, (added (body i)).length ≤ 1) (hoffset : ∀ i, ∀ a ∈ added (body i), offset a = i) :
    ((places.flatMap fun i => added (body i)).map offset).Pairwise (· < ·) := by
  rw [List.pairwise_map, List.pairwise_flatMap]
  refine ⟨fun i _ => ?_, hplaces.imp fun hlt a ha b hb => ?_⟩
  · match hadded : added (body i), hone i with
    | [], _ => exact List.Pairwise.nil
    | [a], _ => exact List.pairwise_singleton _ a
  · rw [hoffset _ a ha, hoffset _ b hb]
    exact hlt

/-- One pass of `find_dt_tables` reports one table at most. -/
theorem added_dtTableAt_length (data : Bytes) (pos : ℕ) :
    (added (dtTableAt data pos)).length ≤ 1 := by
  rw [dtTableAt]
  split
  · split
    · dsimp only
      split
      · exact Nat.le_refl 1
      · exact Nat.zero_le 1
    · exact Nat.zero_le 1
  · exact Nat.zero_le 1

/-- A tree is found when its magic and a header stand at its offset. -/
theorem mem_findFdts {fdts : List (ℕ × ℕ × ℕ)} (h : findFdts data = .ok fdts)
    (p totalsize version : ℕ) : (p, totalsize, version) ∈ fdts ↔
      OccursAt fdtMagicBytes data p ∧ FdtHeaderAt data p totalsize version := by
  rw [findFdts_eq] at h
  cases h
  rw [List.mem_flatMap]
  constructor
  · rintro ⟨i, hi, hmem⟩
    obtain ⟨found, hfound, -, hspec⟩ := fdtAt_eq data i
    rw [added, hfound] at hmem
    obtain ⟨rfl, hheader⟩ := (hspec p totalsize version).mp hmem
    exact ⟨((mem_occurrences (by decide)).mp hi).2, hheader⟩
  · rintro ⟨hocc, hheader⟩
    obtain ⟨found, hfound, -, hspec⟩ := fdtAt_eq data p
    refine ⟨p, (mem_occurrences (by decide)).mpr ⟨Nat.zero_le p, hocc⟩, ?_⟩
    rw [added, hfound]
    exact (hspec p totalsize version).mpr ⟨rfl, hheader⟩

/-- The device trees are found in increasing order. -/
theorem findFdts_pairwise {fdts : List (ℕ × ℕ × ℕ)} (h : findFdts data = .ok fdts) :
    (fdts.map Prod.fst).Pairwise (· < ·) := by
  rw [findFdts_eq] at h
  cases h
  refine pairwise_added (occurrences_pairwise _ _ _) (fun i => ?_) fun i a ha => ?_
  · obtain ⟨found, hfound, hone, -⟩ := fdtAt_eq data i
    rw [added, hfound]
    exact hone
  · obtain ⟨found, hfound, -, hspec⟩ := fdtAt_eq data i
    rw [added, hfound] at ha
    exact ((hspec a.1 a.2.1 a.2.2).mp ha).1

/-- **The searches** return, on every file and in strictly increasing order, exactly the
occurrences of their magic numbers that pass their tests. -/
theorem searches_exact (data : Bytes) : ∃ fdts qcdt tables,
    findFdts data = .ok fdts ∧ findQcdt data = .ok qcdt ∧ findDtTables data = .ok tables ∧
    ((fdts.map Prod.fst).Pairwise (· < ·) ∧ ∀ p totalsize version,
      (p, totalsize, version) ∈ fdts ↔
        OccursAt fdtMagicBytes data p ∧ FdtHeaderAt data p totalsize version) ∧
    (qcdt.Pairwise (· < ·) ∧ ∀ p, p ∈ qcdt ↔ OccursAt qcdtMagicBytes data p) ∧
    ((tables.map DtTable.offset).Pairwise (· < ·) ∧ ∀ table,
      table ∈ tables ↔ TableAt data table) := by
  refine ⟨_, _, _, findFdts_eq data, findQcdt_eq data, findDtTables_eq data,
    ⟨findFdts_pairwise (findFdts_eq data), mem_findFdts (findFdts_eq data)⟩, ⟨?_, ?_⟩, ?_, ?_⟩
  · rw [List.flatMap_singleton']
    exact occurrences_pairwise _ _ _
  · intro p
    rw [List.flatMap_singleton', mem_occurrences (by decide), and_iff_right (Nat.zero_le p)]
  · refine pairwise_added (occurrences_pairwise _ _ _) (added_dtTableAt_length data) ?_
    intro i a ha
    obtain ⟨found, hfound, hspec⟩ := dtTableAt_eq data i
    rw [added, hfound] at ha
    exact ((hspec a).mp ha).1
  · exact mem_dtTables (findDtTables_eq data)

end BootImage

end Msm8998
