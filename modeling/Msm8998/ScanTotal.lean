import Msm8998.ScanBootImage

/-!
# When the Scan Comes to Its End

The three searches never fail. What can stop `main` of `scan-boot-image.py` before the device
trees are listed is the boot header, whose fixed offsets are read without a look at the length
of the file, and the entries of a table, whose plausibility test counts records of the declared
size while 24 bytes of each are read.

## Main results

* `parseBootHeader_isOk`, `dtTableEntries_isOk`: when each of the two succeeds;
* `scan_isOk`: when the scan comes to its end.
-/

open Fallible LittleEndian Occurrences

namespace Msm8998

namespace BootImage

open Fdt (Bytes)

variable {data : Bytes} {table : DtTable}

/-! ### The boot header -/

/-- Where the magic number stands, the file is long enough for the version it declares. -/
def HeaderComplete (data : Bytes) : Prop :=
  data.take 8 = bootMagic → 48 ≤ data.length ∧
    ∀ version, readWord 4 data 40 = some version →
      (1 ≤ version → 1644 ≤ data.length) ∧ (2 ≤ version → 1656 ≤ data.length)

/-- The header can be unpacked from 48 bytes on. -/
theorem unpackHeader_isOk :
    (∃ header, unpackHeader data = .ok header) ↔ 48 ≤ data.length := by
  rw [show 48 = 8 + 4 * 10 from rfl, ← readWords_isSome (by omega), Option.isSome_iff_exists]
  constructor
  · rintro ⟨header, h⟩
    exact ⟨_, unpackHeader_eq_ok.mp h⟩
  · rintro ⟨ws, h⟩
    match ws, readWords_length h with
    | [a, b, c, d, e, f, g, i, j, k], _ =>
        exact ⟨⟨a, b, c, d, e, f, g, i, j, k⟩, unpackHeader_eq_ok.mpr h⟩

/-- The header version is the ninth word. -/
theorem readWord_headerVersion {header : Header} (h : unpackHeader data = .ok header) :
    readWord 4 data 40 = some header.headerVersion :=
  readWord_of_readWords (unpackHeader_eq_ok.mp h) (i := 8) (by omega)

/-- The fields about the recovery image can be read from 1644 bytes on. -/
theorem reportedRecoveryDtbo_isOk :
    (∃ r, reportedRecoveryDtbo data = .ok r) ↔ 1644 ≤ data.length := by
  rw [show 1644 = 1632 + 4 * 3 from rfl, ← readWords_isSome (by omega),
    Option.isSome_iff_exists, reportedRecoveryDtbo]
  constructor
  · rintro ⟨r, h⟩
    split at h
    · rename_i hread
      exact ⟨_, hread⟩
    · cases h
  · rintro ⟨ws, h⟩
    match ws, readWords_length h with
    | [a, b, c], _ => exact ⟨(a, b), by rw [h]⟩

/-- Those about the device tree from 1656 bytes on. -/
theorem reportedDtb_isOk : (∃ r, reportedDtb data = .ok r) ↔ 1656 ≤ data.length := by
  rw [show 1656 = 1648 + 4 * 2 from rfl, ← readWords_isSome (by omega),
    Option.isSome_iff_exists, reportedDtb]
  constructor
  · rintro ⟨r, h⟩
    split at h
    · rename_i hread
      exact ⟨_, hread⟩
    · cases h
  · rintro ⟨ws, h⟩
    match ws, readWords_length h with
    | [a, b], _ => exact ⟨(a, b), by rw [h]⟩

/-- A part that is not asked for does not fail. -/
theorem reportIf_isOk {α : Type} {p : Prop} [Decidable p] {part : Except ToolError α} :
    (∃ r, reportIf p part = .ok r) ↔ (p → ∃ a, part = .ok a) := by
  rw [reportIf]
  by_cases hp : p
  · rw [if_pos hp]
    cases part with
    | ok a => exact iff_of_true ⟨_, rfl⟩ fun _ => ⟨a, rfl⟩
    | error e => exact iff_of_false (by rintro ⟨r, h⟩; cases h) (by simp [hp])
  · rw [if_neg hp]
    exact iff_of_true ⟨none, rfl⟩ fun h => absurd h hp

/-- **The boot header** is reported exactly when it is complete or there is none. -/
theorem parseBootHeader_isOk :
    (∃ report, parseBootHeader data = .ok report) ↔ HeaderComplete data := by
  rw [parseBootHeader, HeaderComplete]
  by_cases hmagic : data.take 8 = bootMagic
  · rw [if_neg (not_not.mpr hmagic)]
    simp only [hmagic, true_imp_iff]
    rw [← unpackHeader_isOk]
    constructor
    · rintro ⟨report, h⟩
      obtain ⟨header, hheader, h⟩ := bind_eq_ok.mp h
      obtain ⟨dtbo, hdtbo, h⟩ := bind_eq_ok.mp h
      obtain ⟨dtb, hdtb, -⟩ := bind_eq_ok.mp h
      refine ⟨⟨header, hheader⟩, fun version hversion => ?_⟩
      rw [readWord_headerVersion hheader, Option.some.injEq] at hversion
      subst hversion
      rw [← reportedRecoveryDtbo_isOk, ← reportedDtb_isOk]
      exact ⟨reportIf_isOk.mp ⟨dtbo, hdtbo⟩, reportIf_isOk.mp ⟨dtb, hdtb⟩⟩
    · rintro ⟨⟨header, hheader⟩, hlong⟩
      have hversion := hlong header.headerVersion (readWord_headerVersion hheader)
      rw [← reportedRecoveryDtbo_isOk, ← reportedDtb_isOk] at hversion
      obtain ⟨dtbo, hdtbo⟩ : ∃ r, reportIf (header.headerVersion ≥ 1) (reportedRecoveryDtbo data) =
          .ok r := reportIf_isOk.mpr hversion.1
      obtain ⟨dtb, hdtb⟩ : ∃ r, reportIf (header.headerVersion ≥ 2) (reportedDtb data) = .ok r :=
        reportIf_isOk.mpr hversion.2
      simp only [hheader, ok_bind, hdtbo, hdtb]
      exact ⟨_, rfl⟩
  · rw [if_pos hmagic]
    exact iff_of_true ⟨none, rfl⟩ fun h => absurd h hmagic

/-! ### The entries of a table -/

/-- Every record that is read lies inside the file. -/
def EntriesInside (data : Bytes) (table : DtTable) : Prop :=
  ∀ i < table.entryCount, table.entryOffset i + 24 ≤ data.length

/-- An entry of a table can be read if it lies in the data. -/
theorem dtTableEntry_isOk {i : ℕ} :
    (∃ entry, dtTableEntry data table i = .ok entry) ↔ table.entryOffset i + 24 ≤ data.length := by
  rw [show table.entryOffset i + 24 = table.entryOffset i + 4 * 6 from rfl,
    ← readWords_isSome (by omega), Option.isSome_iff_exists]
  simp only [dtTableEntry_eq_ok]
  constructor
  · rintro ⟨entry, h⟩
    exact ⟨_, h⟩
  · rintro ⟨ws, h⟩
    match ws, readWords_length h with
    | [a, b, c, d, e, f], _ => exact ⟨⟨a, b, c, d, e, f⟩, h⟩

/-- **The entries** can be listed exactly when all of them lie inside the file. -/
theorem dtTableEntries_isOk :
    (∃ entries, dtTableEntries data table = .ok entries) ↔ EntriesInside data table := by
  rw [dtTableEntries, exists_mapM_eq_ok]
  simp only [List.mem_range, dtTableEntry_isOk, EntriesInside]

/-- The last record decides. -/
theorem entriesInside_iff (hcount : 0 < table.entryCount) :
    EntriesInside data table ↔ table.entryOffset (table.entryCount - 1) + 24 ≤ data.length := by
  constructor
  · intro h
    exact h (table.entryCount - 1) (by omega)
  · intro h i hi
    have hmono : i * table.entrySize ≤ (table.entryCount - 1) * table.entrySize :=
      Nat.mul_le_mul_right _ (by omega)
    rw [DtTable.entryOffset] at h ⊢
    omega

/-! ### The scan -/

/-- **The scan** comes to its end, with every record of an accepted table inside the file,
exactly when the boot header is complete and the last record of each table that looks plausible
lies inside the file. -/
theorem scan_isOk (data : Bytes) :
    (∃ report, scan data = .ok report ∧ findFdts data = .ok report.fdts ∧
      ∀ tables, findDtTables data = .ok tables → ∀ table ∈ tables, EntriesInside data table) ↔
    HeaderComplete data ∧ ∀ table, TableAt data table →
      table.entryOffset (table.entryCount - 1) + 24 ≤ data.length := by
  obtain ⟨tables, htables⟩ : ∃ tables, findDtTables data = .ok tables :=
    ⟨_, findDtTables_eq data⟩
  have hinside : (∀ table, TableAt data table →
      table.entryOffset (table.entryCount - 1) + 24 ≤ data.length) ↔
      ∀ table ∈ tables, EntriesInside data table := by
    refine forall_congr' fun table => ?_
    rw [mem_dtTables htables]
    refine imp_congr_right fun htable => ?_
    rw [entriesInside_iff htable.isPlausible.2.2.1.1]
  rw [hinside, ← parseBootHeader_isOk]
  constructor
  · rintro ⟨report, hscan, -, hentries⟩
    obtain ⟨header, hheader, -⟩ := bind_eq_ok.mp hscan
    exact ⟨⟨header, hheader⟩, hentries tables htables⟩
  · rintro ⟨⟨header, hheader⟩, hentries⟩
    have hall : ∀ table ∈ tables, ∃ listed, listTable data table = .ok listed := by
      intro table htable
      obtain ⟨entries, hlist⟩ := dtTableEntries_isOk.mpr (hentries table htable)
      exact ⟨_, bind_eq_ok.mpr ⟨entries, hlist, rfl⟩⟩
    obtain ⟨listed, hlisted⟩ := exists_mapM_eq_ok.mpr hall
    obtain ⟨qcdt, hqcdt⟩ : ∃ qcdt, findQcdt data = .ok qcdt := ⟨_, findQcdt_eq data⟩
    obtain ⟨fdts, hfdts⟩ : ∃ fdts, findFdts data = .ok fdts := ⟨_, findFdts_eq data⟩
    refine ⟨⟨header, qcdt, listed, fdts⟩, ?_, hfdts, ?_⟩
    · simp only [scan, hheader, hqcdt, htables, hlisted, hfdts, ok_bind]
      rfl
    · intro tables' htables'
      rw [htables, Except.ok.injEq] at htables'
      rwa [← htables']

/-- A file that ends behind the magic number stops the scan. -/
theorem scan_bootMagic : scan bootMagic = .error .structError := rfl

end BootImage

end Msm8998
