import Msm8998.ScanBootImage

/-!
# Device Tree Tables inside a File

A device tree table counts the offsets of its entries and of its device trees from its own
start. `scan-boot-image.py` finds the table wherever it stands, but reads both kinds of offset
from the start of the file. A table blob carries its header, its entries and the proof that it
is well formed; this module compares what the tool makes of the blob alone and of a file that
contains it.

## Main results

* `DtTableBlob.mem_findDtTables`: the table is reported at its place, with its header;
* `DtTableBlob.sameAnywhere_iff`: when it is decoded there as it is alone.
-/

open Fallible LittleEndian Occurrences

namespace Msm8998

namespace BootImage

open Fdt (Bytes slice)

/-- A well-formed table: a plausible header at its start, whole entry records, and entries and
device trees inside the table. -/
structure DtTableBlob where
  bytes : Bytes
  table : DtTable
  entries : List DtEntry
  offset_eq : table.offset = 0
  tableAt : TableAt bytes table
  entrySize_le : 24 ≤ table.entrySize
  decoded : dtTableEntries bytes table = .ok entries
  inside : ∀ entry ∈ entries, entry.dtbOffset + entry.dtbSize ≤ bytes.length

namespace DtTableBlob

variable (blob : DtTableBlob) (front back : Bytes)

/-- The file that contains the table. -/
def file : Bytes := front ++ (blob.bytes ++ back)

/-- The table as it should be reported there. -/
def moved : DtTable := { blob.table with offset := front.length }

/-- The table is reported at its place, with the records and the verdicts of the table alone. -/
structure SameAnywhere : Prop where
  found : ∀ tables, findDtTables (blob.file front back) = .ok tables → blob.moved front ∈ tables
  records : dtTableEntries (blob.file front back) (blob.moved front) = .ok blob.entries
  verdicts : ∀ entry ∈ blob.entries, entry.ok (blob.file front back) = entry.ok blob.bytes

/-- What stands behind the front of the file. -/
theorem file_drop (n : ℕ) : (blob.file front back).drop (front.length + n) =
    (blob.bytes ++ back).drop n := by
  rw [file, ← List.drop_drop, List.drop_left]

/-- The file is not shorter than what is in it. -/
theorem length_le : blob.bytes.length ≤ (blob.file front back).length := by
  rw [file, List.length_append, List.length_append]
  omega

/-- **The table is found** at its place, with its header. -/
theorem mem_findDtTables {tables : List DtTable}
    (h : findDtTables (blob.file front back) = .ok tables) : blob.moved front ∈ tables := by
  obtain ⟨hmagic, hfields, hplausible⟩ := blob.tableAt
  rw [blob.offset_eq] at hmagic hfields
  rw [mem_dtTables h]
  constructor
  · obtain ⟨rest, hrest⟩ := hmagic
    refine ⟨rest ++ back, ?_⟩
    have hdrop := blob.file_drop front back 0
    rw [Nat.add_zero, List.drop_zero] at hdrop
    rw [moved, hdrop, ← List.append_assoc, hrest, List.drop_zero]
  · rw [Nat.zero_add] at hfields
    obtain ⟨hlen, hlt, post, hdrop⟩ := (readWords_eq_some (by omega)).mp hfields
    have hle : 4 ≤ blob.bytes.length := by
      have hsome := (readWords_isSome (w := 4) (k := 7) (by omega)).mp
        (Option.isSome_iff_exists.mpr ⟨_, hfields⟩)
      omega
    refine (readWords_eq_some (by omega)).mpr ⟨hlen, hlt, post ++ back, ?_⟩
    rw [moved, blob.file_drop front back 4, List.drop_append_of_le_length hle, hdrop,
      List.append_assoc]
    rfl
  · have hlength := blob.length_le front back
    obtain ⟨hheader, hentry, hcount, hend⟩ := hplausible
    exact ⟨hheader, hentry, hcount, Nat.le_trans hend hlength⟩

/-- One record is decoded as in the table alone when the same bytes stand at its offset. -/
theorem dtTableEntry_eq_iff {i : ℕ} (hi : i < blob.table.entryCount) :
    dtTableEntry (blob.file front back) (blob.moved front) i = dtTableEntry blob.bytes blob.table i ↔
      slice (blob.file front back) (blob.table.entryOffset i) (blob.table.entryOffset i + 24) =
        slice blob.bytes (blob.table.entryOffset i) (blob.table.entryOffset i + 24) := by
  obtain ⟨entry, hentry⟩ := exists_mapM_eq_ok.mp ⟨_, blob.decoded⟩ i (List.mem_range.mpr hi)
  have hread := dtTableEntry_eq_ok.mp hentry
  rw [hentry, dtTableEntry_eq_ok, slice, slice, Nat.add_sub_cancel_left]
  exact readWords_eq_some_iff_take (by omega) hread

/-- The table's records are those of the table alone when each of them is. -/
theorem records_iff :
    dtTableEntries (blob.file front back) (blob.moved front) = .ok blob.entries ↔
      ∀ i < blob.table.entryCount,
        slice (blob.file front back) (blob.table.entryOffset i) (blob.table.entryOffset i + 24) =
          slice blob.bytes (blob.table.entryOffset i) (blob.table.entryOffset i + 24) := by
  have hcount : (blob.moved front).entryCount = blob.table.entryCount := rfl
  rw [dtTableEntries, hcount, mapM_eq_ok_iff blob.decoded]
  simp only [List.mem_range]
  exact forall₂_congr fun i hi => blob.dtTableEntry_eq_iff front back hi

/-- A device tree of the table lies inside the file too, so the magic number decides. -/
theorem ok_iff {entry : DtEntry} (hentry : entry ∈ blob.entries) :
    entry.ok (blob.file front back) = entry.ok blob.bytes ↔
      (slice (blob.file front back) entry.dtbOffset (entry.dtbOffset + 4) = fdtMagicBytes ↔
        slice blob.bytes entry.dtbOffset (entry.dtbOffset + 4) = fdtMagicBytes) := by
  have hinside := blob.inside entry hentry
  have hfile := Nat.le_trans hinside (blob.length_le front back)
  rw [DtEntry.ok, DtEntry.ok, decide_eq_true hinside, decide_eq_true hfile, Bool.true_and,
    Bool.true_and, decide_eq_decide]

/-- **A table in a file.** It is decoded as it is alone exactly when, counted from the start of
the file, every record finds its own bytes and every device tree offset finds the magic number
where it finds it in the table. -/
theorem sameAnywhere_iff : blob.SameAnywhere front back ↔
    (∀ i < blob.table.entryCount,
      slice (blob.file front back) (blob.table.entryOffset i) (blob.table.entryOffset i + 24) =
        slice blob.bytes (blob.table.entryOffset i) (blob.table.entryOffset i + 24)) ∧
    ∀ entry ∈ blob.entries,
      (slice (blob.file front back) entry.dtbOffset (entry.dtbOffset + 4) = fdtMagicBytes ↔
        slice blob.bytes entry.dtbOffset (entry.dtbOffset + 4) = fdtMagicBytes) := by
  constructor
  · intro h
    exact ⟨(blob.records_iff front back).mp h.records,
      fun entry hentry => (blob.ok_iff front back hentry).mp (h.verdicts entry hentry)⟩
  · rintro ⟨hrecords, hverdicts⟩
    exact ⟨fun tables htables => blob.mem_findDtTables front back htables,
      (blob.records_iff front back).mpr hrecords,
      fun entry hentry => (blob.ok_iff front back hentry).mpr (hverdicts entry hentry)⟩

end DtTableBlob

/-- A table with one entry, whose device tree is its magic number. -/
def smallTable : DtTableBlob where
  bytes := dtTableMagicBytes ++ [60, 32, 24, 1, 32, 2048, 0].flatMap (split 4)
    ++ [1, 0, 0, 56, 4, 0].flatMap (split 4) ++ fdtMagicBytes
  table := ⟨0, 60, 32, 24, 1, 32, 2048, 0⟩
  entries := [⟨1, 0, 0, 56, 4, 0⟩]
  offset_eq := rfl
  tableAt := ⟨by decide, by decide, by decide⟩
  entrySize_le := by decide
  decoded := rfl
  inside := by decide

/-- One byte before that table, and its record is read from the wrong place. -/
theorem not_sameAnywhere_smallTable : ¬ smallTable.SameAnywhere [0] [] := by
  intro h
  have hrecords := h.records
  have hshifted : dtTableEntries (smallTable.file [0] []) (smallTable.moved [0]) =
      .ok [⟨256, 0, 0, 14336, 1024, 0⟩] := rfl
  rw [hshifted] at hrecords
  exact absurd hrecords (by decide)

end BootImage

end Msm8998
