import Msm8998.Occurrences
import Msm8998.RemuxExtract

/-!
# Scanning a Boot Image

This module models `scan-boot-image.py`: the report on the boot header, the three searches
and the entries of the device tree tables, as `main` runs them without an output directory.
What is printed about a file is the value of the function that prints it; the hint about what
a device tree belongs to is left out.

Three loops move on from each occurrence of a magic number. They carry fuel, and
`scanLoop_eq` shows that the length of the file is enough.

## Main results

* `findQcdt_eq`, `findDtTables_eq`, `findFdts_eq`: the searches never fail, and what they find;
* `mem_dtTables`: the tables found are those whose header is plausible where it stands.
-/

open Fallible LittleEndian Occurrences

namespace Msm8998

namespace BootImage

open Fdt (Bytes slice)

/-- `struct.pack(">I", 0xD00DFEED)`. -/
def fdtMagicBytes : Bytes := [0xD0, 0x0D, 0xFE, 0xED]

/-- The text "QCDT". -/
def qcdtMagicBytes : Bytes := [81, 67, 68, 84]

/-- `struct.pack("<I", 0xD7B7AB1E)`. -/
def dtTableMagicBytes : Bytes := [0x1E, 0xAB, 0xB7, 0xD7]

/-- `round_up`. -/
def roundUp (value page : ℕ) : ℕ := (value + page - 1) / page * page

/-- `struct.unpack_from(">kI", data, pos)`. -/
def unpackBig : ℕ → Bytes → ℕ → Except ToolError (List ℕ)
  | 0, _, _ => .ok []
  | k + 1, data, pos =>
      match Fdt.wordAt data pos with
      | .ok w => do
          let rest ← unpackBig k data (pos + 4)
          return w :: rest
      | .error _ => .error .structError

/-! ### The boot header -/

/-- What `parse_boot_header` prints. -/
structure HeaderReport where
  pageSize : ℕ
  headerVersion : ℕ
  osVersion : ℕ × ℕ × ℕ
  osPatchLevel : ℕ × ℕ
  kernel : ℕ × ℕ
  ramdisk : ℕ × ℕ
  second : ℕ
  /-- The predicted size, when the size check is printed. -/
  predicted : Option ℕ
  recoveryDtbo : Option (ℕ × ℕ)
  dtb : Option (ℕ × ℕ)
deriving Repr, DecidableEq

/-- The size the header predicts, if its sizes are plausible. -/
def predictedSize (header : Header) (length : ℕ) : Option ℕ :=
  if header.pageSize ≠ 0 ∧ (0 < header.kernelSize ∧ header.kernelSize < length) ∧
      (0 < header.ramdiskSize ∧ header.ramdiskSize < length) then
    some (header.pageSize + roundUp header.kernelSize header.pageSize
      + roundUp header.ramdiskSize header.pageSize + roundUp header.secondSize header.pageSize)
  else none

/-- The recovery dtbo's size and offset, read as two of three words. -/
def reportedRecoveryDtbo (data : Bytes) : Except ToolError (ℕ × ℕ) :=
  match readWords 4 3 data 1632 with
  | some [dtboSize, dtboOffset, _] => .ok (dtboSize, dtboOffset)
  | _ => .error .structError

/-- The dtb's size and address, read as two words. -/
def reportedDtb (data : Bytes) : Except ToolError (ℕ × ℕ) :=
  match readWords 4 2 data 1648 with
  | some [dtbSize, dtbAddr] => .ok (dtbSize, dtbAddr)
  | _ => .error .structError

/-- A part of the report that some header versions have. -/
def reportIf {α : Type} (p : Prop) [Decidable p] (part : Except ToolError α) :
    Except ToolError (Option α) :=
  if p then part.map some else .ok none

/-- `parse_boot_header`. -/
def parseBootHeader (data : Bytes) : Except ToolError (Option HeaderReport) :=
  if data.take 8 ≠ bootMagic then .ok none
  else do
    let header ← unpackHeader data
    let ver := header.osVersion >>> 11
    let patch := header.osVersion &&& 0x7FF
    let recoveryDtbo ← reportIf (header.headerVersion ≥ 1) (reportedRecoveryDtbo data)
    let dtb ← reportIf (header.headerVersion ≥ 2) (reportedDtb data)
    return some
      { pageSize := header.pageSize
        headerVersion := header.headerVersion
        osVersion := (ver >>> 14 &&& 0x7F, ver >>> 7 &&& 0x7F, ver &&& 0x7F)
        osPatchLevel := (2000 + (patch >>> 4), patch &&& 0xF)
        kernel := (header.kernelSize, header.kernelAddr)
        ramdisk := (header.ramdiskSize, header.ramdiskAddr)
        second := header.secondSize
        predicted := predictedSize header data.length
        recoveryDtbo, dtb }

/-! ### The searches -/

/-- `pos = data.find(magic, pos)` with `pos += 4` behind each hit; `body` is what a pass adds. -/
def scanLoop {α : Type} (magic data : Bytes) (body : ℕ → Except ToolError (List α)) :
    ℕ → ℕ → Except ToolError (List α)
  | 0, _ => .error .outOfFuel
  | fuel + 1, pos =>
      match find magic data pos with
      | none => .ok []
      | some pos => do
          let found ← body pos
          let rest ← scanLoop magic data body fuel (pos + 4)
          return found ++ rest

/-- One pass of `find_fdts`: offset, total size and version. -/
def fdtAt (data : Bytes) (pos : ℕ) : Except ToolError (List (ℕ × ℕ × ℕ)) :=
  if pos + 40 ≤ data.length then
    match unpackBig 7 data pos with
    | .ok [_, totalsize, _, _, _, version, lastcomp] =>
        if totalsize ≥ 40 ∧ pos + totalsize ≤ data.length ∧ lastcomp ≤ version then
          .ok [(pos, totalsize, version)]
        else .ok []
    | _ => .error .structError
  else .ok []

/-- `find_fdts`. -/
def findFdts (data : Bytes) : Except ToolError (List (ℕ × ℕ × ℕ)) :=
  scanLoop fdtMagicBytes data (fdtAt data) (data.length + 1) 0

/-- `find_qcdt`. -/
def findQcdt (data : Bytes) : Except ToolError (List ℕ) :=
  scanLoop qcdtMagicBytes data (fun pos => .ok [pos]) (data.length + 1) 0

/-- A table that `find_dt_tables` reports. -/
structure DtTable where
  offset : ℕ
  totalSize : ℕ
  headerSize : ℕ
  entrySize : ℕ
  entryCount : ℕ
  entriesOffset : ℕ
  pageSize : ℕ
  version : ℕ
deriving Repr, DecidableEq

/-- The test a table header has to pass in a file of a given length. -/
def DtTable.Plausible (table : DtTable) (length : ℕ) : Prop :=
  (32 ≤ table.headerSize ∧ table.headerSize ≤ 4096) ∧
    (12 ≤ table.entrySize ∧ table.entrySize ≤ 64) ∧
    (0 < table.entryCount ∧ table.entryCount < 8192) ∧
    table.entriesOffset + table.entryCount * table.entrySize ≤ length

instance (table : DtTable) (length : ℕ) : Decidable (table.Plausible length) :=
  inferInstanceAs (Decidable (_ ∧ _))

/-- One pass of `find_dt_tables`. -/
def dtTableAt (data : Bytes) (pos : ℕ) : Except ToolError (List DtTable) :=
  if pos + 32 ≤ data.length then
    match readWords 4 8 data pos with
    | some [_, totalSize, headerSize, entrySize, entryCount, entriesOffset, pageSize, version] =>
        let table : DtTable :=
          { offset := pos, totalSize, headerSize, entrySize, entryCount, entriesOffset, pageSize,
            version }
        if table.Plausible data.length then .ok [table] else .ok []
    | _ => .error .structError
  else .ok []

/-- `find_dt_tables`. -/
def findDtTables (data : Bytes) : Except ToolError (List DtTable) :=
  scanLoop dtTableMagicBytes data (dtTableAt data) (data.length + 1) 0

/-- A decoded record of a table. -/
structure DtEntry where
  platformId : ℕ
  variantId : ℕ
  socRev : ℕ
  dtbOffset : ℕ
  dtbSize : ℕ
  dtbId : ℕ
deriving Repr, DecidableEq

/-- Where record `i` of a table is read. -/
def DtTable.entryOffset (table : DtTable) (i : ℕ) : ℕ := table.entriesOffset + i * table.entrySize

/-- One record of `dt_table_entries`. -/
def dtTableEntry (data : Bytes) (table : DtTable) (i : ℕ) : Except ToolError DtEntry :=
  match readWords 4 6 data (table.entryOffset i) with
  | some [platformId, variantId, socRev, dtbOffset, dtbSize, dtbId] =>
      .ok { platformId, variantId, socRev, dtbOffset, dtbSize, dtbId }
  | _ => .error .structError

/-- `dt_table_entries`, run to its end. -/
def dtTableEntries (data : Bytes) (table : DtTable) : Except ToolError (List DtEntry) :=
  (List.range table.entryCount).mapM (dtTableEntry data table)

/-- Whether `main` counts an entry as pointing at a device tree. -/
def DtEntry.ok (data : Bytes) (entry : DtEntry) : Bool :=
  decide (entry.dtbOffset + entry.dtbSize ≤ data.length) &&
    decide (slice data entry.dtbOffset (entry.dtbOffset + 4) = fdtMagicBytes)

/-- What `main` prints. -/
structure ScanReport where
  header : Option HeaderReport
  qcdt : List ℕ
  tables : List (DtTable × List (DtEntry × Bool))
  fdts : List (ℕ × ℕ × ℕ)

/-- What `main` prints about one table. -/
def listTable (data : Bytes) (table : DtTable) :
    Except ToolError (DtTable × List (DtEntry × Bool)) := do
  let entries ← dtTableEntries data table
  return (table, entries.map fun entry => (entry, entry.ok data))

/-- `main`. -/
def scan (data : Bytes) : Except ToolError ScanReport := do
  let header ← parseBootHeader data
  let qcdt ← findQcdt data
  let tables ← findDtTables data
  let tables ← tables.mapM (listTable data)
  let fdts ← findFdts data
  return { header, qcdt, tables, fdts }

/-! ### What the searches find -/

variable {α : Type} {magic data : Bytes} {pos : ℕ}

/-- What a pass adds, when it does not fail. -/
def added (r : Except ToolError (List α)) : List α := r.toOption.getD []

/-- **The loop** meets every occurrence of a magic number of four distinct bytes. -/
theorem scanLoop_eq {body : ℕ → Except ToolError (List α)} (hnodup : magic.Nodup)
    (hfour : magic.length = 4)
    (hbody : ∀ i, OccursAt magic data i → ∃ found, body i = .ok found) (fuel : ℕ)
    (hfuel : data.length - pos < fuel) :
    scanLoop magic data body fuel pos =
      .ok ((occurrences magic data pos).flatMap fun i => added (body i)) := by
  have hne : magic ≠ [] := by
    intro hnil
    rw [hnil] at hfour
    cases hfour
  induction fuel generalizing pos with
  | zero => omega
  | succ fuel ih =>
      rw [scanLoop]
      cases hfind : find magic data pos with
      | none => rw [find_eq_none hfind]; rfl
      | some i =>
          obtain ⟨hle, hend, hocc⟩ := occurrences_eq hnodup hne hfind
          have hmem : i ∈ occurrences magic data pos := hocc ▸ List.mem_cons_self
          obtain ⟨found, hfound⟩ := hbody i ((mem_occurrences hne).mp hmem).2
          rw [hfour] at hend hocc
          have hrest := ih (by omega : data.length - (i + 4) < fuel)
          simp only [hocc, List.flatMap_cons, hfound, ok_bind, hrest]
          rfl

/-- The search for the table finds all its magics. -/
theorem findQcdt_eq (data : Bytes) :
    findQcdt data = .ok ((occurrences qcdtMagicBytes data 0).flatMap fun i => [i]) :=
  scanLoop_eq (by decide) rfl (fun i _ => ⟨[i], rfl⟩) _ (Nat.lt_succ_self _)

/-- A word that lies in the data can be read. -/
theorem wordAt_isOk (h : pos + 4 ≤ data.length) : ∃ w, Fdt.wordAt data pos = .ok w := by
  have hlen : 4 ≤ (data.drop pos).length := by
    rw [List.length_drop]
    omega
  rw [Fdt.wordAt]
  match hdrop : data.drop pos, hlen with
  | a :: b :: c :: d :: _, _ => exact ⟨_, rfl⟩

/-- So can several of them. -/
theorem unpackBig_isOk {k : ℕ} (h : pos + 4 * k ≤ data.length) :
    ∃ ws, unpackBig k data pos = .ok ws ∧ ws.length = k := by
  induction k generalizing pos with
  | zero => exact ⟨[], rfl, rfl⟩
  | succ k ih =>
      obtain ⟨w, hw⟩ := wordAt_isOk (by omega : pos + 4 ≤ data.length)
      obtain ⟨ws, hws, hlen⟩ := ih (by omega : pos + 4 + 4 * k ≤ data.length)
      refine ⟨w :: ws, ?_, by rw [List.length_cons, hlen]⟩
      simp only [unpackBig, hw, hws]
      rfl

/-- Looking for a tree does not fail. -/
theorem fdtAt_isOk (data : Bytes) (pos : ℕ) : ∃ found, fdtAt data pos = .ok found := by
  rw [fdtAt]
  split
  · obtain ⟨ws, hws, hlen⟩ := unpackBig_isOk (by omega : pos + 4 * 7 ≤ data.length)
    match ws, hlen with
    | [_, totalsize, _, _, _, version, lastcomp], _ =>
        rw [hws]
        dsimp only
        split
        · exact ⟨_, rfl⟩
        · exact ⟨_, rfl⟩
  · exact ⟨[], rfl⟩

/-- The trees that are found, magic by magic. -/
theorem findFdts_eq (data : Bytes) :
    findFdts data = .ok ((occurrences fdtMagicBytes data 0).flatMap fun i => added (fdtAt data i)) :=
  scanLoop_eq (by decide) rfl (fun i _ => fdtAt_isOk data i) _ (Nat.lt_succ_self _)

/-- The words of a table header behind the magic number. -/
def DtTable.fields (table : DtTable) : List ℕ :=
  [table.totalSize, table.headerSize, table.entrySize, table.entryCount, table.entriesOffset,
    table.pageSize, table.version]

/-- A plausible header stands at the table's offset. -/
structure TableAt (data : Bytes) (table : DtTable) : Prop where
  magic : OccursAt dtTableMagicBytes data table.offset
  fields : readWords 4 7 data (table.offset + 4) = some table.fields
  isPlausible : table.Plausible data.length

/-- As many words are read as were asked for. -/
theorem readWords_length {k : ℕ} {ws : List ℕ} (h : readWords 4 k data pos = some ws) :
    ws.length = k :=
  ((readWords_eq_some (by omega)).mp h).1

/-- The seven words of a table header. -/
theorem exists_of_length_eq_seven {ws : List ℕ} (h : ws.length = 7) :
    ∃ a b c d e f g, ws = [a, b, c, d, e, f, g] := by
  rcases ws with _ | ⟨a, _ | ⟨b, _ | ⟨c, _ | ⟨d, _ | ⟨e, _ | ⟨f, _ | ⟨g, _ | ⟨x, ws⟩⟩⟩⟩⟩⟩⟩⟩ <;>
    simp only [List.length_cons, List.length_nil] at h <;>
    first | exact ⟨_, _, _, _, _, _, _, rfl⟩ | omega

/-- One pass reports the table whose header stands there. -/
theorem dtTableAt_eq (data : Bytes) (pos : ℕ) : ∃ found, dtTableAt data pos = .ok found ∧
    ∀ table, table ∈ found ↔ table.offset = pos ∧
      readWords 4 7 data (pos + 4) = some table.fields ∧ table.Plausible data.length := by
  rw [dtTableAt]
  split
  · rename_i hle
    have hsome : (readWords 4 8 data pos).isSome = true :=
      (readWords_isSome (by omega)).mpr (by omega)
    obtain ⟨ws, hws⟩ := Option.isSome_iff_exists.mp hsome
    have hlen := readWords_length hws
    have htail := hws
    rw [readWords, Option.bind_eq_some_iff] at htail
    obtain ⟨w, -, htail⟩ := htail
    obtain ⟨ws', hws', rfl⟩ := Option.map_eq_some_iff.mp htail
    obtain ⟨totalSize, headerSize, entrySize, entryCount, entriesOffset, pageSize, version, rfl⟩ :=
      exists_of_length_eq_seven (Nat.succ.inj hlen)
    rw [hws, hws']
    dsimp only
    split
    · rename_i hplausible
      refine ⟨_, rfl, fun table => ?_⟩
      rw [List.mem_singleton]
      constructor
      · rintro rfl
        exact ⟨rfl, rfl, hplausible⟩
      · rintro ⟨rfl, hfields, -⟩
        cases table
        cases hfields
        rfl
    · rename_i hplausible
      refine ⟨[], rfl, fun table => iff_of_false List.not_mem_nil ?_⟩
      rintro ⟨rfl, hfields, htable⟩
      cases table
      cases hfields
      exact hplausible htable
  · rename_i hlt
    refine ⟨[], rfl, fun table => iff_of_false List.not_mem_nil ?_⟩
    rintro ⟨-, hfields, -⟩
    have hle := (readWords_isSome (w := 4) (k := 7) (by omega)).mp
      (Option.isSome_iff_exists.mpr ⟨_, hfields⟩)
    omega

/-- The tables that are found, magic by magic. -/
theorem findDtTables_eq (data : Bytes) :
    findDtTables data =
      .ok ((occurrences dtTableMagicBytes data 0).flatMap fun i => added (dtTableAt data i)) := by
  refine scanLoop_eq (by decide) rfl (fun i _ => ?_) _ (Nat.lt_succ_self _)
  obtain ⟨found, hfound, -⟩ := dtTableAt_eq data i
  exact ⟨found, hfound⟩

/-- **The tables found** are those whose header is plausible where it stands. -/
theorem mem_dtTables {tables : List DtTable} (h : findDtTables data = .ok tables)
    (table : DtTable) : table ∈ tables ↔ TableAt data table := by
  rw [findDtTables_eq] at h
  cases h
  rw [List.mem_flatMap]
  constructor
  · rintro ⟨i, hi, htable⟩
    obtain ⟨found, hfound, hmem⟩ := dtTableAt_eq data i
    rw [added, hfound] at htable
    obtain ⟨rfl, hfields, hplausible⟩ := (hmem table).mp htable
    exact ⟨((mem_occurrences (by decide)).mp hi).2, hfields, hplausible⟩
  · rintro ⟨hmagic, hfields, hplausible⟩
    obtain ⟨found, hfound, hmem⟩ := dtTableAt_eq data table.offset
    refine ⟨table.offset, (mem_occurrences (by decide)).mpr ⟨Nat.zero_le _, hmagic⟩, ?_⟩
    rw [added, hfound]
    exact (hmem table).mpr ⟨rfl, hfields, hplausible⟩

/-- The words of a record. -/
def DtEntry.fields (entry : DtEntry) : List ℕ :=
  [entry.platformId, entry.variantId, entry.socRev, entry.dtbOffset, entry.dtbSize, entry.dtbId]

/-- A record is decoded when its words are read. -/
theorem dtTableEntry_eq_ok {table : DtTable} {i : ℕ} {entry : DtEntry} :
    dtTableEntry data table i = .ok entry ↔
      readWords 4 6 data (table.entryOffset i) = some entry.fields := by
  rw [dtTableEntry]
  constructor
  · intro h
    split at h
    · rename_i hread
      cases h
      exact hread
    · cases h
  · intro h
    rw [h]
    rfl

end BootImage

end Msm8998
