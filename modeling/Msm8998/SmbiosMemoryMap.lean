import Msm8998.SmbiosHandles

/-!
# The SMBIOS Memory Map

A record of type 19 gives the first and the last kilobyte of a range of addresses, in 32 bits
each. `PlatformSmbiosDriverEntryPoint` stores the first byte of a memory bank and the first
byte behind it, and keeps the low 32 bits of each.

A bank that starts at zero has the right first kilobyte all the same, and there is one size
whose low 32 bits are the number of its last kilobyte.

## Main results

* `denotes_iff`: for which banks the record denotes the bank;
* `describesBanks_iff`: for which lists of banks the entry point describes them.
-/

namespace Msm8998

namespace Smbios

/-- The record denotes the range: from its first kilobyte to its last, and nothing else. -/
structure SmbiosTableType19.Denotes (s : SmbiosTableType19) (bank : FdtBank) : Prop where
  start : s.startingAddress.toNat * 1024 = bank.base
  stop : (s.endingAddress.toNat + 1) * 1024 = bank.base + bank.size

/-- How a structure of type 19 is laid out: what is stored into the structure of the driver
reads back from any record that begins with it. -/
structure Type19Layout (t : Templates) where
  decode : List UInt8 → SmbiosTableType19
  decode_template : ∀ h bank rest,
    decode ((t.mMemArrMapInfoType19 h bank).bytes ++ rest) = mMemArrMapInfoType19 h bank

/-- **The memory map describes the banks**: every record of type 19 is published, there is one
for each bank, in order, and it denotes the bank. -/
def DescribesBanks (p : Platform) (layout : Type19Layout p.templates) (calls : List Call) :
    Prop :=
  calls.length = 20 + p.banks.length ∧
    ∀ i bank, p.banks[i]? = some bank → ∃ call record, calls[19 + i]? = some call ∧
      call.logged.status = efiSuccess ∧ call.logged.record = some record ∧
      (layout.decode record).Denotes bank

/-- The size whose low 32 bits are the number of its last kilobyte. -/
def coincidentSize : ℕ := 0x10040100400

/-- It is the only one: the high bits of a size that equals 1024 times one more than its low
bits are determined modulo 1023. -/
theorem eq_coincidentSize_iff (n : ℕ) :
    (n % 2 ^ 32 + 1) * 1024 = n ↔ n = coincidentSize := by
  constructor
  · intro h
    have hlow : n % 2 ^ 32 < 4294967296 := Nat.mod_lt _ (by decide)
    have hsplit : 4294967296 * (n / 2 ^ 32) + n % 2 ^ 32 = n := Nat.div_add_mod n (2 ^ 32)
    rw [coincidentSize]
    generalize n % 2 ^ 32 = low at *
    generalize n / 2 ^ 32 = high at *
    have hmod : 4 * high % 1023 = 1 := by omega
    have hhigh : high = 256 := by omega
    omega
  · rintro rfl
    rfl

/-- **When a record denotes its bank.** -/
theorem denotes_iff (h : Handle) (bank : FdtBank) :
    (mMemArrMapInfoType19 h bank).Denotes bank ↔ bank.base = 0 ∧ bank.size = coincidentSize := by
  have hbase := bank.base_lt
  have hsize := bank.size_lt
  have hstart : (mMemArrMapInfoType19 h bank).startingAddress.toNat = bank.base % 2 ^ 32 := by
    rw [mMemArrMapInfoType19, UInt64.toNat_toUInt32, UInt64.toNat_ofNat']
    omega
  have hstop : (mMemArrMapInfoType19 h bank).endingAddress.toNat =
      (bank.base + bank.size) % 2 ^ 32 := by
    rw [mMemArrMapInfoType19, UInt64.toNat_toUInt32, UInt64.toNat_add, UInt64.toNat_ofNat',
      UInt64.toNat_ofNat']
    omega
  constructor
  · rintro ⟨hfirst, hlast⟩
    rw [hstart] at hfirst
    rw [hstop] at hlast
    have hzero : bank.base = 0 := by omega
    rw [hzero, Nat.zero_add] at hlast
    exact ⟨hzero, (eq_coincidentSize_iff _).mp hlast⟩
  · rintro ⟨hzero, hcoincident⟩
    refine ⟨?_, ?_⟩
    · rw [hstart, hzero, Nat.zero_mod, Nat.zero_mul]
    · rw [hstop, hzero, Nat.zero_add]
      exact (eq_coincidentSize_iff _).mpr hcoincident

/-- The same, of the record that is published. -/
theorem Type19Layout.denotes_iff {t : Templates} (layout : Type19Layout t) (h : Handle)
    (bank : FdtBank) :
    (layout.decode (recordBytes (t.mMemArrMapInfoType19 h bank) [])).Denotes bank ↔
      bank.base = 0 ∧ bank.size = coincidentSize := by
  rw [recordBytes, layout.decode_template]
  exact Smbios.denotes_iff h bank

/-- Every record is taken, with these handles. -/
def allAdded (handle : ℕ → Handle) (n : ℕ) : Outcome := .added (handle n)

/-- **When the memory map describes the banks**: when each of them is the one bank whose record
denotes it. -/
theorem describesBanks_iff (p : Platform) (layout : Type19Layout p.templates)
    (handle : ℕ → Handle) :
    ∃ calls, platformSmbiosDriverEntryPoint (p.underPattern (allAdded handle)) = .ok calls ∧
      (DescribesBanks p layout calls ↔
        ∀ bank ∈ p.banks, bank.base = 0 ∧ bank.size = coincidentSize) := by
  refine ⟨_, platformSmbiosDriverEntryPoint_eq p _, ?_⟩
  have hlength : (callsFrom (allAdded handle) 0 p.handles p.steps).length =
      20 + p.banks.length := by
    rw [length_callsFrom, p.steps_eq, List.length_append, List.length_append, List.length_map,
      List.length_singleton]
    change 19 + (p.banks.length + 1) = _
    omega
  constructor
  · rintro ⟨-, h⟩ bank hmem
    obtain ⟨i, hi⟩ := List.getElem?_of_mem hmem
    obtain ⟨handle', record', hcall', rfl, -⟩ := mappedAddress_call (allAdded handle) hi
    obtain ⟨call, record, hcall, -, hrecord, hdenotes⟩ := h i bank hi
    rw [hcall'] at hcall
    cases hcall
    cases hrecord
    exact (layout.denotes_iff _ _).mp hdenotes
  · intro h
    refine ⟨hlength, fun i bank hi => ?_⟩
    obtain ⟨handle', record, hcall, rfl, -⟩ := mappedAddress_call (allAdded handle) hi
    have hbank := h bank (List.mem_of_getElem? hi)
    exact ⟨_, _, hcall, rfl, rfl, (layout.denotes_iff _ _).mpr hbank⟩

/-- Read a mapped address structure from a record, at the offsets that the specification
gives. -/
def readType19 (record : List UInt8) : SmbiosTableType19 where
  startingAddress := UInt32.ofNat (readField 4 4 record)
  endingAddress := UInt32.ofNat (readField 4 8 record)
  memoryArrayHandle := readHandle 12 record
  partitionWidth := UInt8.ofNat (readField 1 14 record)
  extendedStartingAddress := UInt64.ofNat (readField 8 15 record)
  extendedEndingAddress := UInt64.ofNat (readField 8 23 record)

/-- A packed mapped address structure reads back. -/
theorem readType19_packed (s : SmbiosTableType19) (rest : List UInt8) :
    readType19 ((packed 19 s.fields (fieldsSize_type19 s)).bytes ++ rest) = s := by
  have hsize := fieldsSize_type19 s
  generalize hrecord : (packed 19 s.fields hsize).bytes ++ rest = record
  have hstart : readField 4 4 record = s.startingAddress.toNat := by
    rw [← hrecord]
    exact packed_read (b := []) hsize (by decide) s.startingAddress.toNat_lt rest
  have hstop : readField 4 8 record = s.endingAddress.toNat := by
    rw [← hrecord]
    exact packed_read (b := [(4, _)]) hsize (by decide) s.endingAddress.toNat_lt rest
  have harray : readHandle 12 record = s.memoryArrayHandle := by
    rw [← hrecord]
    exact packed_readHandle (b := [(4, _), (4, _)]) hsize rest
  have hwidth : readField 1 14 record = s.partitionWidth.toNat := by
    rw [← hrecord]
    exact packed_read (b := [(4, _), (4, _), (2, _)]) hsize (by decide)
      s.partitionWidth.toNat_lt rest
  have hextendedStart : readField 8 15 record = s.extendedStartingAddress.toNat := by
    rw [← hrecord]
    exact packed_read (b := [(4, _), (4, _), (2, _), (1, _)]) hsize (by decide)
      s.extendedStartingAddress.toNat_lt rest
  have hextendedStop : readField 8 23 record = s.extendedEndingAddress.toNat := by
    rw [← hrecord]
    exact packed_read (b := [(4, _), (4, _), (2, _), (1, _), (8, _)]) hsize (by decide)
      s.extendedEndingAddress.toNat_lt rest
  rw [readType19, hstart, hstop, harray, hwidth, hextendedStart, hextendedStop,
    UInt32.ofNat_toNat, UInt32.ofNat_toNat, UInt8.ofNat_toNat, UInt64.ofNat_toNat,
    UInt64.ofNat_toNat]

/-- The record of a bank is read back. -/
theorem readType19_template (h : Handle) (bank : FdtBank) (rest : List UInt8) :
    readType19 ((packedTemplates.mMemArrMapInfoType19 h bank).bytes ++ rest) =
      mMemArrMapInfoType19 h bank :=
  readType19_packed _ rest

/-- The layout of packed structures. -/
def packedType19Layout : Type19Layout packedTemplates where
  decode := readType19
  decode_template := readType19_template

/-- The bank of a device with two GiB, from the base of the RAM on. -/
def twoGiB : FdtBank := ⟨0x80000000, 0x80000000, ramBase_lt, ramBase_lt⟩

/-- Its record ends at kilobyte zero: the first byte behind the bank is at four GiB. -/
theorem not_describesBanks_twoGiB :
    ∃ calls, platformSmbiosDriverEntryPoint ((packedPlatform [twoGiB] 0).underPattern
        (allAdded UInt16.ofNat)) = .ok calls ∧
      ¬ DescribesBanks (packedPlatform [twoGiB] 0) packedType19Layout calls := by
  refine ⟨_, platformSmbiosDriverEntryPoint_eq _ _, fun h => ?_⟩
  have hbank : (packedPlatform [twoGiB] 0).banks[0]? = some twoGiB := rfl
  obtain ⟨handle, record', hcall', rfl, -⟩ :=
    mappedAddress_call (allAdded UInt16.ofNat) hbank
  obtain ⟨call, record, hcall, -, hrecord, hdenotes⟩ := h.2 0 twoGiB hbank
  rw [hcall'] at hcall
  cases hcall
  cases hrecord
  have hzero := (packedType19Layout.denotes_iff handle twoGiB |>.mp hdenotes).1
  exact absurd hzero (by decide)

/-! ### What follows for records that denote their banks -/

/-- A record that denotes a bank does not end before it starts. -/
theorem SmbiosTableType19.Denotes.start_le {s : SmbiosTableType19} {bank : FdtBank}
    (h : s.Denotes bank) (hpos : 0 < bank.size) : s.startingAddress ≤ s.endingAddress := by
  have hstart := h.start
  have hstop := h.stop
  rw [UInt32.le_iff_toNat_le]
  omega

/-- Records that denote disjoint banks denote disjoint ranges. -/
theorem SmbiosTableType19.Denotes.disjoint {s s' : SmbiosTableType19} {bank bank' : FdtBank}
    (h : s.Denotes bank) (h' : s'.Denotes bank') (hpos : 0 < bank.size)
    (hpos' : 0 < bank'.size) (hdisjoint : bank.span.Disjoint bank'.span) :
    s.endingAddress < s'.startingAddress ∨ s'.endingAddress < s.startingAddress := by
  have hstart := h.start
  have hstop := h.stop
  have hstart' := h'.start
  have hstop' := h'.stop
  simp only [Span.Disjoint, Span.stop, FdtBank.span] at hdisjoint
  rw [UInt32.lt_iff_toNat_lt, UInt32.lt_iff_toNat_lt]
  omega

end Smbios

end Msm8998
