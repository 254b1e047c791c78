import Msm8998.LittleEndian
import Msm8998.Smbios

/-!
# Packed SMBIOS Structures

The model of the SMBIOS driver takes its fixed structures as any byte strings. This module has
packed ones: the header, and then the fields in little-endian order without gaps, with the
offsets that the SMBIOS specification gives to the fields the driver stores to.

## Main results

* `packed_read`: reading a field back from a record that begins with the structure;
* `packedTemplates`: structures of the driver with the fields it stores to.
-/

namespace Msm8998

namespace Smbios

/-- The size of the fields of a structure, given as widths and values. -/
def fieldsSize (fields : List (ℕ × ℕ)) : ℕ := (fields.map Prod.fst).sum

/-- The fields of a structure as bytes. -/
def fieldsBytes (fields : List (ℕ × ℕ)) : List UInt8 :=
  fields.flatMap fun f => LittleEndian.split f.1 f.2

/-- The length of the fields. -/
theorem fieldsBytes_length (fields : List (ℕ × ℕ)) :
    (fieldsBytes fields).length = fieldsSize fields := by
  rw [fieldsBytes, List.length_flatMap, fieldsSize]
  exact congrArg List.sum (List.map_congr_left fun f _ => LittleEndian.split_length f.1 f.2)

/-- A field stands behind those before it. -/
theorem fieldsBytes_append (before : List (ℕ × ℕ)) (width value : ℕ) (after : List (ℕ × ℕ)) :
    fieldsBytes (before ++ (width, value) :: after) =
      fieldsBytes before ++ (LittleEndian.split width value ++ fieldsBytes after) := by
  rw [fieldsBytes, List.flatMap_append, List.flatMap_cons]
  rfl

/-- A structure of some type: its header, with the type, the length and an empty handle, and
its fields. -/
def packed (type : UInt8) (fields : List (ℕ × ℕ)) (h : fieldsSize fields < 252) : Template where
  bytes := [type, UInt8.ofNat (4 + fieldsSize fields), 0, 0] ++ fieldsBytes fields
  length_eq := by
    rw [lengthField, List.length_append, fieldsBytes_length]
    change some (UInt8.ofNat (4 + fieldsSize fields)).toNat = _
    rw [UInt8.toNat_ofNat_of_lt' (by rw [UInt8.size]; omega)]
    rfl

/-- A field of a record, by its width and its offset. -/
def readField (width offset : ℕ) (record : List UInt8) : ℕ :=
  (LittleEndian.readWord width record offset).getD 0

/-- **Reading a field back.** -/
theorem packed_read {type : UInt8} {b after : List (ℕ × ℕ)} {width value : ℕ}
    (h : fieldsSize (b ++ (width, value) :: after) < 252) (hwidth : 0 < width)
    (hvalue : value < 256 ^ width) (rest : List UInt8) :
    readField width (4 + fieldsSize b)
      ((packed type (b ++ (width, value) :: after) h).bytes ++ rest) = value := by
  have hword : LittleEndian.readWord width
      ((packed type (b ++ (width, value) :: after) h).bytes ++ rest)
      (4 + fieldsSize b) = some value :=
    (LittleEndian.readWord_eq_some hwidth).mpr ⟨hvalue, fieldsBytes after ++ rest, ?_⟩
  · rw [readField, hword, Option.getD_some]
  · generalize hhead : [type, UInt8.ofNat (4 + fieldsSize (b ++ (width, value) :: after)),
      (0 : UInt8), 0] = head
    have hfront : 4 + fieldsSize b = (head ++ fieldsBytes b).length := by
      rw [List.length_append, fieldsBytes_length, ← hhead]
      rfl
    simp only [packed, hhead]
    rw [hfront, fieldsBytes_append, ← List.append_assoc, List.append_assoc (_ ++ _),
      List.drop_left, List.append_assoc]

/-! ### The structures of the driver -/

/-- `SMBIOS_TABLE_TYPE19`. -/
structure SmbiosTableType19 where
  startingAddress : UInt32
  endingAddress : UInt32
  memoryArrayHandle : Handle
  partitionWidth : UInt8
  extendedStartingAddress : UInt64
  extendedEndingAddress : UInt64
deriving Repr, DecidableEq

/-- `mMemArrMapInfoType19` as the entry point stores a bank to it; the bank is a pair of 64-bit
counts of bytes. -/
def mMemArrMapInfoType19 (memoryArrayHandle : Handle) (bank : FdtBank) : SmbiosTableType19 where
  startingAddress := (UInt64.ofNat bank.base).toUInt32
  endingAddress := (UInt64.ofNat bank.base + UInt64.ofNat bank.size).toUInt32
  memoryArrayHandle := memoryArrayHandle
  partitionWidth := 1
  extendedStartingAddress := 0
  extendedEndingAddress := 0

/-- The fields of a mapped address structure. -/
def SmbiosTableType19.fields (s : SmbiosTableType19) : List (ℕ × ℕ) :=
  [(4, s.startingAddress.toNat), (4, s.endingAddress.toNat), (2, s.memoryArrayHandle.toNat),
    (1, s.partitionWidth.toNat), (8, s.extendedStartingAddress.toNat),
    (8, s.extendedEndingAddress.toNat)]

/-- The fields of a board structure, all zero but the handle of the chassis. -/
def boardFields (chassisHandle : Handle) : List (ℕ × ℕ) :=
  [(7, 0), (2, chassisHandle.toNat), (4, 0)]

/-- The fields of a processor structure, all zero but the handles of the caches. -/
def processorFields (l1CacheHandle l2CacheHandle : Handle) : List (ℕ × ℕ) :=
  [(22, 0), (2, l1CacheHandle.toNat), (2, l2CacheHandle.toNat), (18, 0)]

/-- The fields of a memory device structure, all zero but the handle of the array. -/
def deviceFields (memoryArrayHandle : Handle) : List (ℕ × ℕ) :=
  [(2, memoryArrayHandle.toNat), (86, 0)]

/-- No fields fit a template. -/
theorem fieldsSize_nil : fieldsSize [] < 252 := by decide

/-- The fields of a mapped bank fit one. -/
theorem fieldsSize_type19 (s : SmbiosTableType19) : fieldsSize s.fields < 252 := by
  simp [fieldsSize, SmbiosTableType19.fields]

/-- So do those of the board. -/
theorem fieldsSize_board (h : Handle) : fieldsSize (boardFields h) < 252 := by
  simp [fieldsSize, boardFields]

/-- Those of the processor. -/
theorem fieldsSize_processor (h h' : Handle) : fieldsSize (processorFields h h') < 252 := by
  simp [fieldsSize, processorFields]

/-- And those of a memory device. -/
theorem fieldsSize_device (h : Handle) : fieldsSize (deviceFields h) < 252 := by
  simp [fieldsSize, deviceFields]

/-- A structure of some type without fields. -/
def bare (type : UInt8) : Template := packed type [] fieldsSize_nil

/-- Packed structures. -/
def packedTemplates : Templates where
  mBIOSInfoType0 := bare 0
  mSysInfoType1 := bare 1
  mBoardInfoType2 h := packed 2 (boardFields h) (fieldsSize_board h)
  mEnclosureInfoType3 := bare 3
  mProcessorInfoType4_a75 h h' := packed 4 (processorFields h h') (fieldsSize_processor h h')
  mProcessorInfoType4_a55 h h' := packed 4 (processorFields h h') (fieldsSize_processor h h')
  mCacheInfoType7_a75_L1I := bare 7
  mCacheInfoType7_a55_L1I := bare 7
  mCacheInfoType7_a75_L1D := bare 7
  mCacheInfoType7_a55_L1D := bare 7
  mCacheInfoType7_a75_L2 := bare 7
  mCacheInfoType7_a55_L2 := bare 7
  mSysSlotInfoType9_0 := bare 9
  mSysSlotInfoType9_1 := bare 9
  mSysSlotInfoType9_2 := bare 9
  mSysSlotInfoType9_3 := bare 9
  mOemStringsType11 := bare 11
  mPhyMemArrayInfoType16 := bare 16
  mMemDevInfoType17 h := packed 17 (deviceFields h) (fieldsSize_device h)
  mMemArrMapInfoType19 h bank :=
    packed 19 (mMemArrMapInfoType19 h bank).fields (fieldsSize_type19 _)
  mBootInfoType32 := bare 32

/-- The version fits its buffer. -/
theorem version_fits : (literal "edk2-msm8998").bytes.length < 128 := by decide

/-- So does the date. -/
theorem date_fits : (literal "Jan  1 2021").bytes.length < 12 := by decide

/-- A platform with packed structures, whose variable `SmbiosHandle` starts with some value. -/
def packedPlatform (banks : List FdtBank) (smbiosHandle : Handle) : Platform where
  templates := packedTemplates
  mBiosVersion := ⟨literal "edk2-msm8998", version_fits⟩
  mBiosDate := ⟨literal "Jan  1 2021", date_fits⟩
  pcdDeviceVendor := literal "Nokia"
  pcdDeviceProduct := literal "8"
  pcdDeviceCodeName := literal "nb1"
  banks := banks
  handles := ⟨smbiosHandle, 0, 0, 0, 0, 0, 0⟩
  services := fun _ => ⟨efiSuccess, fun _ => true, fun _ => (efiSuccess, 0)⟩

end Smbios

end Msm8998
