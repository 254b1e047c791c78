import Mathlib.Algebra.GroupWithZero.Nat
import Mathlib.Data.List.TakeWhile
import Msm8998.Fallible
import Msm8998.MemoryPeim
import Msm8998.StatusCode
import Msm8998.Terminated

/-!
# SMBIOS Records

This module models `PlatformSmbiosDxe`: `LogSmbiosData`, which lays a fixed structure and its
strings into one record, and the sequence of such calls that the entry point makes.

The record is a zeroed allocation; a store or load outside of it and a load through a `NULL`
string pack end the run. The layouts of the fixed structures are not part of the repository,
so a structure is any byte string that carries its own length where the header keeps it, and
the handles and addresses that the entry point writes into some of them are arguments.

## Main results

* `fillRecord_eq_ok`: with room for the strings, the record is the fixed part, the strings and
  zeros;
* `size_le_of_fillRecord`: without it, the run ends outside of the record.
-/

open Fallible

namespace Msm8998

namespace Smbios

/-! ### Strings and buffers -/

/-- A C string: the bytes in front of its NUL. -/
structure CString where
  bytes : List UInt8
  nul_free : 0 ∉ bytes
deriving DecidableEq

/-- `AsciiStrSize`. -/
def asciiStrSize (s : CString) : ℕ := s.bytes.length + 1

/-- A string literal; it ends at its first NUL. -/
def literal (s : String) : CString where
  bytes := (s.toList.map fun c => UInt8.ofNat c.toNat).takeWhile (· ≠ 0)
  nul_free h := by simpa using List.mem_takeWhile_imp h

/-- A `CHAR8` array of a fixed size and the string in it. -/
structure Buffer (size : ℕ) where
  string : CString
  fits : string.bytes.length < size

/-- A static array without an initialiser. -/
def Buffer.blank (size : ℕ) (h : 0 < size) : Buffer size := ⟨⟨[], List.not_mem_nil⟩, h⟩

/-- `AsciiStrCpyS`: a source that does not fit leaves the destination as it was. -/
def asciiStrCpyS {destMax : ℕ} (destination : Buffer destMax) (source : CString) :
    Buffer destMax :=
  if h : source.bytes.length < destMax then ⟨source, h⟩ else destination

/-! ### One record -/

/-- `EFI_SMBIOS_HANDLE`. -/
abbrev Handle := UInt16

/-- The `Length` field of a structure, its second byte. -/
def lengthField (bytes : List UInt8) : Option ℕ := bytes[1]?.map (·.toNat)

/-- A fixed SMBIOS structure, as long as its header says. -/
structure Template where
  bytes : List UInt8
  length_eq : lengthField bytes = some bytes.length

/-- `Template->Length`. -/
def Template.length (template : Template) : ℕ := template.bytes.length

/-- How a run ends other than by returning. -/
inductive Fault
  | nullStringPack
  | outside (offset : ℕ)
deriving Repr, DecidableEq

/-- What the boot services and the SMBIOS protocol do during one call: the status of
`LocateProtocol`, which sizes can be allocated, and the status and handle from `Add`. -/
structure Services where
  locateProtocol : StatusCode
  allocateZeroPool : ℕ → Bool
  add : List UInt8 → StatusCode × Handle

/-- What one call leaves behind: its status, the record that went to `Add`, and what was
stored through `DataSmbiosHandle`. -/
structure Logged where
  status : StatusCode
  record : Option (List UInt8)
  handle : Option Handle

/-- `Size`, a 64-bit count. -/
def recordSize (template : Template) : Option (List CString) → ℕ
  | none => (template.length + 2) % 2 ^ 64
  | some stringPack =>
      let size := stringPack.foldl (fun size s => (size + asciiStrSize s) % 2 ^ 64)
        template.length
      -- at least a double null is required
      let size := if stringPack = [] then (size + 1) % 2 ^ 64 else size
      (size + 1) % 2 ^ 64

/-- `CopyMem` into the record. -/
def copyMem (record : List UInt8) (offset : ℕ) (bytes : List UInt8) :
    Except Fault (List UInt8) :=
  if offset + bytes.length ≤ record.length then
    .ok (record.take offset ++ bytes ++ record.drop (offset + bytes.length))
  else .error (.outside offset)

/-- The loop that appends the strings, with `Str` as an offset into the record. -/
def appendStrings : List CString → ℕ → List UInt8 → Except Fault (ℕ × List UInt8)
  | [], str, record => .ok (str, record)
  | s :: stringPack, str, record => do
      let record ← copyMem record str (s.bytes ++ [0])
      appendStrings stringPack (str + asciiStrSize s) record

/-- The stores into a record of `size` zeroed bytes. -/
def fillRecord (template : Template) (stringPack : Option (List CString)) (size : ℕ) :
    Except Fault (List UInt8) := do
  let record ← copyMem (List.replicate size 0) 0 template.bytes
  match lengthField record with
  | none => .error (.outside 1)
  | some length =>
      match stringPack with
      | none => .error .nullStringPack
      | some stringPack => do
          let (str, record) ← appendStrings stringPack length record
          copyMem record str [0]

/-- `LogSmbiosData`. -/
def logSmbiosData (services : Services) (template : Template)
    (stringPack : Option (List CString)) : Except Fault Logged :=
  if efiError services.locateProtocol then .ok ⟨services.locateProtocol, none, none⟩
  else
    let size := recordSize template stringPack
    if services.allocateZeroPool size then do
      let record ← fillRecord template stringPack size
      let (status, handle) := services.add record
      .ok ⟨status, some record, if status = efiSuccess then some handle else none⟩
    else .ok ⟨efiOutOfResources, none, none⟩

/-! ### What the stores leave in the record -/

/-- Copying to the end of what is filled so far. -/
theorem copyMem_append (done : List UInt8) {bytes : List UInt8} {room : ℕ}
    (h : bytes.length ≤ room) :
    copyMem (done ++ List.replicate room 0) done.length bytes =
      .ok (done ++ bytes ++ List.replicate (room - bytes.length) 0) := by
  have hfits : done.length + bytes.length ≤ (done ++ List.replicate room (0 : UInt8)).length := by
    rw [List.length_append, List.length_replicate]
    omega
  rw [copyMem, if_pos hfits, List.take_left, List.drop_append, List.drop_replicate,
    List.drop_eq_nil_of_le (Nat.le_add_right _ _), List.nil_append, Nat.add_sub_cancel_left]

/-- A store that returns was inside the record, which keeps its size. -/
theorem copyMem_eq_ok {record bytes out : List UInt8} {offset : ℕ}
    (h : copyMem record offset bytes = .ok out) :
    offset + bytes.length ≤ record.length ∧ out.length = record.length := by
  rw [copyMem] at h
  split_ifs at h with hfits
  cases h
  refine ⟨hfits, ?_⟩
  simp only [List.length_append, List.length_take, List.length_drop]
  omega

/-- What the strings of a pack are in a record. -/
def packBytes (stringPack : List CString) : List UInt8 :=
  Terminated.join 0 (stringPack.map (·.bytes))

/-- A pack of strings is its first string with its end, and the others. -/
theorem packBytes_cons (s : CString) (stringPack : List CString) :
    packBytes (s :: stringPack) = s.bytes ++ [0] ++ packBytes stringPack := by
  rw [packBytes, List.map_cons, Terminated.join_cons, List.append_assoc, List.singleton_append,
    packBytes]

/-- The length of a pack, string by string. -/
theorem packBytes_cons_length (s : CString) (stringPack : List CString) :
    (packBytes (s :: stringPack)).length = asciiStrSize s + (packBytes stringPack).length := by
  rw [packBytes_cons, List.length_append, List.length_append, List.length_singleton,
    asciiStrSize]

/-- A pack is as long as its strings together. -/
theorem packBytes_length (stringPack : List CString) :
    (packBytes stringPack).length = (stringPack.map asciiStrSize).sum := by
  induction stringPack with
  | nil => rfl
  | cons s stringPack ih =>
      rw [packBytes_cons_length, ih, List.map_cons, List.sum_cons]

/-- Strings that fit the room are put behind each other. -/
theorem appendStrings_eq_ok {stringPack : List CString} {done : List UInt8} {room : ℕ}
    (h : (packBytes stringPack).length ≤ room) :
    appendStrings stringPack done.length (done ++ List.replicate room 0) =
      .ok ((done ++ packBytes stringPack).length,
        done ++ packBytes stringPack ++
          List.replicate (room - (packBytes stringPack).length) 0) := by
  induction stringPack generalizing done room with
  | nil => simp [appendStrings, packBytes, Terminated.join]
  | cons s stringPack ih =>
      rw [packBytes_cons_length, asciiStrSize] at h
      have hlen : done.length + asciiStrSize s = (done ++ (s.bytes ++ [0])).length := by
        rw [List.length_append, List.length_append, List.length_singleton, asciiStrSize]
      have hstring : (s.bytes ++ [0]).length ≤ room := by
        rw [List.length_append, List.length_singleton]
        omega
      have hrest : (packBytes stringPack).length ≤ room - (s.bytes ++ [0]).length := by
        rw [List.length_append, List.length_singleton]
        omega
      rw [appendStrings, copyMem_append done hstring, ok_bind, hlen, ih hrest, packBytes_cons,
        Nat.sub_sub, ← List.length_append]
      simp only [List.append_assoc]

/-- The record keeps its length, and the place goes on by that of the strings. -/
theorem length_of_appendStrings {stringPack : List CString} {str str' : ℕ}
    {record record' : List UInt8}
    (h : appendStrings stringPack str record = .ok (str', record')) :
    str' = str + (packBytes stringPack).length ∧ record'.length = record.length := by
  induction stringPack generalizing str record with
  | nil =>
      cases h
      exact ⟨rfl, rfl⟩
  | cons s stringPack ih =>
      obtain ⟨next, hcopy, hrest⟩ := bind_eq_ok.mp h
      obtain ⟨hstr, hlen⟩ := ih hrest
      rw [packBytes_cons_length]
      exact ⟨by omega, hlen.trans (copyMem_eq_ok hcopy).2⟩

/-- The header tells the length of the structure also when something follows it. -/
theorem Template.lengthField_append (template : Template) (rest : List UInt8) :
    lengthField (template.bytes ++ rest) = some template.length := by
  have h := template.length_eq
  have hlen : 1 < template.bytes.length := by
    by_contra hle
    rw [lengthField, List.getElem?_eq_none (Nat.le_of_not_lt hle)] at h
    cases h
  rw [lengthField, List.getElem?_append_left hlen]
  exact h

/-- **A record with room.** The fixed part, the strings, and zeros up to the end. -/
theorem fillRecord_eq_ok {template : Template} {stringPack : List CString} {size : ℕ}
    (h : template.length + (packBytes stringPack).length + 1 ≤ size) :
    fillRecord template (some stringPack) size =
      .ok (template.bytes ++ packBytes stringPack ++
        List.replicate (size - template.length - (packBytes stringPack).length) 0) := by
  rw [Template.length] at h
  have hcopy : copyMem (List.replicate size 0) 0 template.bytes =
      .ok (template.bytes ++ List.replicate (size - template.bytes.length) 0) :=
    copyMem_append [] (Nat.le_trans (Nat.le_add_right _ _) (Nat.le_of_succ_le h))
  rw [fillRecord, hcopy, ok_bind]
  simp only [template.lengthField_append]
  rw [Template.length, appendStrings_eq_ok (by omega), ok_bind]
  have hroom : 1 ≤ size - template.bytes.length - (packBytes stringPack).length := by omega
  have hlast : [(0 : UInt8)].length ≤ _ := hroom
  refine (copyMem_append _ hlast).trans ?_
  rw [List.append_assoc _ [0], List.singleton_append, ← List.replicate_succ,
    List.length_singleton, Nat.sub_add_cancel hroom]

/-- **A record without room** is left by some store. -/
theorem size_le_of_fillRecord {template : Template} {stringPack : List CString} {size : ℕ}
    {record : List UInt8} (h : fillRecord template (some stringPack) size = .ok record) :
    template.length + (packBytes stringPack).length + 1 ≤ size := by
  obtain ⟨first, hfirst, h⟩ := bind_eq_ok.mp h
  obtain ⟨hfits, hlen⟩ := copyMem_eq_ok hfirst
  rw [copyMem, if_pos hfits, List.take_zero, List.nil_append] at hfirst
  cases hfirst
  simp only [template.lengthField_append] at h
  obtain ⟨⟨str, second⟩, happend, hlast⟩ := bind_eq_ok.mp h
  obtain ⟨hstr, hsecond⟩ := length_of_appendStrings happend
  have hstore := (copyMem_eq_ok hlast).1
  rw [List.length_singleton, hsecond, hlen, List.length_replicate, hstr] at hstore
  exact hstore

/-! ### The size of the record -/

/-- The running size, in its 64 bits. -/
theorem foldl_add_mod (stringPack : List CString) (size : ℕ) (h : size < 2 ^ 64) :
    stringPack.foldl (fun size s => (size + asciiStrSize s) % 2 ^ 64) size =
      (size + (packBytes stringPack).length) % 2 ^ 64 := by
  induction stringPack generalizing size with
  | nil => exact (Nat.mod_eq_of_lt h).symm
  | cons s stringPack ih =>
      rw [List.foldl_cons, ih _ (Nat.mod_lt _ (Nat.two_pow_pos 64)), Nat.mod_add_mod,
        packBytes_cons_length, Nat.add_assoc]

/-- The length of a template is one byte. -/
theorem Template.length_lt (template : Template) : template.length < 256 := by
  obtain ⟨b, -, hb⟩ := Option.map_eq_some_iff.mp template.length_eq
  rw [Template.length, ← hb]
  exact b.toNat_lt

/-- Without strings two zeros end the record. -/
theorem recordSize_nil (template : Template) :
    recordSize template (some []) = template.length + 2 := by
  have h := template.length_lt
  simp only [recordSize, List.foldl_nil, if_true]
  omega

/-- With strings one more zero does. -/
theorem recordSize_cons (template : Template) (s : CString) (stringPack : List CString) :
    recordSize template (some (s :: stringPack)) =
      (template.length + (packBytes (s :: stringPack)).length + 1) % 2 ^ 64 := by
  have h := template.length_lt
  have hlt : template.length < 2 ^ 64 := by omega
  simp only [recordSize, foldl_add_mod _ _ hlt, reduceCtorEq, if_false, Nat.mod_add_mod]

/-! ### The entry point -/

/-- The handles that the entry point keeps: the variable `SmbiosHandle` and the fields of
later structures it is stored to. -/
structure Handles where
  smbiosHandle : Handle
  chassisHandle : Handle
  a75L1CacheHandle : Handle
  a55L1CacheHandle : Handle
  a75L2CacheHandle : Handle
  a55L2CacheHandle : Handle
  memoryArrayHandle : Handle

/-- The fixed structures of the driver; some hold a handle or an address range. -/
structure Templates where
  mBIOSInfoType0 : Template
  mSysInfoType1 : Template
  mBoardInfoType2 : Handle → Template
  mEnclosureInfoType3 : Template
  mProcessorInfoType4_a75 : Handle → Handle → Template
  mProcessorInfoType4_a55 : Handle → Handle → Template
  mCacheInfoType7_a75_L1I : Template
  mCacheInfoType7_a55_L1I : Template
  mCacheInfoType7_a75_L1D : Template
  mCacheInfoType7_a55_L1D : Template
  mCacheInfoType7_a75_L2 : Template
  mCacheInfoType7_a55_L2 : Template
  mSysSlotInfoType9_0 : Template
  mSysSlotInfoType9_1 : Template
  mSysSlotInfoType9_2 : Template
  mSysSlotInfoType9_3 : Template
  mOemStringsType11 : Template
  mPhyMemArrayInfoType16 : Template
  mMemDevInfoType17 : Handle → Template
  mMemArrMapInfoType19 : Handle → FdtBank → Template
  mBootInfoType32 : Template

/-- What the entry point meets: the structures, the version text `AsciiSPrint` leaves in its
buffer, `__DATE__`, the three device strings of the platform, the memory banks of the device
tree, the value `SmbiosHandle` starts with, and the services at each call. -/
structure Platform where
  templates : Templates
  mBiosVersion : Buffer 128
  mBiosDate : Buffer 12
  pcdDeviceVendor : CString
  pcdDeviceProduct : CString
  pcdDeviceCodeName : CString
  banks : List FdtBank
  handles : Handles
  services : ℕ → Services

namespace Platform

variable (p : Platform)

def mSysInfoManufName : Buffer 128 :=
  asciiStrCpyS (Buffer.blank 128 (by decide)) p.pcdDeviceVendor

def mSysInfoProductName : Buffer 128 :=
  asciiStrCpyS (Buffer.blank 128 (by decide)) p.pcdDeviceProduct

def mSysInfoVersionName : Buffer 128 :=
  asciiStrCpyS (Buffer.blank 128 (by decide)) p.pcdDeviceCodeName

/-- No function stores to it. -/
def mChassisAssetTag : Buffer 128 := Buffer.blank 128 (by decide)

def mBiosVendor : CString := literal "Renegade-Project"
def mSysInfoSerial : CString := literal "Serial Not Set"
def mSysInfoSKU : CString := literal "SKU Not Set"

def mBIOSInfoType0Strings : List CString :=
  [mBiosVendor, p.mBiosVersion.string, p.mBiosDate.string]

def mSysInfoType1Strings : List CString :=
  [p.mSysInfoManufName.string, p.mSysInfoProductName.string, p.mSysInfoVersionName.string,
    mSysInfoSerial, mSysInfoSKU, literal "Snapdragon 835 Device"]

def mBoardInfoType2Strings : List CString :=
  [p.mSysInfoManufName.string, p.mSysInfoProductName.string, p.mSysInfoVersionName.string,
    mSysInfoSerial, mChassisAssetTag.string, literal "Portable"]

def mEnclosureInfoType3Strings : List CString :=
  [p.mSysInfoManufName.string, p.mSysInfoProductName.string, mSysInfoSerial,
    mChassisAssetTag.string]

def mProcessorInfoType4Strings : List CString :=
  [literal "BGA", literal "Qualcomm", literal "Snapdragon (TM) 835 @ 2.45 GHz"]

def mCacheInfoType7Strings : List CString :=
  [literal "L1 Instruction", literal "L1 Data", literal "L2"]

def mSysSlotInfoType9Strings : List CString :=
  [literal "PCIE Slot 0", literal "PCIE Slot 1", literal "PCIE Slot 2", literal "PCIE Slot 3"]

def mOemStringsType11Strings : List CString :=
  [literal "https://github.com/edk2-porting/edk2-msm8998"]

def mPhyMemArrayInfoType16Strings : List CString := []
def mMemDevInfoType17Strings : List CString := [literal "Builtin", literal "BANK 0"]
def mMemArrMapInfoType19Strings : List CString := []
def mBootInfoType32Strings : List CString := []

end Platform

/-- One call of `LogSmbiosData` in the entry point: the structure as it is by then, the
strings, whether `&SmbiosHandle` is passed, and what is done with `SmbiosHandle` next. -/
structure Step where
  template : Handles → Template
  stringPack : List CString
  wantsHandle : Bool
  store : Handles → Handles

/-- A call that passes no handle pointer. -/
def Step.plain (template : Handles → Template) (stringPack : List CString) : Step :=
  ⟨template, stringPack, false, id⟩

/-- The calls of `PlatformSmbiosDriverEntryPoint`, in order. -/
def Platform.steps (p : Platform) : List Step :=
  let t := p.templates
  [.plain (fun _ => t.mBIOSInfoType0) p.mBIOSInfoType0Strings,
    .plain (fun _ => t.mSysInfoType1) p.mSysInfoType1Strings,
    ⟨fun _ => t.mEnclosureInfoType3, p.mEnclosureInfoType3Strings, true,
      fun h => { h with chassisHandle := h.smbiosHandle }⟩,
    .plain (fun h => t.mBoardInfoType2 h.chassisHandle) p.mBoardInfoType2Strings,
    .plain (fun _ => t.mCacheInfoType7_a75_L1I) mCacheInfoType7Strings,
    .plain (fun _ => t.mCacheInfoType7_a55_L1I) mCacheInfoType7Strings,
    ⟨fun _ => t.mCacheInfoType7_a75_L1D, mCacheInfoType7Strings, true,
      fun h => { h with a75L1CacheHandle := h.smbiosHandle }⟩,
    ⟨fun _ => t.mCacheInfoType7_a55_L1D, mCacheInfoType7Strings, true,
      fun h => { h with a55L1CacheHandle := h.smbiosHandle }⟩,
    ⟨fun _ => t.mCacheInfoType7_a75_L2, mCacheInfoType7Strings, true,
      fun h => { h with a75L2CacheHandle := h.smbiosHandle }⟩,
    ⟨fun _ => t.mCacheInfoType7_a55_L2, mCacheInfoType7Strings, true,
      fun h => { h with a55L2CacheHandle := h.smbiosHandle }⟩,
    .plain (fun h => t.mProcessorInfoType4_a75 h.a75L1CacheHandle h.a75L2CacheHandle)
      mProcessorInfoType4Strings,
    .plain (fun h => t.mProcessorInfoType4_a55 h.a55L1CacheHandle h.a55L2CacheHandle)
      mProcessorInfoType4Strings,
    .plain (fun _ => t.mSysSlotInfoType9_0) mSysSlotInfoType9Strings,
    .plain (fun _ => t.mSysSlotInfoType9_1) mSysSlotInfoType9Strings,
    .plain (fun _ => t.mSysSlotInfoType9_2) mSysSlotInfoType9Strings,
    .plain (fun _ => t.mSysSlotInfoType9_3) mSysSlotInfoType9Strings,
    .plain (fun _ => t.mOemStringsType11) mOemStringsType11Strings,
    ⟨fun _ => t.mPhyMemArrayInfoType16, mPhyMemArrayInfoType16Strings, true,
      fun h => { h with memoryArrayHandle := h.smbiosHandle }⟩,
    .plain (fun h => t.mMemDevInfoType17 h.memoryArrayHandle) mMemDevInfoType17Strings] ++
  p.banks.map (fun bank =>
    .plain (fun h => t.mMemArrMapInfoType19 h.memoryArrayHandle bank)
      mMemArrMapInfoType19Strings) ++
  [.plain (fun _ => t.mBootInfoType32) mBootInfoType32Strings]

/-- One call that was made. -/
structure Call where
  template : Template
  stringPack : List CString
  logged : Logged

/-- The calls made so far and the handles. -/
structure Run where
  calls : List Call
  handles : Handles

/-- Make one call; its status is not looked at. -/
def Run.step (services : ℕ → Services) (run : Run) (s : Step) : Except Fault Run := do
  let template := s.template run.handles
  let logged ← logSmbiosData (services run.calls.length) template (some s.stringPack)
  let handles := match s.wantsHandle, logged.handle with
    | true, some handle => { run.handles with smbiosHandle := handle }
    | _, _ => run.handles
  .ok ⟨run.calls ++ [⟨template, s.stringPack, logged⟩], s.store handles⟩

/-- `PlatformSmbiosDriverEntryPoint`, with the calls it made. -/
def platformSmbiosDriverEntryPoint (p : Platform) : Except Fault (List Call) := do
  let run ← p.steps.foldlM (Run.step p.services) ⟨[], p.handles⟩
  .ok run.calls

end Smbios

end Msm8998
