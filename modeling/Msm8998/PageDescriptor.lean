import Msm8998.BitMask
import Msm8998.PlatformMap

/-!
# Translation Table Descriptors

The `TT_*` macros of the AArch64 MMU library, taken to be the ARMv8 layout for the
4 KiB granule: descriptor types, address and attribute masks, the offset of a table
level in a virtual address, and the page attributes that `ArmMmuLib` derives from the
attributes of a memory region.

Levels are `UINTN` values, and `TT_ADDRESS_OFFSET_AT_LEVEL` subtracts them from three,
so the offset is computed modulo `2 ^ 64` like the source does. For the levels of a real
walk, zero to three, it is `39 - 9 * level` (`ttAddressOffsetAtLevel_eq`); the proofs
count a level by the number of levels below it, for which the offset is `12 + 9 * n`.
-/

namespace Msm8998

/-- Subtraction of `UINT64` values. -/
def sub64 (a b : ℕ) : ℕ := (a + 2 ^ 64 - b) % 2 ^ 64

/-- A difference that is not negative does not wrap. -/
theorem sub64_eq {a b : ℕ} (hba : b ≤ a) (ha : a < 2 ^ 64) : sub64 a b = a - b := by
  rw [sub64, show a + 2 ^ 64 - b = (a - b) + 2 ^ 64 by omega, Nat.add_mod_right,
    Nat.mod_eq_of_lt (by omega)]

/-! ### Masks -/

def ttTypeMask : ℕ := 0x3
def ttTypeTableEntry : ℕ := 0x3
def ttTypeBlockEntry : ℕ := 0x1
def ttTypeBlockEntryLevel3 : ℕ := 0x3

/-- `TT_ADDRESS_MASK_BLOCK_ENTRY`: output address bits 12 to 47. -/
def ttAddressMaskBlockEntry : ℕ := 0xFFFFFFFFF <<< 12

/-- `TT_ADDRESS_MASK_DESCRIPTION_TABLE`: next-level table address bits 12 to 47. -/
def ttAddressMaskDescriptionTable : ℕ := 0xFFFFFFFFF <<< 12

/-- `TT_ATTRIBUTES_MASK`: the upper and lower attribute fields of a leaf. -/
def ttAttributesMask : ℕ := (0xFFF <<< 52) ||| (0x3FF <<< 2)

def ttAttrIndxDeviceMemory : ℕ := 0x0 <<< 2
def ttAttrIndxMemoryNonCacheable : ℕ := 0x1 <<< 2
def ttAttrIndxMemoryWriteThrough : ℕ := 0x2 <<< 2
def ttAttrIndxMemoryWriteBack : ℕ := 0x3 <<< 2
def ttNs : ℕ := 1 <<< 5
def ttShInnerShareable : ℕ := 0x3 <<< 8
def ttAf : ℕ := 1 <<< 10
def ttPxnMask : ℕ := 1 <<< 53
def ttUxnMask : ℕ := 1 <<< 54
def ttXnMask : ℕ := 1 <<< 54

/-- `TT_TABLE_AP_NO_PERMISSION`. -/
def ttTableApNoPermission : ℕ := 0x0 <<< 61
def ttTableNs : ℕ := 1 <<< 63

/-- The attribute bits of a table descriptor, 59 to 63. -/
def ttTableAttributesMask : ℕ := 0x1F <<< 59

/-- `TT_ENTRY_COUNT`. -/
def ttEntryCount : ℕ := 512

/-- `TT_ADDRESS_OFFSET_AT_LEVEL`, in `UINTN` arithmetic. -/
def ttAddressOffsetAtLevel (level : ℕ) : ℕ := (12 + sub64 3 level * 9) % 2 ^ 64

/-- `TT_GET_ENTRY_FOR_ADDRESS`, for a level whose offset is `off`. -/
def ttGetEntryForAddress (table off address : ℕ) : ℕ :=
  table + ((address >>> off) &&& (2 ^ 9 - 1)) * 8

/-- `TT_LAST_BLOCK_ADDRESS`. -/
def ttLastBlockAddress (table entryCount : ℕ) : ℕ := table + (entryCount - 1) * 8

/-- The offset of a level that has `n` levels below it. -/
theorem ttAddressOffsetAtLevel_eq {level n : ℕ} (h : level + n = 3) :
    ttAddressOffsetAtLevel level = 12 + 9 * n := by
  have hn : n ≤ 3 := by omega
  rw [ttAddressOffsetAtLevel, sub64_eq (by omega) (by decide), show 3 - level = n by omega,
    Nat.mod_eq_of_lt (by omega), Nat.mul_comm]

/-- The index of an address in a table is its quotient by the entry size, modulo 512. -/
theorem ttGetEntryForAddress_eq (table off address : ℕ) :
    ttGetEntryForAddress table off address = table + address / 2 ^ off % 512 * 8 := by
  rw [ttGetEntryForAddress, Nat.shiftRight_eq_div_pow, Nat.and_two_pow_sub_one_eq_mod]

/-! ### Page attributes of a memory region -/

/-- The exception level the firmware runs at. -/
inductive ExceptionLevel
  | el1 | el2 | el3
deriving Repr, DecidableEq

/-- `ArmMemoryAttributeToPageAttribute`. The `default` case of the source is reached by
no member of the enumeration. -/
def armMemoryAttributeToPageAttribute (el : ExceptionLevel) :
    ArmMemoryRegionAttributes → ℕ
  | .writeBackNonshareable | .nonsecureWriteBackNonshareable => ttAttrIndxMemoryWriteBack
  | .writeBack | .nonsecureWriteBack => ttAttrIndxMemoryWriteBack ||| ttShInnerShareable
  | .writeThrough | .nonsecureWriteThrough =>
      ttAttrIndxMemoryWriteThrough ||| ttShInnerShareable
  | .uncachedUnbuffered | .nonsecureUncachedUnbuffered => ttAttrIndxMemoryNonCacheable
  | .device | .nonsecureDevice =>
      if el = .el2 then ttAttrIndxDeviceMemory ||| ttXnMask
      else ttAttrIndxDeviceMemory ||| ttUxnMask ||| ttPxnMask

/-- The attribute word `FillTranslationTable` passes down for a region. -/
def pageAttributes (el : ExceptionLevel) (a : ArmMemoryRegionAttributes) : ℕ :=
  armMemoryAttributeToPageAttribute el a ||| ttAf

open BitMask

/-- Page attributes only occupy the attribute fields of a leaf. -/
theorem pageAttributes_within (el : ExceptionLevel) (a : ArmMemoryRegionAttributes) :
    Within (pageAttributes el a) ttAttributesMask := by
  cases el <;> cases a <;> decide

/-- Page attributes never set the non-secure bit. -/
theorem pageAttributes_and_ttNs (el : ExceptionLevel) (a : ArmMemoryRegionAttributes) :
    pageAttributes el a &&& ttNs = 0 := by
  cases el <;> cases a <;> decide

/-! ### Reading descriptor words -/

/-- A page-aligned address below `2 ^ 48` is within the address field. -/
theorem within_addressMask {a : ℕ} (hdvd : 2 ^ 12 ∣ a) (hlt : a < 2 ^ 48) :
    Within a ttAddressMaskBlockEntry :=
  within_of_dvd (w := 36) hdvd hlt

/-- The two address masks of the source are the same field. -/
theorem addressMaskDescriptionTable_eq :
    ttAddressMaskDescriptionTable = ttAddressMaskBlockEntry := rfl

/-- The three fields of a leaf descriptor word. -/
structure LeafFields (w addr attrs type : ℕ) : Prop where
  address : w &&& ttAddressMaskBlockEntry = addr
  attributes : w &&& ttAttributesMask = attrs
  type : w &&& ttTypeMask = type

/-- A word assembled from an address, attributes and a type reads back as those three. -/
theorem leafFields_or {addr attrs type : ℕ} (haddr : Within addr ttAddressMaskBlockEntry)
    (hattrs : Within attrs ttAttributesMask) (htype : Within type ttTypeMask) :
    LeafFields (addr ||| attrs ||| type) addr attrs type := by
  obtain ⟨h1, h2, h3⟩ :=
    or_and_fields haddr hattrs htype (by decide) (by decide) (by decide)
  exact ⟨h1, h2, h3⟩

/-- The word stored into the parent entry of a new table. -/
def tableEntryWord (page tableAttributes : ℕ) : ℕ :=
  (page &&& ttAddressMaskDescriptionTable) ||| tableAttributes ||| ttTypeTableEntry

/-- A table word assembled from a page address and table attributes: type, next-level
address and attribute bits. -/
theorem tableWord_fields {page attrs : ℕ} (hpage : Within page ttAddressMaskBlockEntry)
    (hattrs : Within attrs ttTableAttributesMask) :
    (page ||| attrs ||| ttTypeTableEntry) &&& ttTypeMask = ttTypeTableEntry ∧
      (page ||| attrs ||| ttTypeTableEntry) &&& ttAddressMaskDescriptionTable = page ∧
      (page ||| attrs ||| ttTypeTableEntry) &&& ttTableAttributesMask = attrs := by
  have htype : Within ttTypeTableEntry ttTypeMask := by decide
  obtain ⟨h1, h2, h3⟩ :=
    or_and_fields hpage hattrs htype (by decide) (by decide) (by decide)
  exact ⟨h3, h1, h2⟩

end Msm8998
