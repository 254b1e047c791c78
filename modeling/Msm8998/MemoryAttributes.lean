import Msm8998.BitUpdate
import Msm8998.EntryRefinement

/-!
# Changing the Permissions of a Region

This module models the functions of `ArmMmuLib` that change the attributes of a region of the
live table: `ArmSetMemoryAttributes` and the four functions that set and clear the no-execute
and read-only attributes. All of them run `UpdateRegionMapping` with a word to set and a mask
to keep.

A call that only changes permissions is a `PermissionCall`. What it is to do to the attributes
of a page is to clear some permission bits and to set some (`PermissionCall.apply`).

The table descriptors on the way to a page can restrict its permissions (`restrictions`). Where
they do, they restrict the new ones too, whatever the call specifies.

## Main results

* `PermissionCall.entryUpdate`: what a call does to one entry, under restrictions;
* `PermissionCall.run_onlyPermissions`: a call that succeeds updates the permissions of the region
  and nothing else.
-/

namespace Msm8998

open BitMask

/-! ### Attributes -/

def ttAttrIndxMask : ℕ := 0x7 <<< 2
def ttApMask : ℕ := 0x3 <<< 6
def ttApNoRw : ℕ := 0x0 <<< 6
def ttApRwRw : ℕ := 0x1 <<< 6
def ttApRoRo : ℕ := 0x3 <<< 6

def efiMemoryUc : ℕ := 0x1
def efiMemoryWc : ℕ := 0x2
def efiMemoryWt : ℕ := 0x4
def efiMemoryWb : ℕ := 0x8
def efiMemoryXp : ℕ := 0x4000
def efiMemoryRo : ℕ := 0x20000

/-- `EFI_MEMORY_CACHETYPE_MASK`. -/
def efiMemoryCachetypeMask : ℕ := 0x1F

/-- `~m` of a `UINT64`. -/
def not64 (m : ℕ) : ℕ := complement 64 m

/-- `GcdAttributeToPageAttribute`. -/
def gcdAttributeToPageAttribute (el : ExceptionLevel) (gcdAttributes : ℕ) : ℕ :=
  let cacheType := gcdAttributes &&& efiMemoryCachetypeMask
  let pageAttributes :=
    if cacheType = efiMemoryUc then ttAttrIndxDeviceMemory
    else if cacheType = efiMemoryWc then ttAttrIndxMemoryNonCacheable
    else if cacheType = efiMemoryWt then ttAttrIndxMemoryWriteThrough ||| ttShInnerShareable
    else if cacheType = efiMemoryWb then ttAttrIndxMemoryWriteBack ||| ttShInnerShareable
    else ttAttrIndxMask
  let pageAttributes :=
    if gcdAttributes &&& efiMemoryXp ≠ 0 ∨ cacheType = efiMemoryUc then
      pageAttributes ||| (if el = .el2 then ttXnMask else ttUxnMask ||| ttPxnMask)
    else pageAttributes
  let pageAttributes :=
    if gcdAttributes &&& efiMemoryRo ≠ 0 then pageAttributes ||| ttApRoRo else pageAttributes
  pageAttributes ||| ttAf

/-! ### The functions of the library -/

section Functions

variable (alloc : ℕ → Option ℕ) (fuel : ℕ) (el : ExceptionLevel) (baseAddress length : ℕ)
  (st : MmuState)

/-- `ArmSetMemoryAttributes`. -/
def armSetMemoryAttributes (attributes : ℕ) : Except Halt EfiStatus × MmuState :=
  let pageAttributes := gcdAttributeToPageAttribute el attributes
  if attributes &&& efiMemoryCachetypeMask = 0 then
    -- no memory type, so only the permissions are updated
    updateRegionMapping alloc fuel st.ttbr0 baseAddress length
      (pageAttributes &&& (ttApMask ||| ttUxnMask ||| ttPxnMask))
      (not64 (ttAddressMaskBlockEntry ||| ttApMask ||| ttPxnMask ||| ttXnMask)) st
  else updateRegionMapping alloc fuel st.ttbr0 baseAddress length pageAttributes 0 st

/-- `SetMemoryRegionAttribute`. -/
def setMemoryRegionAttribute (attributes blockEntryMask : ℕ) :
    Except Halt EfiStatus × MmuState :=
  updateRegionMapping alloc fuel st.ttbr0 baseAddress length attributes blockEntryMask st

/-- `ArmSetMemoryRegionNoExec`. -/
def armSetMemoryRegionNoExec : Except Halt EfiStatus × MmuState :=
  setMemoryRegionAttribute alloc fuel baseAddress length st
    (if el = .el1 then ttPxnMask ||| ttUxnMask else ttXnMask) (not64 ttAddressMaskBlockEntry)

/-- `ArmClearMemoryRegionNoExec`. -/
def armClearMemoryRegionNoExec : Except Halt EfiStatus × MmuState :=
  setMemoryRegionAttribute alloc fuel baseAddress length st 0
    (not64 (ttAddressMaskBlockEntry ||| ttPxnMask ||| ttXnMask))

/-- `ArmSetMemoryRegionReadOnly`. -/
def armSetMemoryRegionReadOnly : Except Halt EfiStatus × MmuState :=
  setMemoryRegionAttribute alloc fuel baseAddress length st ttApRoRo
    (not64 ttAddressMaskBlockEntry)

/-- `ArmClearMemoryRegionReadOnly`. -/
def armClearMemoryRegionReadOnly : Except Halt EfiStatus × MmuState :=
  setMemoryRegionAttribute alloc fuel baseAddress length st ttApRwRw
    (not64 (ttAddressMaskBlockEntry ||| ttApMask))

end Functions

/-! ### Calls that only change permissions -/

/-- The permission bits of a leaf: access permissions and execute-never. -/
def permissionMask : ℕ := ttApMask ||| ttPxnMask ||| ttUxnMask

/-- A call that only changes permissions. -/
inductive PermissionCall
  | setMemoryAttributes (attributes : ℕ) (noType : attributes &&& efiMemoryCachetypeMask = 0)
  | setMemoryRegionNoExec
  | clearMemoryRegionNoExec
  | setMemoryRegionReadOnly
  | clearMemoryRegionReadOnly

namespace PermissionCall

/-- Run the function of a call on a region. -/
def run (alloc : ℕ → Option ℕ) (fuel : ℕ) (el : ExceptionLevel) (baseAddress length : ℕ)
    (st : MmuState) : PermissionCall → Except Halt EfiStatus × MmuState
  | setMemoryAttributes attributes _ =>
      armSetMemoryAttributes alloc fuel el baseAddress length st attributes
  | setMemoryRegionNoExec => armSetMemoryRegionNoExec alloc fuel el baseAddress length st
  | clearMemoryRegionNoExec => armClearMemoryRegionNoExec alloc fuel baseAddress length st
  | setMemoryRegionReadOnly => armSetMemoryRegionReadOnly alloc fuel baseAddress length st
  | clearMemoryRegionReadOnly => armClearMemoryRegionReadOnly alloc fuel baseAddress length st

/-- The permission bits that a call takes away first. -/
def cleared : PermissionCall → ℕ
  | setMemoryAttributes _ _ => permissionMask
  | setMemoryRegionNoExec | setMemoryRegionReadOnly => 0
  | clearMemoryRegionNoExec => ttPxnMask ||| ttUxnMask
  | clearMemoryRegionReadOnly => ttApMask

/-- The permission bits that a call then sets. Execute-never is one bit at EL2, and one for
each of two privileges else. -/
def assigned (el : ExceptionLevel) : PermissionCall → ℕ
  | setMemoryAttributes attributes _ =>
      (if attributes &&& efiMemoryXp ≠ 0 then
        (if el = .el2 then ttXnMask else ttUxnMask ||| ttPxnMask) else 0) |||
      (if attributes &&& efiMemoryRo ≠ 0 then ttApRoRo else ttApNoRw)
  | setMemoryRegionNoExec => if el = .el1 then ttPxnMask ||| ttUxnMask else ttXnMask
  | clearMemoryRegionNoExec => 0
  | setMemoryRegionReadOnly => ttApRoRo
  | clearMemoryRegionReadOnly => ttApRwRw

/-- What a call is to do to the attributes of a page. -/
def apply (el : ExceptionLevel) (call : PermissionCall) (attributes : ℕ) : ℕ :=
  update 64 call.cleared (call.assigned el) attributes

/-- A call clears no other bits than those of the permissions. -/
theorem cleared_within (call : PermissionCall) : Within call.cleared permissionMask := by
  have hmask : Within permissionMask permissionMask ∧ Within 0 permissionMask ∧
      Within (ttPxnMask ||| ttUxnMask) permissionMask ∧ Within ttApMask permissionMask := by decide
  cases call with
  | setMemoryAttributes attributes noType => exact hmask.1
  | setMemoryRegionNoExec | setMemoryRegionReadOnly => exact hmask.2.1
  | clearMemoryRegionNoExec => exact hmask.2.2.1
  | clearMemoryRegionReadOnly => exact hmask.2.2.2

/-- Nor does it set others. -/
theorem assigned_within (el : ExceptionLevel) (call : PermissionCall) :
    Within (call.assigned el) permissionMask := by
  have hmask : Within ttApRoRo permissionMask ∧ Within ttApRwRw permissionMask := by decide
  cases call with
  | setMemoryAttributes attributes noType =>
      rw [assigned]
      refine Within.or ?_ ?_
      · split
        · split <;> decide
        · exact within_zero _
      · split <;> decide
  | setMemoryRegionNoExec =>
      rw [assigned]
      split <;> decide
  | clearMemoryRegionNoExec => exact within_zero _
  | setMemoryRegionReadOnly => exact hmask.1
  | clearMemoryRegionReadOnly => exact hmask.2

/-- Without a memory type the attributes of `ArmSetMemoryAttributes` come down to their
permissions. -/
theorem gcdAttributeToPageAttribute_permissions (el : ExceptionLevel) {attributes : ℕ}
    (noType : attributes &&& efiMemoryCachetypeMask = 0) :
    gcdAttributeToPageAttribute el attributes &&& (ttApMask ||| ttUxnMask ||| ttPxnMask) =
      (setMemoryAttributes attributes noType).assigned el := by
  rw [gcdAttributeToPageAttribute, assigned, noType]
  have hnone : ¬ 0 = efiMemoryUc := by decide
  by_cases hxp : attributes &&& efiMemoryXp ≠ 0
  · simp only [if_pos hxp, if_pos (Or.inl hxp)]
    split
    · cases el <;> rfl
    · cases el <;> rfl
  · simp only [if_neg hxp, if_neg (not_or.mpr ⟨hxp, hnone⟩)]
    split
    · rfl
    · rfl

/-- Every call is a run of `UpdateRegionMapping` with the bits that it is to set, which keeps
all but the address and the bits that it is to take away. -/
theorem run_eq (alloc : ℕ → Option ℕ) (fuel : ℕ) (el : ExceptionLevel)
    (baseAddress length : ℕ) (st : MmuState) (call : PermissionCall) :
    call.run alloc fuel el baseAddress length st =
      updateRegionMapping alloc fuel st.ttbr0 baseAddress length (call.assigned el)
        (not64 (ttAddressMaskBlockEntry ||| call.cleared)) st := by
  cases call with
  | setMemoryAttributes attributes noType =>
      have hmask : ttAddressMaskBlockEntry ||| ttApMask ||| ttPxnMask ||| ttXnMask =
        ttAddressMaskBlockEntry ||| permissionMask := by decide
      rw [run, armSetMemoryAttributes, if_pos noType,
        gcdAttributeToPageAttribute_permissions el noType, hmask]
      rfl
  | _ => rfl

end PermissionCall

/-! ### Restrictions by table descriptors -/

/-- What the table descriptors take away from the attributes of a leaf. -/
def withdrawnBits (tableAttributes : ℕ) : ℕ := if tableAttributes.testBit 61 then 1 <<< 6 else 0

/-- What they force on the attributes of a leaf. -/
def forcedBits (tableAttributes : ℕ) : ℕ :=
  (if tableAttributes.testBit 59 then 1 <<< 53 else 0) |||
    (if tableAttributes.testBit 60 then 1 <<< 54 else 0) |||
    (if tableAttributes.testBit 62 then 1 <<< 7 else 0) |||
    (if tableAttributes.testBit 63 then 1 <<< 5 else 0)

/-- What tables withdraw lies in the 64 bits of an entry. -/
theorem withdrawnBits_lt (t : ℕ) : withdrawnBits t < 2 ^ 64 := by
  rw [withdrawnBits]
  split <;> decide

/-- So does what they force. -/
theorem forcedBits_lt (t : ℕ) : forcedBits t < 2 ^ 64 := by
  refine Nat.or_lt_two_pow (Nat.or_lt_two_pow (Nat.or_lt_two_pow ?_ ?_) ?_) ?_ <;>
    split <;> decide

/-- Hierarchical control is an update of the attributes. -/
theorem hierarchical_eq_update (t : ℕ) {attrs : ℕ} (hattrs : attrs < 2 ^ 64) :
    hierarchical t attrs = update 64 (withdrawnBits t) (forcedBits t) attrs := by
  have hkeep : (if t.testBit 61 then attrs &&& (0xFFFFFFFFFFFFFFFF ^^^ 1 <<< 6) else attrs) =
      attrs &&& complement 64 (withdrawnBits t) := by
    rw [withdrawnBits]
    split
    · rfl
    · rw [complement, Nat.xor_zero, Nat.and_two_pow_sub_one_of_lt_two_pow hattrs]
  rw [hierarchical, hkeep, update, forcedBits, Nat.or_assoc, Nat.or_assoc, Nat.or_assoc,
    Nat.or_assoc, Nat.or_assoc]

/-! ### One entry -/

section Entry

variable {n x w cleared assigned : ℕ}

/-- The fields of an entry after an update of its permissions. -/
theorem updatedWord_fields (hx : x < 2 ^ 48) (hcleared : Within cleared permissionMask)
    (hassigned : Within assigned permissionMask) :
    LeafFields (updatedWord assigned (not64 (ttAddressMaskBlockEntry ||| cleared)) n x w)
      (x / blockSize n * blockSize n) (update 64 cleared assigned (w &&& ttAttributesMask))
      (w &&& ttTypeMask ||| leafType n) := by
  have hpermission : Within permissionMask ttAttributesMask := by decide
  obtain ⟨haddr, hattrs, htype⟩ :=
    leafWord_fields (n := n) hx (hassigned.mono hpermission)
  have hmask : not64 (ttAddressMaskBlockEntry ||| cleared) =
    complement 64 (ttAddressMaskBlockEntry ||| cleared) := rfl
  refine ⟨?_, ?_, ?_⟩
  · have hlt : ttAddressMaskBlockEntry < 2 ^ 64 := by decide
    have hgone := complement_and_of_within hlt
      (Within.or_right (Nat.and_self ttAddressMaskBlockEntry) cleared)
    rw [updatedWord, hmask, Nat.and_or_distrib_right, Nat.and_assoc, hgone, Nat.and_zero,
      Nat.zero_or, haddr]
  · have hlt : ttAttributesMask < 2 ^ 64 := by decide
    have hdisjoint : ttAttributesMask &&& ttAddressMaskBlockEntry = 0 := by decide
    rw [updatedWord, hmask, Nat.and_or_distrib_right, Nat.and_assoc,
      complement_or_and hlt hdisjoint, hattrs, update, Nat.and_comm (complement 64 cleared),
      Nat.and_assoc]
  · have hlt : ttTypeMask < 2 ^ 64 := by decide
    have hdisjoint : ttTypeMask &&& (ttAddressMaskBlockEntry ||| cleared) = 0 := by
      have hfields : permissionMask &&& ttTypeMask = 0 := by decide
      rw [Nat.and_or_distrib_left, Nat.and_comm _ cleared, hcleared.and_eq_zero hfields]
      decide
    rw [updatedWord, hmask, Nat.and_or_distrib_right, Nat.and_assoc,
      complement_and hlt hdisjoint, htype]

/-- The type of a leaf entry is the one that the update sets. -/
theorem LeafOk.type_or {secure : Prop} (h : LeafOk secure n x w) :
    w &&& ttTypeMask ||| leafType n = leafType n := by
  rw [leafType]
  rcases h.identity with hinv | ⟨⟨h0, htype⟩ | ⟨hn, htype⟩, -⟩
  · rw [hinv, Nat.zero_or]
  · dsimp only at h0 htype
    rw [htype, if_pos h0]
    rfl
  · dsimp only at hn htype
    rw [htype, if_neg (by omega)]
    rfl

/-- An entry with the type of its level is a valid leaf. -/
theorem valid_of_leafType (hn : n ≤ 2) (htype : w &&& ttTypeMask = leafType n) (t : ℕ) :
    Leaf.Valid ⟨n, w, t⟩ := by
  rw [leafType] at htype
  by_cases h0 : n = 0
  · rw [if_pos h0] at htype
    exact Or.inl ⟨h0, htype⟩
  · rw [if_neg h0] at htype
    exact Or.inr ⟨by dsimp only; omega, htype⟩

end Entry

/-- What a change `f` of attributes does to the translation of a page that is mapped: it is
mapped to the same address, with the new attributes as the restrictions let them be. -/
def UpdatesPermissions (f : ℕ → ℕ) (restrictions : ℕ) (old new : Option Translation) : Prop :=
  ∀ tr, old = some tr →
    new = some ⟨tr.outputAddress, hierarchical restrictions (f tr.attributes)⟩

namespace PermissionCall

variable {secure : Prop} {n x w : ℕ} (el : ExceptionLevel) (call : PermissionCall)

/-- The bits that a call clears lie in the 64 bits of an entry. -/
theorem cleared_lt : call.cleared < 2 ^ 64 := by
  have hmask : permissionMask < 2 ^ 64 := by decide
  exact lt_of_le_of_lt (call.cleared_within.eq ▸ Nat.and_le_right) hmask

/-- So do the bits that it sets. -/
theorem assigned_lt : call.assigned el < 2 ^ 64 := by
  have hmask : permissionMask < 2 ^ 64 := by decide
  exact lt_of_le_of_lt ((call.assigned_within el).eq ▸ Nat.and_le_right) hmask

/-- So does what it makes of them. -/
theorem apply_lt (attributes : ℕ) : call.apply el attributes < 2 ^ 64 :=
  update_lt call.cleared_lt (call.assigned_lt el)

/-- A call leaves all other attributes alone. -/
theorem apply_and {m : ℕ} (hm : m < 2 ^ 64) (hdisjoint : permissionMask &&& m = 0)
    (attributes : ℕ) : call.apply el attributes &&& m = attributes &&& m := by
  refine update_and hm ?_ ((call.assigned_within el).and_eq_zero hdisjoint)
  rw [Nat.and_comm]
  exact call.cleared_within.and_eq_zero hdisjoint

/-- On a leaf whose attributes the table descriptors have restricted already, a call makes of them
what it makes of the word of the leaf, and only the restrictions count. -/
theorem hierarchical_apply (t : ℕ) {word : ℕ} (hword : word < 2 ^ 64) :
    hierarchical (t &&& restrictionMask) (call.apply el (hierarchical t word)) =
      hierarchical t (call.apply el word) := by
  have hold := hierarchical_eq_update t hword
  have hns : t.testBit 63 = true → call.apply el (hierarchical t word) &&& ttNs ≠ 0 := by
    intro hbit
    have hdisjoint : permissionMask &&& ttNs = 0 := by decide
    rw [call.apply_and el (by decide) hdisjoint, hierarchical_and_ttNs hbit]
    decide
  rw [hierarchical_and_restrictionMask hns, hierarchical_eq_update t (call.apply_lt el _),
    hierarchical_eq_update t (call.apply_lt el _), hold, apply, apply,
    update_absorb (withdrawnBits_lt t) (forcedBits_lt t)]

/-- **What a call does to one entry.** -/
theorem entryUpdate : EntryUpdate secure (call.assigned el)
    (not64 (ttAddressMaskBlockEntry ||| call.cleared))
    fun t _ old new => UpdatesPermissions (call.apply el) t old new where
  leaf := by
    intro n x w hn hx hleaf
    obtain ⟨haddr, hattrs, htype⟩ :=
      updatedWord_fields (n := n) (w := w) hx call.cleared_within (call.assigned_within el)
    rw [hleaf.type_or] at htype
    refine ⟨Or.inr ⟨valid_of_leafType hn htype 0, haddr⟩, fun hs => ?_⟩
    have hns : ttAttributesMask &&& ttNs = ttNs := by decide
    have hdisjoint : permissionMask &&& ttNs = 0 := by decide
    have hattrs' := congrArg (· &&& ttNs) hattrs
    rw [Nat.and_assoc, hns] at hattrs'
    refine hattrs'.trans ((call.apply_and el (by decide) hdisjoint _).trans ?_)
    rw [Nat.and_assoc, hns, hleaf.notNs hs]
  effect := by
    intro n x w t hn hx ht hleaf tr htr
    obtain ⟨haddr, hattrs, htype⟩ :=
      updatedWord_fields (n := n) (w := w) hx call.cleared_within (call.assigned_within el)
    rw [hleaf.type_or] at htype
    rcases hleaf.identity with hinv | ⟨hvalid, hself⟩
    · rw [translate_invalid hinv] at htr
      exact absurd htr (by simp)
    rw [translate_identity hvalid hself] at htr
    obtain rfl := Option.some.inj htr
    have hword : w &&& ttAttributesMask < 2 ^ 64 := Nat.and_lt_two_pow _ (by decide)
    rw [translate_identity (valid_of_leafType hn htype 0) haddr, hattrs]
    change some (⟨x, hierarchical t (call.apply el (w &&& ttAttributesMask))⟩ : Translation) = _
    rw [call.hierarchical_apply el t hword]

end PermissionCall

/-! ### A whole call -/

/-- The attributes of a leaf but for its permissions: among them the index of the memory type,
the shareability, the non-secure bit and the access flag. -/
def keptAttributes : ℕ := ttAttributesMask &&& not64 permissionMask

/-- The attributes of a translation have 64 bits. -/
theorem translate_attributes_lt {x : ℕ} {l : Leaf} {tr : Translation}
    (h : translate x l = some tr) : tr.attributes < 2 ^ 64 := by
  rw [translate] at h
  split at h
  · obtain rfl := Option.some.inj h
    dsimp only
    rw [hierarchical_eq_update _ (Nat.and_lt_two_pow _ (by decide))]
    exact update_lt (withdrawnBits_lt _) (forcedBits_lt _)
  · exact absurd h (by simp)

/-- So have those of a walk. -/
theorem walk_attributes_lt {cfg : WalkConfig} {memory : ℕ → ℕ} {root x : ℕ} {tr : Translation}
    (h : walk cfg memory root x = some tr) : tr.attributes < 2 ^ 64 := by
  rw [walk] at h
  split at h
  · exact translate_attributes_lt h
  · exact absurd h (by simp)

/-- The restrictions of an address in the live table. -/
def MmuState.restrictions (st : MmuState) (va : ℕ) : ℕ :=
  Msm8998.restrictions st.config st.memory st.ttbr0 va

/-- Restrictions are table attributes that restrict. -/
theorem restrictions_and (cfg : WalkConfig) (memory : ℕ → ℕ) (root x : ℕ) :
    restrictions cfg memory root x &&& restrictionMask = restrictions cfg memory root x := by
  rw [restrictions]
  split
  · rw [Nat.and_assoc, Nat.and_self]
  · exact Nat.zero_and _

/-- The live table of `ArmConfigureMmu`, and every secure one, has no restrictions. -/
theorem WellFormed.restrictions_eq_zero {alloc : ℕ → Option ℕ} {secure : Prop} {st : MmuState}
    (h : WellFormed alloc secure st) (hs : secure) (va : ℕ) : st.restrictions va = 0 := by
  obtain ⟨shape, hinv⟩ := h.table
  exact hinv.wellShaped.restrictions_eq_zero h.configOk hs va

/-- **Only the permissions of the region change.** The walk of every other address is as
before. An address of the region that was mapped is mapped to the same address with the same
other attributes, and its permissions are those that the call is to give it, as far as
restrictions on the way to the address let them be. -/
structure OnlyPermissions (restrictions : ℕ → ℕ) (el : ExceptionLevel) (call : PermissionCall)
    (baseAddress length : ℕ) (st st' : MmuState) : Prop where
  outside : ∀ va, ¬ (baseAddress ≤ va ∧ va < baseAddress + length) → st'.walk va = st.walk va
  inside : ∀ va tr, baseAddress ≤ va → va < baseAddress + length → st.walk va = some tr →
    ∃ tr', st'.walk va = some tr' ∧ tr'.outputAddress = tr.outputAddress ∧
      tr'.attributes &&& keptAttributes = tr.attributes &&& keptAttributes ∧
      tr'.attributes = hierarchical (restrictions va) (call.apply el tr.attributes)

namespace PermissionCall

variable {alloc : ℕ → Option ℕ} {fuel baseAddress length : ℕ} {st st' : MmuState}
  {secure : Prop} {el : ExceptionLevel} {call : PermissionCall}

/-- Under restrictions too, a call keeps all but the permissions. -/
theorem hierarchical_apply_and {t : ℕ} (ht : t &&& restrictionMask = t) (attributes : ℕ) :
    hierarchical t (call.apply el attributes) &&& keptAttributes =
      attributes &&& keptAttributes := by
  have hkept : keptAttributes < 2 ^ 64 := by decide
  have hdisjoint : permissionMask &&& keptAttributes = 0 := by decide
  have hns : t.testBit 63 = false := by
    have hbit : restrictionMask.testBit 63 = false := rfl
    rw [← ht, Nat.testBit_and, hbit, Bool.and_false]
  have hwithdrawn : keptAttributes &&& withdrawnBits t = 0 := by
    rw [withdrawnBits]
    split <;> decide
  have hforced : forcedBits t &&& keptAttributes = 0 := by
    rw [forcedBits, hns, if_neg Bool.false_ne_true]
    repeat' split
    all_goals decide
  rw [hierarchical_eq_update t (call.apply_lt el _), update_and hkept hwithdrawn hforced,
    call.apply_and el hkept hdisjoint]

/-- A call only succeeds on a region of whole pages. -/
theorem length_of_success (h : call.run alloc fuel el baseAddress length st = (.ok .success, st')) :
    0 < length ∧ 4096 ∣ length := by
  have hvalid : ¬ (length = 0 ∨ length % 4096 ≠ 0) := by
    intro hinvalid
    rw [run_eq, updateRegionMapping, if_pos hinvalid] at h
    exact absurd (congrArg Prod.fst h) (by simp)
  omega

/-- **A call that succeeds** leaves a well-formed table, in which only the permissions of the
region have changed. -/
theorem run_spec (hfresh : FreshAlloc alloc) (hwf : WellFormed alloc secure st)
    (hfuel : 2 ^ 36 < fuel) (hbase : 4096 ∣ baseAddress)
    (hend : baseAddress + length ≤ 2 ^ st.config.width)
    (h : call.run alloc fuel el baseAddress length st = (.ok .success, st')) :
    WellFormed alloc secure st' ∧ st'.config = st.config ∧
      OnlyPermissions st.restrictions el call baseAddress length st st' := by
  obtain ⟨shape, hinv⟩ := hwf.table
  obtain ⟨hpos, hpages⟩ := length_of_success h
  rw [run_eq] at h
  -- the run succeeds, so the region is not the whole range
  have hwhole : baseAddress = 0 → length < 2 ^ 48 := by
    intro h0
    have hwidth : 2 ^ st.config.width ≤ 2 ^ 48 :=
      Nat.pow_le_pow_right (by omega) hwf.configOk.width_le
    rcases Nat.lt_or_ge length (2 ^ 48) with hlt | hge
    · exact hlt
    · obtain rfl : length = 2 ^ 48 := by omega
      rw [h0] at h
      exact absurd (congrArg Prod.fst h) (updateRegionMapping_ne_success hwf.configured)
  have hspec := updateRegionMapping_spec hwf.configOk hfresh (call.entryUpdate el) hinv
    hwf.configured hfuel hbase hpos hpages hend hwhole
  rw [h] at hspec
  cases hspec with
  | @done _ shape' inv updated =>
      have hconfig : st'.config = st.config := by
        rw [MmuState.config, MmuState.config, updated.tcr_eq]
      have hwalk : ∀ va, st'.walk va = walk st.config st'.memory st.ttbr0 va := by
        intro va
        rw [st'.walk_eq, hconfig, updated.ttbr0_eq]
      refine ⟨⟨updated.tcr_eq ▸ hwf.le_t0sz, updated.tcr_eq ▸ hwf.t0sz_lt, shape', ?_⟩, hconfig,
        fun va hva => ?_, fun va tr hlo hhi htr => ?_⟩
      · rw [hconfig, updated.ttbr0_eq]
        exact inv
      · rw [hwalk]
        exact updated.outside va hva
      · have hnew := updated.inside va hlo hhi tr htr
        rw [hwalk]
        exact ⟨_, hnew, rfl, hierarchical_apply_and (restrictions_and ..) _, rfl⟩

/-- **Permission-only calls only change permissions**, for a region of the address range and
whatever well-formed table the registers select. The restrictions are those of the table before
the call, and a secure table has none. -/
theorem run_onlyPermissions (hfresh : FreshAlloc alloc) (hwf : WellFormed alloc secure st)
    (hfuel : 2 ^ 36 < fuel) (hbase : 4096 ∣ baseAddress)
    (hend : baseAddress + length ≤ 2 ^ st.config.width)
    (h : call.run alloc fuel el baseAddress length st = (.ok .success, st')) :
    OnlyPermissions st.restrictions el call baseAddress length st st' ∧
      (secure → ∀ va, st.restrictions va = 0) :=
  ⟨(run_spec hfresh hwf hfuel hbase hend h).2.2, hwf.restrictions_eq_zero⟩

end PermissionCall

/-- Two MiB of normal memory. -/
def ramBlock : ArmMemoryRegionDescriptor := ⟨0x80000000, 0x80000000, 0x200000, .writeBack⟩

/-- The live table that maps them as a block, in a range of 36 bits. -/
def ramState : MmuState :=
  (armConfigureMmu tenPages (2 ^ 36 + 1) .el1 36 ([ramBlock] ++ [zeroRegion]) blankState).2

/-- The block of memory is mapped. -/
theorem ramState_success :
    armConfigureMmu tenPages (2 ^ 36 + 1) .el1 36 ([ramBlock] ++ [zeroRegion]) blankState =
      (.ok .success, ramState) := rfl

/-- It may be mapped at this address width. -/
theorem ramBlock_mappable : ∀ r ∈ [ramBlock], r.Mappable (addressWidth 36) := by
  intro r hr
  obtain rfl := List.mem_singleton.mp hr
  exact ⟨by decide, by decide, by decide, by decide, rfl⟩

/-- The state that has it mapped is well formed. -/
theorem wellFormed_ramState : WellFormed tenPages True ramState :=
  (armConfigureMmu_wellFormed (by decide) (by decide) freshAlloc_tenPages (Nat.lt_succ_self _)
    rfl ramBlock_mappable ramState_success).1

/-- The second page of the block is made read-only. -/
theorem run_onlyPermissions_page :
    OnlyPermissions ramState.restrictions .el1 .setMemoryRegionReadOnly 0x80001000 0x1000 ramState
        (armSetMemoryRegionReadOnly tenPages (2 ^ 36 + 1) 0x80001000 0x1000 ramState).2 ∧
      (True → ∀ va, ramState.restrictions va = 0) :=
  PermissionCall.run_onlyPermissions freshAlloc_tenPages wellFormed_ramState
    (Nat.lt_succ_self _) (by decide) (by decide) rfl

/-- The table with two MiB of normal memory below an entry that is execute-never. -/
def restrictedState : MmuState :=
  ⟨hangMemory (fun _ => 0) 0x2000
      (fun i => if i = 0 then leafWord 1 0x80000000 (pageAttributes .el1 .writeBack) else 0)
      (entryAddress 0x1000 2 0x80000000) (tableEntryWord 0x2000 (1 <<< 60)),
    2, 28, 0x1000⟩

/-- The state with a restricting table is well formed. -/
theorem wellFormed_restrictedState : WellFormed tenPages False restrictedState := by
  have hcfg : WalkConfig.Ok ⟨2, 36⟩ := ⟨by decide, by decide, by decide, by decide⟩
  have hroot : WellShaped ⟨2, 36⟩ False (fun _ => 0) 0x1000 (rootShape ⟨2, 36⟩ 0x1000) :=
    wellShaped_root hcfg (by decide) (by decide) (by decide) fun _ _ => rfl
  have hpage : FreshPage (rootShape ⟨2, 36⟩ 0x1000) 0x2000 := by
    refine ⟨by decide, by decide, by decide, fun hb => ?_⟩
    rw [(rootShape_eq_some hb).2.2]
    decide
  have hattrs : Within (pageAttributes .el1 .writeBack) ttAttributesMask :=
    pageAttributes_within .el1 .writeBack
  have hshape := hroot.hang (n := 1) (x := 0x80000000) (b := 0x1000)
    (w := tableEntryWord 0x2000 (1 <<< 60))
    (f := fun i => if i = 0 then leafWord 1 0x80000000 (pageAttributes .el1 .writeBack) else 0)
    (by decide) rfl rfl hpage (tableOk_of_fresh hpage (by decide) False.elim) fun y hy => by
      split
      · -- the first two MiB of what the entry serves
        rename_i hfirst
        have hq : y / blockSize 1 = 0x80000000 / blockSize 1 := quotient_eq hy hfirst
        have hlt : y < 2 ^ 48 := by
          rw [blockSize, Nat.div_eq_iff (by decide)] at hq
          omega
        rw [← leafWord_congr hq]
        exact leafOk_leafWord hlt (by decide) hattrs False.elim
      · exact leafOk_zero _ _ _
  refine ⟨by decide, by decide, _, hshape, fun {n p b k} hb hk hpage' => ?_⟩
  obtain ⟨-, heq⟩ := tenPages_eq_some hpage'
  have hk' : 2 ≤ k := hk
  rcases Shape.hang_eq_some hb with ⟨-, -, rfl⟩ | ⟨-, hold⟩
  · omega
  · rw [(rootShape_eq_some hold).2.2] at heq
    omega

/-- Two calls that succeed and do not do what they specify. The region of the first is below an
entry that is execute-never, and stays so. That of the second is beyond the range: the source
takes its entry from the table of the page with the same low bits, which is then mapped
elsewhere. -/
theorem not_onlyPermissions :
    (WellFormed tenPages False restrictedState ∧
      (armClearMemoryRegionNoExec tenPages (2 ^ 36 + 1) 0x80000000 0x200000 restrictedState).1 =
        .ok .success ∧
      ¬ OnlyPermissions (fun _ => 0) .el1 .clearMemoryRegionNoExec 0x80000000 0x200000
        restrictedState
        (armClearMemoryRegionNoExec tenPages (2 ^ 36 + 1) 0x80000000 0x200000
          restrictedState).2) ∧
    WellFormed tenPages True ramState ∧
      (armSetMemoryRegionReadOnly tenPages (2 ^ 36 + 1) 0x8080001000 0x1000 ramState).1 =
        .ok .success ∧
      ¬ OnlyPermissions (fun _ => 0) .el1 .setMemoryRegionReadOnly 0x8080001000 0x1000 ramState
        (armSetMemoryRegionReadOnly tenPages (2 ^ 36 + 1) 0x8080001000 0x1000 ramState).2 := by
  refine ⟨⟨wellFormed_restrictedState, rfl, fun h => ?_⟩, wellFormed_ramState, rfl, fun h => ?_⟩
  · have hbefore : restrictedState.walk 0x80000000 =
      some ⟨0x80000000, pageAttributes .el1 .writeBack ||| ttXnMask⟩ := rfl
    have hafter : (armClearMemoryRegionNoExec tenPages (2 ^ 36 + 1) 0x80000000 0x200000
        restrictedState).2.walk 0x80000000 =
      some ⟨0x80000000, pageAttributes .el1 .writeBack ||| ttXnMask⟩ := rfl
    obtain ⟨tr', htr', -, -, hattrs⟩ := h.inside _ _ le_rfl (by decide) hbefore
    rw [hafter] at htr'
    obtain rfl := Option.some.inj htr'
    exact absurd hattrs (by decide)
  · have hbefore : (ramState.walk 0x80001000).map Translation.outputAddress =
      some 0x80001000 := rfl
    have hafter : ((armSetMemoryRegionReadOnly tenPages (2 ^ 36 + 1) 0x8080001000 0x1000
        ramState).2.walk 0x80001000).map Translation.outputAddress = some 0x8080001000 := rfl
    rw [h.outside _ (by decide), hbefore] at hafter
    exact absurd hafter (by decide)

end Msm8998
