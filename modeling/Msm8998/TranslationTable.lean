import Msm8998.PageDescriptor

/-!
# The Page Table Builder

This module models `ArmMmuLib`: `GetBlockEntryListFromAddress`, which walks and refines
the live table down to the entry for an address, `UpdateRegionMapping`, which fills a
region through it, `FillTranslationTable`, and the part of `ArmConfigureMmu` that sets
the translation control register, allocates the root table and processes the region
table.

Memory is a function from the byte address of a `UINT64` to its value, pointers are byte
addresses, and `BlockEntry++` adds eight. `AllocatePages` is a parameter that gives the
result of the `k`-th call; `none` is `NULL`. Cache, TLB and MMU control have no effect on
the table and are left out, as are the debug-only checks on where the root table lies.

The loops of the source are not bounded by their syntax, so they carry fuel. A function
stops with a `Halt` where the C program has no defined or no sensible next state: a shift
count of 64 or more, a `RegionLength` about to wrap below zero, a region table without
terminator, or exhausted fuel.
-/

namespace Msm8998

/-- Why a run of the model stops without returning. -/
inductive Halt
  | undefinedShift | lengthUnderflow | noTerminator | outOfFuel
deriving Repr, DecidableEq

/-- The return values of the library. -/
inductive EfiStatus
  | success | invalidParameter | outOfResources | unsupported
deriving Repr, DecidableEq

/-- The machine state the library works on: memory words by byte address, the number of
`AllocatePages` calls made so far, and the two registers it sets. -/
structure MmuState where
  memory : ℕ → ℕ
  allocCalls : ℕ
  tcr : ℕ
  ttbr0 : ℕ

/-- Store one word. -/
def MmuState.write (st : MmuState) (address word : ℕ) : MmuState :=
  { st with memory := fun a => if a = address then word else st.memory a }

/-- Store `count` consecutive words from `base`, the `i`-th being `f i`. -/
def MmuState.fill (st : MmuState) (base count : ℕ) (f : ℕ → ℕ) : MmuState :=
  { st with memory := fun a =>
      if base ≤ a ∧ a < base + count * 8 ∧ (a - base) % 8 = 0 then f ((a - base) / 8)
      else st.memory a }

/-- `AllocatePages (1)`. -/
def allocatePages (alloc : ℕ → Option ℕ) (st : MmuState) : Option ℕ × MmuState :=
  (alloc st.allocCalls, { st with allocCalls := st.allocCalls + 1 })

/-! ### The root table -/

def minT0sz : ℕ := 16
def bitsPerLevel : ℕ := 9

/-- `GetRootTranslationTableInfo`: level and entry count of the root table. -/
def getRootTranslationTableInfo (t0sz : ℕ) : ℕ × ℕ :=
  (sub64 t0sz minT0sz / bitsPerLevel,
    1 <<< (bitsPerLevel - sub64 t0sz minT0sz % bitsPerLevel))

/-- The scan of `LookupAddresstoRootTable` for the top set bit, from bit `top` down to
bit one. -/
def topBitLoop (maxAddress : ℕ) : ℕ → ℕ
  | 0 => 0
  | top + 1 => if maxAddress.testBit (top + 1) then top + 2 else topBitLoop maxAddress top

/-- `LookupAddresstoRootTable`: `T0SZ` and the entry count of the root table. -/
def lookupAddresstoRootTable (maxAddress : ℕ) : ℕ × ℕ :=
  let t0sz := 64 - topBitLoop maxAddress 63
  (t0sz, (getRootTranslationTableInfo t0sz).2)

/-- `TCR_T0SZ_MASK`. -/
def tcrT0szMask : ℕ := 0x3F

/-! ### `GetBlockEntryListFromAddress` -/

/-- `LowBitSet64`: the position of the lowest set bit, `-1` for zero. -/
def lowBitSet64 (x : ℕ) : ℕ := ((List.range 64).find? fun i => x.testBit i).getD (2 ^ 64 - 1)

/-- The page level that an alignment allows: `MAX (3 - ((alignment - 12) / 9), 1)`, in
`UINTN` arithmetic. -/
def alignmentPageLevel (alignment : ℕ) : ℕ := max (sub64 3 (sub64 alignment 12 / 9)) 1

/-- The `while` loop that moves to a smaller block size until the requested size fits. -/
def pageLevelLoop (blockEntrySize : ℕ) : ℕ → ℕ → Except Halt ℕ
  | 0, _ => .error .outOfFuel
  | fuel + 1, pageLevel =>
      if 64 ≤ ttAddressOffsetAtLevel pageLevel then .error .undefinedShift
      else if blockEntrySize < 1 <<< ttAddressOffsetAtLevel pageLevel then
        pageLevelLoop blockEntrySize fuel ((pageLevel + 1) % 2 ^ 64)
      else .ok pageLevel

/-- The variables of the `for` loop over the table levels. -/
structure Descent where
  indexLevel : ℕ
  pageLevel : ℕ
  translationTable : ℕ
  blockEntry : ℕ
deriving Repr, DecidableEq

/-- The block entry case above the page level: split the block into a new table whose
entries map the same addresses with the same attributes. -/
def splitBlockEntry (alloc : ℕ → Option ℕ) (regionStart off : ℕ) (d : Descent)
    (blockEntry : ℕ) (st : MmuState) : Except Halt (Option Descent) × MmuState :=
  let attributes := st.memory blockEntry &&& ttAttributesMask
  let tableAttributes := if attributes &&& ttNs ≠ 0 then ttTableNs else ttTableApNoPermission
  let blockEntryAddress := (regionStart >>> off) <<< off
  let type := if d.indexLevel + 1 = 3 then ttTypeBlockEntryLevel3 else ttTypeBlockEntry
  match allocatePages alloc st with
  | (none, st) => (.ok none, st)
  | (some page, st) =>
      let subOff := ttAddressOffsetAtLevel (d.indexLevel + 1)
      if 64 ≤ subOff then (.error .undefinedShift, st)
      else
        let st := st.fill page ttEntryCount fun index =>
          (attributes ||| type) ||| (blockEntryAddress + index <<< subOff)
        let st := st.write blockEntry (tableEntryWord page tableAttributes)
        (.ok (some ⟨d.indexLevel + 1, d.pageLevel, page, blockEntry⟩), st)

/-- The invalid entry case above the page level: hang a zeroed table below it. -/
def addTable (alloc : ℕ → Option ℕ) (d : Descent) (blockEntry : ℕ) (st : MmuState) :
    Except Halt (Option Descent) × MmuState :=
  match allocatePages alloc st with
  | (none, st) => (.ok none, st)
  | (some page, st) =>
      let st := st.fill page ttEntryCount fun _ => 0
      let st := st.write blockEntry (tableEntryWord page 0)
      (.ok (some ⟨d.indexLevel + 1, d.pageLevel, page, blockEntry⟩), st)

/-- The body of the `for` loop for one table level. `none` is the early `return NULL`. -/
def blockEntryStep (alloc : ℕ → Option ℕ) (regionStart : ℕ) (d : Descent) (st : MmuState) :
    Except Halt (Option Descent) × MmuState :=
  let off := ttAddressOffsetAtLevel d.indexLevel
  if 64 ≤ off then (.error .undefinedShift, st)
  else
    let blockEntry := ttGetEntryForAddress d.translationTable off regionStart
    let word := st.memory blockEntry
    if d.indexLevel ≠ 3 ∧ word &&& ttTypeMask = ttTypeTableEntry then
      (.ok (some ⟨d.indexLevel + 1,
        if d.indexLevel = d.pageLevel then d.pageLevel + 1 else d.pageLevel,
        word &&& ttAddressMaskDescriptionTable, blockEntry⟩), st)
    else if d.indexLevel = d.pageLevel then
      (.ok (some ⟨d.indexLevel + 1, d.pageLevel, d.translationTable, blockEntry⟩), st)
    else if word &&& ttTypeMask = ttTypeBlockEntry then
      splitBlockEntry alloc regionStart off d blockEntry st
    else
      addTable alloc d blockEntry st

/-- The `for` loop over the table levels. -/
def blockEntryLoop (alloc : ℕ → Option ℕ) (regionStart : ℕ) :
    ℕ → Descent → MmuState → Except Halt (Option Descent) × MmuState
  | 0, _, st => (.error .outOfFuel, st)
  | fuel + 1, d, st =>
      if d.pageLevel < d.indexLevel then (.ok (some d), st)
      else
        match blockEntryStep alloc regionStart d st with
        | (.ok (some d), st) => blockEntryLoop alloc regionStart fuel d st
        | r => r

/-- The level loops never pass level five, whose offset is no shift count. -/
def levelFuel : ℕ := 8

/-- What `GetBlockEntryListFromAddress` hands to its caller. -/
structure BlockEntryList where
  blockEntry : ℕ
  tableLevel : ℕ
  blockEntrySize : ℕ
  lastBlockEntry : ℕ
deriving Repr, DecidableEq

/-- The part of `GetBlockEntryListFromAddress` that follows the choice of the page level. -/
def blockEntryListAtLevel (alloc : ℕ → Option ℕ) (root : ℕ × ℕ)
    (rootTable regionStart pageLevel : ℕ) (st : MmuState) :
    Except Halt (Option BlockEntryList) × MmuState :=
  match blockEntryLoop alloc regionStart levelFuel ⟨root.1, pageLevel, rootTable, 0⟩ st with
  | (.error e, st) => (.error e, st)
  | (.ok none, st) => (.ok none, st)
  | (.ok (some d), st) =>
      if 64 ≤ ttAddressOffsetAtLevel d.pageLevel then (.error .undefinedShift, st)
      else if d.blockEntry = 0 then (.ok none, st)
      else
        (.ok (some ⟨d.blockEntry, d.pageLevel, 1 <<< ttAddressOffsetAtLevel d.pageLevel,
          ttLastBlockAddress d.translationTable
            (if d.pageLevel = root.1 then root.2 else ttEntryCount)⟩), st)

/-- `GetBlockEntryListFromAddress`; `none` is `NULL`. -/
def getBlockEntryListFromAddress (alloc : ℕ → Option ℕ) (rootTable regionStart size : ℕ)
    (st : MmuState) : Except Halt (Option BlockEntryList) × MmuState :=
  if regionStart % 4096 ≠ 0 ∨ size % 4096 ≠ 0 ∨ size = 0 then (.ok none, st)
  else
    let alignment := if regionStart = 0 then lowBitSet64 size else lowBitSet64 regionStart
    match pageLevelLoop size levelFuel (alignmentPageLevel alignment) with
    | .error e => (.error e, st)
    | .ok pageLevel =>
        blockEntryListAtLevel alloc (getRootTranslationTableInfo (st.tcr &&& tcrT0szMask))
          rootTable regionStart pageLevel st

/-! ### `UpdateRegionMapping` -/

/-- The inner `do` loop: fill consecutive entries of one table. The result is the
`RegionStart` and `RegionLength` left over. -/
def fillEntries (attributes mask type : ℕ) (l : BlockEntryList) :
    ℕ → ℕ → ℕ → ℕ → MmuState → Except Halt (ℕ × ℕ) × MmuState
  | 0, _, _, _, st => (.error .outOfFuel, st)
  | fuel + 1, blockEntry, regionStart, regionLength, st =>
      let st := st.write blockEntry (st.memory blockEntry &&& mask)
      let st := st.write blockEntry (st.memory blockEntry |||
        ((regionStart &&& ttAddressMaskBlockEntry) ||| attributes ||| type))
      if regionLength < l.blockEntrySize then (.error .lengthUnderflow, st)
      else
        let regionStart := (regionStart + l.blockEntrySize) % 2 ^ 64
        let regionLength := regionLength - l.blockEntrySize
        let blockEntry := blockEntry + 8
        -- leave the loop when the next entry is a table, so that it is descended into
        if l.tableLevel ≠ 3 ∧ blockEntry ≤ l.lastBlockEntry ∧
            st.memory blockEntry &&& ttTypeMask = ttTypeTableEntry then
          (.ok (regionStart, regionLength), st)
        else if l.blockEntrySize ≤ regionLength ∧ blockEntry ≤ l.lastBlockEntry then
          fillEntries attributes mask type l fuel blockEntry regionStart regionLength st
        else
          (.ok (regionStart, regionLength), st)

/-- The outer `do` loop of `UpdateRegionMapping`. -/
def updateLoop (alloc : ℕ → Option ℕ) (rootTable attributes mask innerFuel : ℕ) :
    ℕ → ℕ → ℕ → MmuState → Except Halt EfiStatus × MmuState
  | 0, _, _, st => (.error .outOfFuel, st)
  | fuel + 1, regionStart, regionLength, st =>
      match getBlockEntryListFromAddress alloc rootTable regionStart regionLength st with
      | (.error e, st) => (.error e, st)
      | (.ok none, st) => (.ok .outOfResources, st)
      | (.ok (some l), st) =>
          let type := if l.tableLevel ≠ 3 then ttTypeBlockEntry else ttTypeBlockEntryLevel3
          match fillEntries attributes mask type l innerFuel l.blockEntry regionStart
              regionLength st with
          | (.error e, st) => (.error e, st)
          | (.ok (regionStart, regionLength), st) =>
              if regionLength ≠ 0 then
                updateLoop alloc rootTable attributes mask innerFuel fuel regionStart
                  regionLength st
              else
                (.ok .success, st)

/-- `UpdateRegionMapping`. -/
def updateRegionMapping (alloc : ℕ → Option ℕ) (fuel rootTable regionStart regionLength
    attributes mask : ℕ) (st : MmuState) : Except Halt EfiStatus × MmuState :=
  if regionLength = 0 ∨ regionLength % 4096 ≠ 0 then (.ok .invalidParameter, st)
  else updateLoop alloc rootTable attributes mask fuel fuel regionStart regionLength st

/-- `FillTranslationTable`. -/
def fillTranslationTable (alloc : ℕ → Option ℕ) (fuel : ℕ) (el : ExceptionLevel)
    (rootTable : ℕ) (r : ArmMemoryRegionDescriptor) (st : MmuState) :
    Except Halt EfiStatus × MmuState :=
  updateRegionMapping alloc fuel rootTable r.virtualBase r.length
    (pageAttributes el r.attributes) 0 st

/-! ### `ArmConfigureMmu` -/

/-- `MAX_ALLOC_ADDRESS` of AArch64: 48 bits using 4 KiB pages. -/
def maxAllocAddress : ℕ := 0xFFFFFFFFFFFF

/-- `MaxAddress` for the number of physical address bits the processor reports. -/
def maxAddress (physicalAddressBits : ℕ) : ℕ :=
  min (1 <<< physicalAddressBits - 1) maxAllocAddress

/-- The physical address size field for `MaxAddress`, or `none` when it is unsupported. -/
def physicalSizeField (maxAddress : ℕ) : Option ℕ :=
  if maxAddress < 1 <<< 32 then some 0
  else if maxAddress < 1 <<< 36 then some 1
  else if maxAddress < 1 <<< 40 then some 2
  else if maxAddress < 1 <<< 42 then some 3
  else if maxAddress < 1 <<< 44 then some 4
  else if maxAddress < 1 <<< 48 then some 5
  else none

/-- The value written to `TCR`: cacheable, inner shareable walks with a 4 KiB granule. -/
def tcrValue (el : ExceptionLevel) (maxAddress t0sz : ℕ) : Option ℕ :=
  let walk := (3 <<< 12) ||| (1 <<< 10) ||| (1 <<< 8)
  match el with
  | .el2 =>
      (physicalSizeField maxAddress).map fun ps =>
        t0sz ||| 1 <<< 31 ||| 1 <<< 23 ||| ps <<< 16 ||| walk
  | .el1 =>
      (physicalSizeField maxAddress).map fun ps =>
        t0sz ||| 2 <<< 30 ||| 1 <<< 23 ||| ps <<< 32 ||| walk
  | .el3 => none

/-- The loop of `ArmConfigureMmu` over the region table. -/
def configureLoop (alloc : ℕ → Option ℕ) (fuel : ℕ) (el : ExceptionLevel) (rootTable : ℕ) :
    List ArmMemoryRegionDescriptor → MmuState → Except Halt EfiStatus × MmuState
  | [], st => (.error .noTerminator, st)
  | r :: rs, st =>
      if r.length = 0 then (.ok .success, st)
      else
        match fillTranslationTable alloc fuel el rootTable r st with
        | (.ok .success, st) => configureLoop alloc fuel el rootTable rs st
        | r => r

/-- `ArmConfigureMmu`. -/
def armConfigureMmu (alloc : ℕ → Option ℕ) (fuel : ℕ) (el : ExceptionLevel)
    (physicalAddressBits : ℕ) (memoryTable : List ArmMemoryRegionDescriptor)
    (st : MmuState) : Except Halt EfiStatus × MmuState :=
  let maxAddress := maxAddress physicalAddressBits
  let root := lookupAddresstoRootTable maxAddress
  match tcrValue el maxAddress root.1 with
  | none => (.ok .unsupported, st)
  | some tcr =>
      match allocatePages alloc { st with tcr := tcr } with
      | (none, st) => (.ok .outOfResources, st)
      | (some page, st) =>
          let st := { st with ttbr0 := page }
          configureLoop alloc fuel el page memoryTable (st.fill page root.2 fun _ => 0)

end Msm8998
