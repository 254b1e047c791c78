import Msm8998.PlatformMap

/-!
# The HOB and MMU Table Builder

This module models `MemoryPeim`: the sum over the FDT memory banks, the selection of
one of the three memory-size options from that sum, and the loop that walks the
platform map, publishes HOBs through `AddHob` and fills the table that `InitMmu` hands
to `ArmConfigureMmu`.

`fdt_get_memory` enumerates the banks of the device tree, so the enumeration is the
list of banks itself. `MemoryTotal` is a 64-bit counter and wraps. The loop body is
one function, `descriptorStep`, with the `switch` of the source and its fall-through;
`ASSERT` failures are `none`.

## Main results

* `memoryPeim_eq`: on a terminated map whose mapped rows fit the table, the whole run
  is two filters of the live rows, `published` and `mapped`, so that every later fact
  about the run is a fact about a filtered list.
* `selectMem_mem`: the selection only ever yields one of the three size options.
-/

namespace Msm8998

/-- One bank of the FDT `/memory` node: two 64-bit cells. -/
structure FdtBank where
  base : ℕ
  size : ℕ
  base_lt : base < 2 ^ 64
  size_lt : size < 2 ^ 64

/-- The base of the RAM, as every device tree reports it, fits a cell pair. -/
theorem ramBase_lt : 0x80000000 < 2 ^ 64 := by decide

/-- The addresses of a bank. -/
def FdtBank.span (b : FdtBank) : Span := ⟨b.base, b.size⟩

/-! ### Selecting the memory size -/

/-- `SIZE_MB`. -/
def sizeMB : ℕ := 1024 * 1024

/-- The guard of `SIZE_MB_IN`: the total lies strictly inside an interval of MiB. -/
def sizeMBIn (min max total : ℕ) : Bool :=
  decide (total > min * sizeMB) && decide (total < max * sizeMB)

/-- `MemoryTotal` after the enumeration loop, a 64-bit sum. -/
def memoryTotal (banks : List FdtBank) : ℕ :=
  banks.foldl (fun total b => (total + b.size) % 2 ^ 64) 0

/-- `Mem` after the three `SIZE_MB_IN` lines, each of which overwrites the choice of the
lines before it; `Mem4G` is also the initial value. -/
def selectMem (total : ℕ) : DeviceMemoryAddHob :=
  let mem := DeviceMemoryAddHob.mem4G
  let mem := if sizeMBIn 3072 4608 total then .mem4G else mem
  let mem := if sizeMBIn 5120 6656 total then .mem6G else mem
  if sizeMBIn 7168 8704 total then .mem8G else mem

/-- The three size options. -/
def DeviceMemoryAddHob.IsMemSize (o : DeviceMemoryAddHob) : Prop :=
  o = .mem4G ∨ o = .mem6G ∨ o = .mem8G

instance (o : DeviceMemoryAddHob) : Decidable o.IsMemSize :=
  inferInstanceAs (Decidable (_ ∨ _))

/-- The selection yields a size option, whatever the total. -/
theorem selectMem_mem (total : ℕ) : (selectMem total).IsMemSize := by
  rw [selectMem, DeviceMemoryAddHob.IsMemSize]
  split_ifs <;> simp

/-! ### HOBs and the loop -/

/-- The HOBs `AddHob` builds. -/
inductive Hob
  | resourceDescriptor (resourceType : EfiResourceType) (resourceAttribute : ℕ)
      (physicalStart : ℕ) (resourceLength : ℕ)
  | memoryAllocation (memoryBaseAddress : ℕ) (memoryLength : ℕ) (memoryType : EfiMemoryType)
deriving Repr, DecidableEq

/-- `AddHob`: a resource descriptor HOB and a memory allocation HOB for one row. -/
def addHob (d : ArmMemoryRegionDescriptorEx) : List Hob :=
  [.resourceDescriptor d.resourceType d.resourceAttribute d.address d.length,
   .memoryAllocation d.address d.length d.memoryType]

/-- `MAX_ARM_MEMORY_REGION_DESCRIPTOR_COUNT`. -/
def maxArmMemoryRegionDescriptorCount : ℕ := 128

/-- The state of the descriptor loop. `Index` is the length of `memoryTable`. -/
structure PeimState where
  memoryTotal : ℕ
  hobs : List Hob
  memoryTable : List ArmMemoryRegionDescriptor
deriving Repr, DecidableEq

/-- The entry of the MMU table for one row: identity mapped. -/
def ArmMemoryRegionDescriptorEx.region (d : ArmMemoryRegionDescriptorEx) :
    ArmMemoryRegionDescriptor :=
  ⟨d.address, d.address, d.length, d.armAttributes⟩

/-- The code from label `update` to the end of the loop body. -/
def updateTable (d : ArmMemoryRegionDescriptorEx) (st : PeimState) : Option PeimState :=
  if st.memoryTable.length < maxArmMemoryRegionDescriptorCount then
    some { st with memoryTable := st.memoryTable ++ [d.region] }
  else
    none

/-- The code from `case AddMem` to the end of the loop body: publish, then store unless
the row is HOB-only. -/
def publishRow (d : ArmMemoryRegionDescriptorEx) (st : PeimState) : Option PeimState :=
  let st := { st with hobs := st.hobs ++ addHob d }
  if d.hobOption = .hobOnlyNoCacheSetting then some st else updateTable d st

/-- The body of the descriptor loop for one row, with `Mem` the selected size. -/
def descriptorStep (mem : DeviceMemoryAddHob) (d : ArmMemoryRegionDescriptorEx)
    (st : PeimState) : Option PeimState :=
  let st :=
    if d.memoryType = .conventionalMemory then
      { st with memoryTotal := (st.memoryTotal + d.length) % 2 ^ 64 }
    else st
  match d.hobOption with
  | .mem4G | .mem6G | .mem8G =>
      -- another size's rows are skipped whole; the selected one falls through
      if d.hobOption ≠ mem then some st else publishRow d st
  | .addMem | .addDev | .hobOnlyNoCacheSetting => publishRow d st
  | .noHob | .maxMem => updateTable d st

/-- The descriptor loop: it stops at the first row of zero `Length`. Running off the end
of the map reads memory that is not a row. -/
def walkDescriptors (mem : DeviceMemoryAddHob) :
    List ArmMemoryRegionDescriptorEx → PeimState → Option PeimState
  | [], _ => none
  | d :: ds, st =>
      if d.length = 0 then some st
      else (descriptorStep mem d st).bind (walkDescriptors mem ds)

/-- The all-zero terminator of `MemoryTable`. -/
def terminatorRegion : ArmMemoryRegionDescriptor := ⟨0, 0, 0, .uncachedUnbuffered⟩

/-- What a run of `MemoryPeim` leaves behind: the HOB list and the table passed to
`InitMmu`. -/
structure PeimResult where
  hobs : List Hob
  memoryTable : List ArmMemoryRegionDescriptor
deriving Repr, DecidableEq

/-- `MemoryPeim` on a platform map and the banks of the device tree. -/
def memoryPeim (map : List ArmMemoryRegionDescriptorEx) (banks : List FdtBank) :
    Option PeimResult := do
  let total := memoryTotal banks
  let st ← walkDescriptors (selectMem total) map ⟨total, [], []⟩
  if st.memoryTable.length < maxArmMemoryRegionDescriptorCount then
    some ⟨st.hobs, st.memoryTable ++ [terminatorRegion]⟩
  else
    none

/-! ### The run as two filters -/

/-- The rows before the terminator. -/
def liveRows (map : List ArmMemoryRegionDescriptorEx) : List ArmMemoryRegionDescriptorEx :=
  map.takeWhile fun d => decide (d.length ≠ 0)

/-- A map that ends in a row of zero `Length`. -/
def Terminated (map : List ArmMemoryRegionDescriptorEx) : Prop := ∃ d ∈ map, d.length = 0

instance (map : List ArmMemoryRegionDescriptorEx) : Decidable (Terminated map) :=
  inferInstanceAs (Decidable (∃ d ∈ map, d.length = 0))

/-- The rows published as HOBs when `mem` is selected. -/
def published (mem : DeviceMemoryAddHob) (d : ArmMemoryRegionDescriptorEx) : Bool :=
  match d.hobOption with
  | .addMem | .addDev | .hobOnlyNoCacheSetting => true
  | .noHob | .maxMem => false
  | o => decide (o = mem)

/-- The rows stored in the MMU table when `mem` is selected. -/
def mapped (mem : DeviceMemoryAddHob) (d : ArmMemoryRegionDescriptorEx) : Bool :=
  match d.hobOption with
  | .addMem | .addDev | .noHob | .maxMem => true
  | .hobOnlyNoCacheSetting => false
  | o => decide (o = mem)

/-- The HOBs of a run that selects `mem`. -/
def publishedHobs (mem : DeviceMemoryAddHob) (map : List ArmMemoryRegionDescriptorEx) :
    List Hob :=
  ((liveRows map).filter (published mem)).flatMap addHob

/-- The MMU table of a run that selects `mem`, without its terminator. -/
def mappedRegions (mem : DeviceMemoryAddHob) (map : List ArmMemoryRegionDescriptorEx) :
    List ArmMemoryRegionDescriptor :=
  ((liveRows map).filter (mapped mem)).map (·.region)

/-- One iteration publishes and stores exactly as the two filters say, provided the
table has room for the row. -/
theorem descriptorStep_eq {mem : DeviceMemoryAddHob} {d : ArmMemoryRegionDescriptorEx}
    {st : PeimState} (hroom : st.memoryTable.length < maxArmMemoryRegionDescriptorCount) :
    ∃ total, descriptorStep mem d st =
      some ⟨total, st.hobs ++ (if published mem d then addHob d else []),
        st.memoryTable ++ (if mapped mem d then [d.region] else [])⟩ := by
  -- the running total is the only field the conventional-memory branch touches
  obtain ⟨total, htotal⟩ : ∃ total, (if d.memoryType = .conventionalMemory then
      { st with memoryTotal := (st.memoryTotal + d.length) % 2 ^ 64 } else st)
      = { st with memoryTotal := total } := by
    split_ifs
    · exact ⟨_, rfl⟩
    · exact ⟨st.memoryTotal, rfl⟩
  refine ⟨total, ?_⟩
  rw [descriptorStep, htotal]
  cases ho : d.hobOption <;> cases mem <;>
    simp [ho, published, mapped, publishRow, updateTable, hroom]

/-- The whole descriptor loop, from any state, appends the two filtered lists. -/
theorem walkDescriptors_eq {mem : DeviceMemoryAddHob} :
    ∀ {map : List ArmMemoryRegionDescriptorEx} {st : PeimState}, Terminated map →
      st.memoryTable.length + (mappedRegions mem map).length
        < maxArmMemoryRegionDescriptorCount →
      ∃ total, walkDescriptors mem map st =
        some ⟨total, st.hobs ++ publishedHobs mem map,
          st.memoryTable ++ mappedRegions mem map⟩ := by
  intro map
  induction map with
  | nil =>
      intro st hterm
      obtain ⟨d, hd, -⟩ := hterm
      simp at hd
  | cons d ds ih =>
      intro st hterm hroom
      by_cases hd : d.length = 0
      · exact ⟨st.memoryTotal, by
          simp [walkDescriptors, publishedHobs, mappedRegions, liveRows, hd]⟩
      have hterm' : Terminated ds := by
        obtain ⟨e, he, he0⟩ := hterm
        rcases List.mem_cons.mp he with rfl | he
        · exact absurd he0 hd
        · exact ⟨e, he, he0⟩
      have hhobs : publishedHobs mem (d :: ds)
          = (if published mem d then addHob d else []) ++ publishedHobs mem ds := by
        by_cases hp : published mem d <;>
          simp [publishedHobs, liveRows, hd, hp]
      have hregs : mappedRegions mem (d :: ds)
          = (if mapped mem d then [d.region] else []) ++ mappedRegions mem ds := by
        by_cases hp : mapped mem d <;>
          simp [mappedRegions, liveRows, hd, hp]
      rw [hregs, List.length_append] at hroom
      obtain ⟨total, hstep⟩ := @descriptorStep_eq mem d st (by omega)
      have hnext := @ih ⟨total, st.hobs ++ (if published mem d then addHob d else []),
        st.memoryTable ++ (if mapped mem d then [d.region] else [])⟩ hterm' (by
          simp only [List.length_append]
          omega)
      obtain ⟨total', hwalk⟩ := hnext
      refine ⟨total', ?_⟩
      rw [walkDescriptors, if_neg hd, hstep, Option.bind_some, hwalk, hhobs, hregs]
      simp only [List.append_assoc]

/-- **The run as two filters.** On a terminated map whose mapped rows leave room for the
terminator, `MemoryPeim` succeeds; its HOBs are those of the published rows in map
order and its table is the mapped rows in map order, followed by the terminator. -/
theorem memoryPeim_eq {map : List ArmMemoryRegionDescriptorEx} {banks : List FdtBank}
    (hterm : Terminated map)
    (hroom : (mappedRegions (selectMem (memoryTotal banks)) map).length
      < maxArmMemoryRegionDescriptorCount) :
    memoryPeim map banks =
      some ⟨publishedHobs (selectMem (memoryTotal banks)) map,
        mappedRegions (selectMem (memoryTotal banks)) map ++ [terminatorRegion]⟩ := by
  obtain ⟨total, hwalk⟩ := @walkDescriptors_eq (selectMem (memoryTotal banks)) map
    ⟨memoryTotal banks, [], []⟩ hterm (by simpa using hroom)
  simp only [memoryPeim, hwalk, Option.bind_eq_bind, Option.bind_some, List.nil_append]
  rw [if_pos hroom]

end Msm8998
