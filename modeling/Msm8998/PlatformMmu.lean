import Msm8998.CarveOut
import Msm8998.ConfigureMmu

/-!
# The Platform Map in the Page Tables

`MemoryPeim` hands its region table to `InitMmu`, which passes it on to
`ArmConfigureMmu`. This module puts the two models together. Every row of the platform
map is a region that the page table code can map, so the walk of the finished table is
the last writer of the region table (`memoryPeim_maps`), and what was said about the last
writer in `CarveOut` holds of the page tables.

## Main results

* `CarvedOut.walk`: a carved-out address is mapped with the attributes of its reserved
  row;
* `nb1Hole_walk`: in the `NB1_FIXED` build every address of the `FIH Region` and
  `Ramoops` rows is mapped as write-back memory.
-/

namespace Msm8998

variable {alloc : ℕ → Option ℕ} {fuel bits : ℕ} {el : ExceptionLevel} {st st' : MmuState}
  {flags : BuildFlags} {r : PeimResult}

/-! ### The rows as regions -/

instance (width : ℕ) (r : ArmMemoryRegionDescriptor) : Decidable (r.Mappable width) :=
  decidable_of_iff (4096 ∣ r.virtualBase ∧ 0 < r.length ∧ 4096 ∣ r.length ∧
      r.virtualBase + r.length ≤ 2 ^ width ∧ r.virtualBase = r.physicalBase)
    ⟨fun ⟨h₁, h₂, h₃, h₄, h₅⟩ => ⟨h₁, h₂, h₃, h₄, h₅⟩,
      fun h => ⟨h.aligned, h.pos, h.pages, h.inRange, h.identity⟩⟩

/-- A wider range holds every region of a narrower one. -/
theorem ArmMemoryRegionDescriptor.Mappable.mono {width width' : ℕ}
    {r : ArmMemoryRegionDescriptor} (h : r.Mappable width) (hle : width ≤ width') :
    r.Mappable width' :=
  { h with inRange := le_trans h.inRange (Nat.pow_le_pow_right (by omega) hle) }

/-- The stored rows of the platform map are regions of a range of 34 bits. -/
theorem mappedRegions_mappable : ∀ lg nb, ∀ mem ∈ memSizes,
    ∀ r ∈ mappedRegions mem (getPlatformMemoryMap ⟨lg, nb⟩), r.Mappable 34 ∧ ¬ r.Whole := by
  decide +kernel

/-- The terminator covers nothing. -/
theorem mappedBy_terminated (regions : List ArmMemoryRegionDescriptor) (va : ℕ) :
    mappedBy el (regions ++ [terminatorRegion]) va = mappedBy el regions va := by
  rw [mappedBy_concat, if_neg]
  rintro ⟨-, hlt⟩
  exact absurd hlt (Nat.not_lt_zero va)

/-! ### The run as a whole -/

/-- **`MemoryPeim` and its page tables.** With at least 34 physical address bits, fresh
pages and no failed allocation, the region table that `MemoryPeim` builds is accepted and
every address is mapped by the last region of the table that covers it. -/
theorem memoryPeim_maps {banks : List FdtBank} (hbits : 34 ≤ bits) (hel : el ≠ .el3)
    (hfresh : FreshAlloc alloc) (hfuel : 2 ^ 36 < fuel)
    (hr : memoryPeim (getPlatformMemoryMap flags) banks = some r)
    (hok : ¬ AllocFailed alloc st (armConfigureMmu alloc fuel el bits r.memoryTable st).2) :
    ∃ st', armConfigureMmu alloc fuel el bits r.memoryTable st = (.ok .success, st') ∧
      ∀ va, st'.walk va = mappedBy el r.memoryTable va := by
  have hmem := selectMem_mem_memSizes (memoryTotal banks)
  rw [memoryPeim_platformMap] at hr
  obtain rfl := Option.some.inj hr
  have hwidth : 34 ≤ addressWidth bits := le_min hbits (by omega)
  have hregions : ∀ region ∈ mappedRegions (selectMem (memoryTotal banks))
      (getPlatformMemoryMap flags), region.Mappable (addressWidth bits) ∧ ¬ region.Whole := by
    intro region hregion
    obtain ⟨hmap, hwhole⟩ :=
      mappedRegions_mappable flags.lgPilFixed flags.nb1Fixed _ hmem region hregion
    exact ⟨hmap.mono hwidth, hwhole⟩
  have hterm : terminatorRegion.length = 0 := rfl
  obtain ⟨st', hrun, hwalk⟩ :=
    armConfigureMmu_maps (by omega) hel hfresh hfuel hterm hregions hok
  refine ⟨st', hrun, fun va => ?_⟩
  rw [hwalk, peimRun, mappedBy_terminated]

/-- A carved-out address is mapped with the attributes of each stored reserved row that
covers it. -/
theorem CarvedOut.walk {x : ℕ} (h : CarvedOut (getPlatformMemoryMap flags) r x)
    (hwalk : ∀ va, st'.walk va = mappedBy el r.memoryTable va)
    {d : ArmMemoryRegionDescriptorEx} (hd : d ∈ getPlatformMemoryMap flags)
    (htype : d.memoryType = .reservedMemoryType) (htable : d.region ∈ r.memoryTable)
    (hx : d.span.Mem x) : st'.walk x = some ⟨x, pageAttributes el d.armAttributes⟩ := by
  obtain ⟨-, hlast⟩ := h d hd htype htable hx
  rw [hwalk, mappedBy, hlast]
  rfl

/-- In the `NB1_FIXED` build the last row to meet the hole is a RAM Partition. -/
theorem nb1Hole_lastMeeting : ∀ lg, ∀ mem ∈ memSizes,
    ∃ ram ∈ (peimRun ⟨lg, true⟩ mem).memoryTable,
      ram.attributes = .writeBack ∧ nb1Hole.Subset ram.span ∧
        Span.lastMeeting ArmMemoryRegionDescriptor.span (peimRun ⟨lg, true⟩ mem).memoryTable
          ram.span = some ram := by
  decide +kernel

/-- The `FIH Region` and `Ramoops` rows of the `NB1_FIXED` build are mapped as the RAM
Partition that contains them. -/
theorem nb1Hole_walk {banks : List FdtBank} (hnb : flags.nb1Fixed = true)
    (hr : memoryPeim (getPlatformMemoryMap flags) banks = some r)
    (hwalk : ∀ va, st'.walk va = mappedBy el r.memoryTable va) {x : ℕ} (hx : nb1Hole.Mem x) :
    st'.walk x = some ⟨x, pageAttributes el .writeBack⟩ := by
  rw [memoryPeim_platformMap] at hr
  obtain rfl := Option.some.inj hr
  obtain ⟨lg, nb⟩ := flags
  obtain rfl : nb = true := hnb
  obtain ⟨ram, -, hattr, hsub, hlast⟩ :=
    nb1Hole_lastMeeting lg _ (selectMem_mem_memSizes (memoryTotal banks))
  rw [hwalk, mappedBy, Span.lastCovering_of_lastMeeting hlast (hsub.mem hx), Option.map_some,
    hattr]

end Msm8998
