import Msm8998.MemoryPeim

/-!
# Carve-Outs of the Platform Map

A row of type `EfiReservedMemoryType` is a carve-out: memory that belongs to the
modem, the trust zone or a vendor and that the firmware must neither hand out nor map
as ordinary RAM. This module states what that means for a run of `MemoryPeim`
(`CarvedOut`) and decides it, for every list of FDT banks and every build.

The published conventional memory and the MMU table of a run depend on the banks only
through the selected size, so a statement about every bank list and every address
reduces to comparisons between rows, which `lastCovering_of_lastMeeting` and
`Disjoint.not_mem` carry back to addresses.

## Main results

* `carvedOut_iff`: an address is carved out in every build except in the `NB1_FIXED`
  one, and there exactly outside `[0xA0000000, 0xA0D00000)`, the `FIH Region` and
  `Ramoops` rows: they stand before the RAM Partition that contains them.
-/

namespace Msm8998

/-- The spans that memory allocation HOBs hand out as `EfiConventionalMemory`. -/
def conventionalSpans (hobs : List Hob) : List Span :=
  hobs.filterMap fun
    | .memoryAllocation base length .conventionalMemory => some ⟨base, length⟩
    | _ => none

/-- **The carve-out property** of a run at an address: every reserved row that covers
the address and is stored in the MMU table is kept out of the conventional memory, and
is the last entry of the table that covers the address, hence the one whose attributes
the MMU code leaves in place. -/
def CarvedOut (map : List ArmMemoryRegionDescriptorEx) (r : PeimResult) (x : ℕ) : Prop :=
  ∀ d ∈ map, d.memoryType = .reservedMemoryType → d.region ∈ r.memoryTable →
    d.span.Mem x →
      ¬ Span.Covers (conventionalSpans r.hobs) x ∧
        Span.lastCovering ArmMemoryRegionDescriptor.span r.memoryTable x = some d.region

/-- The run of `MemoryPeim` that selects `mem`. -/
def peimRun (flags : BuildFlags) (mem : DeviceMemoryAddHob) : PeimResult :=
  ⟨publishedHobs mem (getPlatformMemoryMap flags),
    mappedRegions mem (getPlatformMemoryMap flags) ++ [terminatorRegion]⟩

/-- The three size options as a list, for evaluation. -/
def memSizes : List DeviceMemoryAddHob := [.mem4G, .mem6G, .mem8G]

/-- The memory size that is selected is one of the table. -/
theorem selectMem_mem_memSizes (total : ℕ) : selectMem total ∈ memSizes := by
  have h := selectMem_mem total
  simpa [memSizes, DeviceMemoryAddHob.IsMemSize] using h

/-- The platform map is terminated and fits the table, in every build and for every
selected size. -/
theorem platformMap_fits : ∀ lg nb, ∀ mem ∈ memSizes,
    Terminated (getPlatformMemoryMap ⟨lg, nb⟩) ∧
      (mappedRegions mem (getPlatformMemoryMap ⟨lg, nb⟩)).length
        < maxArmMemoryRegionDescriptorCount := by
  decide +kernel

/-- On the platform map, `MemoryPeim` always succeeds, with the run of the size it
selects. -/
theorem memoryPeim_platformMap (flags : BuildFlags) (banks : List FdtBank) :
    memoryPeim (getPlatformMemoryMap flags) banks
      = some (peimRun flags (selectMem (memoryTotal banks))) := by
  obtain ⟨hterm, hroom⟩ := platformMap_fits flags.lgPilFixed flags.nb1Fixed _
    (selectMem_mem_memSizes (memoryTotal banks))
  exact memoryPeim_eq hterm hroom

/-- The bounds test behind `CarvedOut` for one reserved row: disjoint from every
conventional span, and the last row of the table to meet its own span. -/
def Separated (r : PeimResult) (d : ArmMemoryRegionDescriptorEx) : Prop :=
  (∀ c ∈ conventionalSpans r.hobs, d.span.Disjoint c) ∧
    Span.lastMeeting ArmMemoryRegionDescriptor.span r.memoryTable d.span = some d.region

instance (r : PeimResult) (d : ArmMemoryRegionDescriptorEx) : Decidable (Separated r d) :=
  inferInstanceAs (Decidable (_ ∧ _))

/-- A separated row is carved out at each of its addresses. -/
theorem Separated.carvedOut {r : PeimResult} {d : ArmMemoryRegionDescriptorEx}
    (h : Separated r d) {x : ℕ} (hx : d.span.Mem x) :
    ¬ Span.Covers (conventionalSpans r.hobs) x ∧
      Span.lastCovering ArmMemoryRegionDescriptor.span r.memoryTable x = some d.region := by
  constructor
  · rintro ⟨c, hc, hcx⟩
    exact (h.1 c hc).not_mem hx hcx
  · have hspan : d.region.span = d.span := rfl
    exact Span.lastCovering_of_lastMeeting (hspan ▸ h.2) hx

/-- The part of the `NB1_FIXED` map that its two extra reserved rows describe. -/
def nb1Hole : Span := ⟨0xA0000000, 0xD00000⟩

/-- Every reserved row of the map is separated or lies in the `NB1_FIXED` hole. -/
theorem reserved_separated_or_hole : ∀ lg nb, ∀ mem ∈ memSizes,
    ∀ d ∈ getPlatformMemoryMap ⟨lg, nb⟩, d.memoryType = .reservedMemoryType →
      d.length = 0 ∨ Separated (peimRun ⟨lg, nb⟩ mem) d ∨
        (nb = true ∧ d.span.Subset nb1Hole) := by
  decide +kernel

/-- In the `NB1_FIXED` build one conventional span contains the whole hole, whichever
size is selected, and the two reserved rows that make it up are in the table. -/
theorem nb1Hole_conventional : ∀ lg, ∀ mem ∈ memSizes,
    (∃ c ∈ conventionalSpans (peimRun ⟨lg, true⟩ mem).hobs, nb1Hole.Subset c) ∧
      ∀ d ∈ getPlatformMemoryMap ⟨lg, true⟩, d.span.Subset nb1Hole → d.length ≠ 0 →
        d.memoryType = .reservedMemoryType →
          d.region ∈ (peimRun ⟨lg, true⟩ mem).memoryTable := by
  decide +kernel

/-- Two rows of the `NB1_FIXED` map make up the hole. -/
theorem nb1Hole_rows : ∀ lg, ∃ d₁ ∈ getPlatformMemoryMap ⟨lg, true⟩,
    ∃ d₂ ∈ getPlatformMemoryMap ⟨lg, true⟩,
      d₁.span = ⟨0xA0000000, 0xB00000⟩ ∧ d₂.span = ⟨0xA0B00000, 0x200000⟩ ∧
        d₁.memoryType = .reservedMemoryType ∧ d₂.memoryType = .reservedMemoryType := by
  decide +kernel

/-- Every address of the hole lies in a reserved row of the `NB1_FIXED` map that is
stored in the MMU table. -/
theorem exists_reserved_of_nb1Hole {lg : Bool} {mem : DeviceMemoryAddHob}
    (hmem : mem ∈ memSizes) {x : ℕ} (hx : nb1Hole.Mem x) :
    ∃ d ∈ getPlatformMemoryMap ⟨lg, true⟩, d.memoryType = .reservedMemoryType ∧
      d.region ∈ (peimRun ⟨lg, true⟩ mem).memoryTable ∧ d.span.Mem x := by
  obtain ⟨d₁, hd₁, d₂, hd₂, hs₁, hs₂, ht₁, ht₂⟩ := nb1Hole_rows lg
  have htable := (nb1Hole_conventional lg mem hmem).2
  have hlen₁ : d₁.length = 0xB00000 := congrArg Span.length hs₁
  have hlen₂ : d₂.length = 0x200000 := congrArg Span.length hs₂
  by_cases hlow : x < 0xA0B00000
  · refine ⟨d₁, hd₁, ht₁, htable d₁ hd₁ (by rw [hs₁]; decide) (by omega) ht₁, ?_⟩
    rw [hs₁]
    exact ⟨hx.1, hlow⟩
  · refine ⟨d₂, hd₂, ht₂, htable d₂ hd₂ (by rw [hs₂]; decide) (by omega) ht₂, ?_⟩
    rw [hs₂]
    exact ⟨not_lt.mp hlow, hx.2⟩

/-- **Where carve-outs stay carved out.** For every list of FDT banks, every build and
every address, the run of `MemoryPeim` keeps the address carved out exactly when it is
not one of the addresses that the `NB1_FIXED` build reserves below its RAM Partition. -/
theorem carvedOut_iff (flags : BuildFlags) (banks : List FdtBank) (x : ℕ) :
    ∃ r, memoryPeim (getPlatformMemoryMap flags) banks = some r ∧
      (CarvedOut (getPlatformMemoryMap flags) r x ↔
        ¬ (flags.nb1Fixed = true ∧ 0xA0000000 ≤ x ∧ x < 0xA0D00000)) := by
  refine ⟨_, memoryPeim_platformMap flags banks, ?_⟩
  have hmem := selectMem_mem_memSizes (memoryTotal banks)
  generalize selectMem (memoryTotal banks) = mem at hmem ⊢
  obtain ⟨lg, nb⟩ := flags
  constructor
  · rintro hcarved ⟨hnb, hlow, hhigh⟩
    obtain rfl : nb = true := hnb
    have hx : nb1Hole.Mem x := ⟨hlow, hhigh⟩
    obtain ⟨d, hd, htype, htable, hdx⟩ := @exists_reserved_of_nb1Hole lg mem hmem x hx
    obtain ⟨c, hc, hsub⟩ := (nb1Hole_conventional lg mem hmem).1
    exact (hcarved d hd htype htable hdx).1 ⟨c, hc, hsub.mem hx⟩
  · intro hout d hd htype _ hdx
    rcases reserved_separated_or_hole lg nb mem hmem d hd htype with hzero | hsep | ⟨hnb, hsub⟩
    · obtain ⟨hlo, hhi⟩ := hdx
      simp only [Span.stop, ArmMemoryRegionDescriptorEx.span, hzero] at hlo hhi
      omega
    · exact hsep.carvedOut hdx
    · obtain ⟨hlo, hhi⟩ := hsub.mem hdx
      exact absurd ⟨hnb, hlo, hhi⟩ hout

/-- The two banks of the Nokia 8 `/memory` node. -/
def nb1Banks : List FdtBank :=
  [⟨0x80000000, 0x100000000, ramBase_lt, by decide⟩,
   ⟨0x180000000, 0xFCBC0000, by decide, by decide⟩]

/-- On the Nokia 8 the first address of the `FIH Region` is not carved out: it is
published as conventional memory and mapped write-back. -/
theorem fihRegion_not_carvedOut :
    ∃ r, memoryPeim (getPlatformMemoryMap ⟨false, true⟩) nb1Banks = some r ∧
      Span.Covers (conventionalSpans r.hobs) 0xA0000000 ∧
      (Span.lastCovering ArmMemoryRegionDescriptor.span r.memoryTable 0xA0000000).map
        (·.attributes) = some .writeBack ∧
      ¬ CarvedOut (getPlatformMemoryMap ⟨false, true⟩) r 0xA0000000 := by
  refine ⟨peimRun ⟨false, true⟩ .mem8G, by decide +kernel, by decide +kernel,
    by decide +kernel, ?_⟩
  intro hcarved
  obtain ⟨d, hd, htype, htable, hdx⟩ :=
    @exists_reserved_of_nb1Hole false .mem8G (by decide) 0xA0000000 (by decide)
  exact (hcarved d hd htype htable hdx).1 (by decide +kernel)

end Msm8998
