import Msm8998.CarveOut

/-!
# The Layout of the Published HOBs

Two questions about the ranges `MemoryPeim` publishes: whether the resource descriptor
HOBs of one run are pairwise disjoint, and whether the RAM Partition rows it selects
lie inside the memory the device tree reports.

The first is settled by two rows that every build publishes, `HLOS 3` and `DXE Heap`:
both end at `0x9D400000`, so no run is free of overlaps (`resourceHobs_overlap`), and
outside the `NB1_FIXED` build they are the only offenders
(`resourceHobs_disjoint_without_dxeHeap`).

The second has a finite answer. The rows published for a selected size are fixed
windows (`ramWindows`), so the run stays inside the reported memory exactly when the
banks cover those windows, and the finite cover test of `Span` turns that into
finitely many addresses (`ramReported_iff`).
-/

namespace Msm8998

/-! ### Overlapping resource descriptors -/

/-- The ranges of the resource descriptor HOBs, in publication order. -/
def resourceSpans (hobs : List Hob) : List Span :=
  hobs.filterMap fun
    | .resourceDescriptor _ _ base length => some ⟨base, length⟩
    | _ => none

/-- No two resource descriptor HOBs of the run claim a common address. -/
def HobsDisjoint (r : PeimResult) : Prop := (resourceSpans r.hobs).Pairwise Span.Disjoint

instance (r : PeimResult) : Decidable (HobsDisjoint r) :=
  inferInstanceAs (Decidable (List.Pairwise _ _))

/-- The span of the `DXE Heap` row. -/
def dxeHeap : Span := ⟨0x97C00000, 0x5800000⟩

/-- Every run publishes the `DXE Heap` row and a `HLOS 3` row that contains it. -/
theorem hlos3_contains_dxeHeap : ∀ lg nb, ∀ mem ∈ memSizes,
    dxeHeap ∈ resourceSpans (peimRun ⟨lg, nb⟩ mem).hobs ∧
      ∃ s ∈ resourceSpans (peimRun ⟨lg, nb⟩ mem).hobs, s ≠ dxeHeap ∧ dxeHeap.Subset s := by
  decide +kernel

/-- **Every run publishes overlapping HOBs**: for every list of FDT banks and every
build, the resource descriptor HOBs are not pairwise disjoint. -/
theorem resourceHobs_overlap (flags : BuildFlags) (banks : List FdtBank) :
    ∃ r, memoryPeim (getPlatformMemoryMap flags) banks = some r ∧ ¬ HobsDisjoint r := by
  refine ⟨_, memoryPeim_platformMap flags banks, ?_⟩
  obtain ⟨hheap, s, hs, hne, hsub⟩ := hlos3_contains_dxeHeap flags.lgPilFixed
    flags.nb1Fixed _ (selectMem_mem_memSizes (memoryTotal banks))
  intro hpair
  have hdisj : s.Disjoint dxeHeap := hpair.forall hs hheap hne
  have hmem : dxeHeap.Mem 0x97C00000 := by decide
  exact hdisj.not_mem (hsub.mem hmem) hmem

/-- On a plain build with no FDT bank at all, the first address of the `DXE Heap` is
claimed by two resource descriptor HOBs. -/
theorem plainBuild_hobs_overlap :
    ∃ r, memoryPeim (getPlatformMemoryMap ⟨false, false⟩) [] = some r ∧
      ((resourceSpans r.hobs).filter fun s => decide (s.Mem 0x97C00000))
        = [⟨0x95E15000, 0x75EB000⟩, dxeHeap] ∧
      ¬ HobsDisjoint r :=
  ⟨peimRun ⟨false, false⟩ .mem4G, by decide +kernel, by decide +kernel, by decide +kernel⟩

/-- Without the `DXE Heap` HOB, the resource descriptor HOBs of a build other than
`NB1_FIXED` are pairwise disjoint, for every selected size. -/
theorem resourceHobs_disjoint_without_dxeHeap : ∀ lg, ∀ mem ∈ memSizes,
    ((resourceSpans (peimRun ⟨lg, false⟩ mem).hobs).erase dxeHeap).Pairwise
      Span.Disjoint := by
  decide +kernel

/-! ### The RAM Partition rows and the reported memory -/

/-- The run published the row: its resource descriptor is among the HOBs. -/
def PeimResult.Publishes (r : PeimResult) (d : ArmMemoryRegionDescriptorEx) : Prop :=
  .resourceDescriptor d.resourceType d.resourceAttribute d.address d.length ∈ r.hobs

instance (r : PeimResult) (d : ArmMemoryRegionDescriptorEx) : Decidable (r.Publishes d) :=
  inferInstanceAs (Decidable (_ ∈ _))

/-- Every address of every size-selected RAM Partition row the run published lies
inside a bank of the device tree. -/
def RamReported (map : List ArmMemoryRegionDescriptorEx) (r : PeimResult)
    (banks : List FdtBank) : Prop :=
  ∀ d ∈ map, d.hobOption.IsMemSize → r.Publishes d →
    ∀ x, d.span.Mem x → Span.Covers (banks.map (·.span)) x

/-- The fixed RAM windows of each size option. The top of the 8 GiB window is the only
one that depends on the build. -/
def ramWindows (flags : BuildFlags) : DeviceMemoryAddHob → List Span
  | .mem6G => [⟨0x40000000, 0x40000000⟩, ⟨0xA0000000, 0x60000000⟩, ⟨0x100000000, 0xBD8C0000⟩]
  | .mem8G =>
      [⟨0xA0000000, 0xE0000000⟩,
       ⟨0x180000000, if flags.nb1Fixed then 0xFCBC0000 else 0xFCCC0000⟩]
  | _ => [⟨0xA0000000, 0xDE4C0000⟩]

/-- The size-selected rows of the map that a run publishes. -/
def publishedRam (flags : BuildFlags) (mem : DeviceMemoryAddHob) :
    List ArmMemoryRegionDescriptorEx :=
  (getPlatformMemoryMap flags).filter fun d =>
    decide d.hobOption.IsMemSize && decide ((peimRun flags mem).Publishes d)

/-- The published size-selected rows are exactly the windows, in order. -/
theorem publishedRam_spans : ∀ lg nb, ∀ mem ∈ memSizes,
    (publishedRam ⟨lg, nb⟩ mem).map (·.span) = ramWindows ⟨lg, nb⟩ mem := by
  decide +kernel

/-- A run stays inside the reported memory exactly when the banks cover its windows. -/
theorem ramReported_iff_windows {flags : BuildFlags} {mem : DeviceMemoryAddHob}
    (hmem : mem ∈ memSizes) (banks : List FdtBank) :
    RamReported (getPlatformMemoryMap flags) (peimRun flags mem) banks ↔
      ∀ w ∈ ramWindows flags mem, ∀ x, w.Mem x → Span.Covers (banks.map (·.span)) x := by
  have hspans : (publishedRam flags mem).map (·.span) = ramWindows flags mem :=
    publishedRam_spans flags.lgPilFixed flags.nb1Fixed mem hmem
  rw [← hspans]
  constructor
  · intro h w hw
    obtain ⟨d, hd, rfl⟩ := List.mem_map.mp hw
    obtain ⟨hmap, hsel⟩ := List.mem_filter.mp hd
    simp only [Bool.and_eq_true, decide_eq_true_eq] at hsel
    exact h d hmap hsel.1 hsel.2
  · intro h d hmap hsize hpub
    have hd : d ∈ publishedRam flags mem :=
      List.mem_filter.mpr ⟨hmap, by simp [hsize, hpub]⟩
    exact h d.span (List.mem_map_of_mem hd)

/-- **When the published RAM is reported RAM.** For every list of FDT banks and every
build, `MemoryPeim` publishes the fixed windows of the size its total selects, and they
lie inside the banks exactly when, for each window, its first address does and every
end of a bank that falls inside the window lies in a bank again. -/
theorem ramReported_iff (flags : BuildFlags) (banks : List FdtBank) :
    ∃ r, memoryPeim (getPlatformMemoryMap flags) banks = some r ∧
      ((getPlatformMemoryMap flags).filter fun d =>
          decide d.hobOption.IsMemSize && decide (r.Publishes d)).map (·.span)
        = ramWindows flags (selectMem (memoryTotal banks)) ∧
      (RamReported (getPlatformMemoryMap flags) r banks ↔
        ∀ w ∈ ramWindows flags (selectMem (memoryTotal banks)),
          ∀ p ∈ Span.probes w (banks.map (·.span)), Span.Covers (banks.map (·.span)) p) := by
  have hmem := selectMem_mem_memSizes (memoryTotal banks)
  refine ⟨_, memoryPeim_platformMap flags banks,
    publishedRam_spans flags.lgPilFixed flags.nb1Fixed _ hmem, ?_⟩
  rw [ramReported_iff_windows hmem]
  constructor
  · intro h w hw
    exact Span.covered_iff.mp (h w hw)
  · intro h w hw
    exact Span.covered_iff.mpr (h w hw)

/-- A device tree that reports exactly 3 GiB from `0x80000000`. -/
def threeGiBBanks : List FdtBank := [⟨0x80000000, 0xC0000000, ramBase_lt, by decide⟩]

/-- A total of exactly 3 GiB lies in none of the three intervals, so the 4 GiB window is
published and runs past the end of the only bank. -/
theorem threeGiB_ram_not_reported :
    ∃ r, memoryPeim (getPlatformMemoryMap ⟨false, false⟩) threeGiBBanks = some r ∧
      ¬ RamReported (getPlatformMemoryMap ⟨false, false⟩) r threeGiBBanks := by
  refine ⟨peimRun ⟨false, false⟩ .mem4G, by decide +kernel, ?_⟩
  rw [ramReported_iff_windows (by decide)]
  intro h
  have htop := h ⟨0xA0000000, 0xDE4C0000⟩ (by decide) 0x140000000 (by decide)
  exact absurd htop (by decide)

end Msm8998
