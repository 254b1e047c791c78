import Msm8998.RegionMapping

/-!
# Configuring the MMU

What `ArmConfigureMmu` leaves behind. The first part reads off the configuration: for 32
to 52 physical address bits, the value written to the translation control register
selects a range of `min bits 48` bits, and the zeroed root table is a well-shaped table
that maps nothing. The second part runs through the region table: every region is mapped
over what the regions before it mapped, so the walk of the finished table is the last
region that covers an address.

## Main results

* `configureLoop_spec`: the run over a region table that does not ask for the whole
  48-bit range at once;
* `armConfigureMmu_maps`: such a run maps every address by its last region;
* `armConfigureMmu_maps_iff`: the run maps every address by its last region exactly when
  no region is the whole 48-bit range.
-/

namespace Msm8998

open BitMask

variable {alloc : ℕ → Option ℕ} {cfg : WalkConfig} {root : ℕ} {st st' : MmuState}
  {el : ExceptionLevel}

/-! ### The configuration -/

/-- The number of bits of the virtual address range. -/
def addressWidth (physicalAddressBits : ℕ) : ℕ := min physicalAddressBits 48

/-- `MaxAddress` is the last address of the range. -/
theorem maxAddress_eq {bits : ℕ} : maxAddress bits = 2 ^ addressWidth bits - 1 := by
  rw [maxAddress, Nat.one_shiftLeft, addressWidth, show maxAllocAddress = 2 ^ 48 - 1 from rfl]
  rcases Nat.le_total bits 48 with h | h
  · have := Nat.pow_le_pow_right (n := 2) (by omega) h
    rw [Nat.min_eq_left h]
    omega
  · have := Nat.pow_le_pow_right (n := 2) (by omega) h
    rw [Nat.min_eq_right h]
    omega

/-- The scan for the top bit of `2 ^ v - 1` ends one above it, at `v`. -/
theorem topBitLoop_eq {v : ℕ} (hv : 2 ≤ v) :
    ∀ {top : ℕ}, v ≤ top + 1 → topBitLoop (2 ^ v - 1) top = v := by
  intro top
  induction top with
  | zero =>
      intro h
      omega
  | succ top ih =>
      intro h
      rw [topBitLoop, Nat.testBit_two_pow_sub_one]
      by_cases htop : top + 1 < v
      · rw [if_pos (by simpa using htop)]
        omega
      · rw [if_neg (by simpa using htop)]
        exact ih (by omega)

/-- `T0SZ` for 32 to 52 physical address bits. -/
theorem lookupAddresstoRootTable_eq {bits : ℕ} (hbits : 32 ≤ bits) :
    lookupAddresstoRootTable (maxAddress bits) =
      (64 - addressWidth bits, (getRootTranslationTableInfo (64 - addressWidth bits)).2) := by
  have hw : addressWidth bits = min bits 48 := rfl
  rw [lookupAddresstoRootTable, maxAddress_eq, topBitLoop_eq (by omega) (by omega)]

/-- Every `MaxAddress` has an address size field, since it lies below `2 ^ 48`. -/
theorem exists_physicalSizeField (bits : ℕ) :
    ∃ ps, physicalSizeField (maxAddress bits) = some ps := by
  have hlt : maxAddress bits < 1 <<< 48 := by
    have hle : maxAddress bits ≤ maxAllocAddress := Nat.min_le_right _ _
    exact lt_of_le_of_lt hle (by decide)
  rw [physicalSizeField, if_pos hlt]
  repeat' split
  all_goals exact ⟨_, rfl⟩

/-- The translation control register that `ArmConfigureMmu` writes at EL1 and EL2 holds
`T0SZ` in its low field. -/
theorem tcrValue_eq {t0sz : ℕ} (bits : ℕ) (hel : el ≠ .el3) (ht : t0sz < 64) :
    ∃ tcr, tcrValue el (maxAddress bits) t0sz = some tcr ∧ tcr &&& tcrT0szMask = t0sz := by
  obtain ⟨ps, hfield⟩ := exists_physicalSizeField bits
  have hlow : t0sz &&& tcrT0szMask = t0sz := Nat.and_two_pow_sub_one_of_lt_two_pow (n := 6) ht
  have hshift : ∀ a {n : ℕ}, 6 ≤ n → a <<< n &&& tcrT0szMask = 0 :=
    fun a _ hn => shiftLeft_and_low (m := 6) a hn
  cases el with
  | el1 =>
      refine ⟨_, by rw [tcrValue, hfield]; rfl, ?_⟩
      simp only [Nat.and_or_distrib_right]
      rw [hlow, hshift 2 (by omega), hshift 1 (by omega), hshift ps (by omega),
        hshift 3 (by omega), hshift 1 (by omega), hshift 1 (by omega)]
      simp only [Nat.or_zero]
  | el2 =>
      refine ⟨_, by rw [tcrValue, hfield]; rfl, ?_⟩
      simp only [Nat.and_or_distrib_right]
      rw [hlow, hshift 1 (by omega), hshift 1 (by omega), hshift ps (by omega),
        hshift 3 (by omega), hshift 1 (by omega), hshift 1 (by omega)]
      simp only [Nat.or_zero]
  | el3 => exact absurd rfl hel

/-- The configurations of 16 to 33 in `T0SZ` are those the page table code handles. -/
theorem ofT0sz_ok {t0sz : ℕ} (hlo : 16 ≤ t0sz) (hhi : t0sz < 34) :
    (WalkConfig.ofT0sz t0sz).Ok where
  two_le := by
    show 2 ≤ 3 - (t0sz - 16) / 9
    omega
  le_three := Nat.sub_le 3 _
  width_le := by
    show 64 - t0sz ≤ 48
    omega
  serves := by
    show 2 ^ (64 - t0sz) ≤ 2 ^ (12 + 9 * (3 - (t0sz - 16) / 9 + 1))
    exact Nat.pow_le_pow_right (by omega) (by omega)

/-! ### The empty root table -/

/-- The shape of a table without subtables. -/
def rootShape (cfg : WalkConfig) (root : ℕ) : Shape := fun n p =>
  if n = cfg.rootBelow ∧ p = 0 then some root else none

/-- The only table of the root shape. -/
theorem rootShape_eq_some {n p b : ℕ} (h : rootShape cfg root n p = some b) :
    n = cfg.rootBelow ∧ p = 0 ∧ b = root := by
  rw [rootShape] at h
  split at h
  · rename_i hc
    exact ⟨hc.1, hc.2, (Option.some.inj h).symm⟩
  · exact absurd h (by simp)

/-- A page with zeroes in every entry of the range is a well-shaped table. -/
theorem wellShaped_root (hcfg : cfg.Ok) {memory : ℕ → ℕ} (hpos : 0 < root)
    (haligned : 4096 ∣ root) (hlt : root < 2 ^ 48)
    (hzero : ∀ x, x < 2 ^ cfg.width → memory (entryAddress root cfg.rootBelow x) = 0) :
    WellShaped cfg secure memory root (rootShape cfg root) where
  root_eq := if_pos ⟨rfl, rfl⟩
  below_le h := (rootShape_eq_some h).1.le
  in_range h := by
    obtain ⟨-, rfl, -⟩ := rootShape_eq_some h
    rw [Nat.zero_mul]
    exact Nat.two_pow_pos _
  base_pos h := by rw [(rootShape_eq_some h).2.2]; exact hpos
  aligned h := by rw [(rootShape_eq_some h).2.2]; exact haligned
  base_lt h := by rw [(rootShape_eq_some h).2.2]; exact hlt
  inj h h' := by
    obtain ⟨rfl, rfl, -⟩ := rootShape_eq_some h
    obtain ⟨rfl, rfl, -⟩ := rootShape_eq_some h'
    exact ⟨rfl, rfl⟩
  parent _ h hn := by
    have := (rootShape_eq_some h).1
    omega
  page _ h := by
    have := (rootShape_eq_some h).1
    have := hcfg.two_le
    omega
  entry hx h := by
    obtain ⟨hn, -, rfl⟩ := rootShape_eq_some h
    right
    refine ⟨if_neg (by omega), ?_⟩
    rw [hn, hzero _ hx]
    exact leafOk_zero _ _ _

/-- The walk of a zeroed root table finds nothing. -/
theorem walk_root {memory : ℕ → ℕ}
    (hzero : ∀ x, x < 2 ^ cfg.width → memory (entryAddress root cfg.rootBelow x) = 0) (y : ℕ) :
    walk cfg memory root y = none := by
  rw [walk]
  split
  · rename_i hy
    rw [locate_leaf (Or.inr (by rw [hzero y hy]; decide)), hzero y hy,
      translate_invalid (Nat.zero_and _)]
  · rfl

/-- The entries of the root table that the range needs are those that the source zeroes. -/
theorem fill_root_eq_zero {t0sz x : ℕ} (hlo : 16 ≤ t0sz) (hhi : t0sz < 34)
    (hx : x < 2 ^ (WalkConfig.ofT0sz t0sz).width) :
    (st.fill root (getRootTranslationTableInfo t0sz).2 fun _ => 0).memory
      (entryAddress root (WalkConfig.ofT0sz t0sz).rootBelow x) = 0 := by
  obtain ⟨q, r, hqr, hr, hq⟩ : ∃ q r, t0sz - 16 = 9 * q + r ∧ r < 9 ∧ q ≤ 1 :=
    ⟨(t0sz - 16) / 9, (t0sz - 16) % 9, by omega, by omega, by omega⟩
  have hcount : (getRootTranslationTableInfo t0sz).2 = 2 ^ (9 - r) := by
    rw [getRootTranslationTableInfo, minT0sz, bitsPerLevel, sub64_eq hlo (by omega),
      Nat.one_shiftLeft, hqr, Nat.mul_add_mod, Nat.mod_eq_of_lt hr]
  have hbelow : (WalkConfig.ofT0sz t0sz).rootBelow = 3 - q := by
    rw [WalkConfig.ofT0sz]
    dsimp only
    omega
  have hlt : x / blockSize (3 - q) < 2 ^ (9 - r) := by
    rw [Nat.div_lt_iff_lt_mul (blockSize_pos _), blockSize, ← Nat.pow_add]
    have hexp : 9 - r + (12 + 9 * (3 - q)) = 64 - t0sz := by omega
    rw [hexp]
    exact hx
  have hindex : x / blockSize (3 - q) % 512 ≤ x / blockSize (3 - q) := Nat.mod_le _ _
  rw [hcount, hbelow, MmuState.fill]
  dsimp only
  rw [if_pos]
  rw [entryAddress]
  omega

/-! ### The run over the region table -/

/-- What the regions map an address to: itself, with the page attributes of the last region
that covers it. -/
def mappedBy (el : ExceptionLevel) (regions : List ArmMemoryRegionDescriptor) (y : ℕ) :
    Option Translation :=
  (Span.lastCovering ArmMemoryRegionDescriptor.span regions y).map fun r =>
    ⟨y, pageAttributes el r.attributes⟩

/-- One more region takes over its own addresses. -/
theorem mappedBy_concat (regions : List ArmMemoryRegionDescriptor)
    (r : ArmMemoryRegionDescriptor) (y : ℕ) :
    mappedBy el (regions ++ [r]) y =
      if r.virtualBase ≤ y ∧ y < r.virtualBase + r.length
      then some ⟨y, pageAttributes el r.attributes⟩ else mappedBy el regions y := by
  rw [mappedBy, Span.lastCovering_concat]
  by_cases hy : r.virtualBase ≤ y ∧ y < r.virtualBase + r.length
  · have hmem : r.span.Mem y := hy
    rw [if_pos hy, if_pos hmem]
    rfl
  · have hmem : ¬ r.span.Mem y := hy
    rw [if_neg hy, if_neg hmem]
    rfl

/-- The registers and the count of allocations after a run. -/
structure Continues (st st' : MmuState) : Prop where
  tcr_eq : st'.tcr = st.tcr
  ttbr0_eq : st'.ttbr0 = st.ttbr0
  calls_le : st.allocCalls ≤ st'.allocCalls

/-- What is configured remains so while tables are filled. -/
theorem Configured.continues (h : Configured cfg st) (hst : Continues st st') :
    Configured cfg st' :=
  ⟨hst.tcr_eq ▸ h.cfg_eq, hst.tcr_eq ▸ h.le, hst.tcr_eq ▸ h.lt⟩

/-- What the run over a region table can return. -/
inductive TableOutcome (alloc : ℕ → Option ℕ) (cfg : WalkConfig) (root : ℕ)
    (mapping : ℕ → Option Translation) (st : MmuState) :
    Except Halt EfiStatus × MmuState → Prop
  | failed {st' : MmuState} (failure : AllocFailed alloc st st') :
      TableOutcome alloc cfg root mapping st (.ok .outOfResources, st')
  | done {st' : MmuState} (continues : Continues st st')
      (walk_eq : ∀ y, walk cfg st'.memory root y = mapping y) :
      TableOutcome alloc cfg root mapping st (.ok .success, st')

section Table

variable {fuel : ℕ} {terminator : ArmMemoryRegionDescriptor}
  {rest : List ArmMemoryRegionDescriptor}

/-- **The run over the region table**, by induction on the regions still to come. -/
theorem configureLoop_spec (hcfg : cfg.Ok) (hfresh : FreshAlloc alloc) (hfuel : 2 ^ 36 < fuel)
    (hterm : terminator.length = 0) :
    ∀ {regions before : List ArmMemoryRegionDescriptor} {shape : Shape} {st : MmuState},
      (∀ r ∈ regions, r.Mappable cfg.width ∧ ¬ r.Whole) →
      TableInv alloc cfg True root shape st → Configured cfg st →
      (∀ y, walk cfg st.memory root y = mappedBy el before y) →
      TableOutcome alloc cfg root (mappedBy el (before ++ regions)) st
        (configureLoop alloc fuel el root (regions ++ terminator :: rest) st) := by
  intro regions
  induction regions with
  | nil =>
      intro before shape st _ _ _ hwalk
      rw [List.nil_append, configureLoop, if_pos hterm, List.append_nil]
      exact .done ⟨rfl, rfl, le_rfl⟩ hwalk
  | cons r regions ih =>
      intro before shape st hregions hinv hconf hwalk
      obtain ⟨hr, hwhole⟩ := hregions r List.mem_cons_self
      have hregion := fillTranslationTable_spec el hcfg hfresh hinv hconf hfuel hr hwhole
      rw [List.cons_append, configureLoop, if_neg (Nat.ne_of_gt hr.pos)]
      generalize fillTranslationTable alloc fuel el root r st = res at hregion
      cases hregion with
      | failed failure => exact .failed failure
      | @done st₁ shape₁ inv updated =>
          have hst : Continues st st₁ := ⟨updated.tcr_eq, updated.ttbr0_eq, updated.calls_le⟩
          have hwalk₁ : ∀ y, walk cfg st₁.memory root y = mappedBy el (before ++ [r]) y := by
            intro y
            rw [mappedBy_concat]
            by_cases hy : r.virtualBase ≤ y ∧ y < r.virtualBase + r.length
            · rw [if_pos hy]
              exact updated.inside y hy.1 hy.2
            · rw [if_neg hy, updated.outside y hy, hwalk]
          have hnext := ih (fun r' hr' => hregions r' (List.mem_cons_of_mem r hr')) inv
            (hconf.continues hst) hwalk₁
          rw [List.append_assoc, List.singleton_append] at hnext
          dsimp only
          generalize configureLoop alloc fuel el root (regions ++ terminator :: rest) st₁ = res
            at hnext
          cases hnext with
          | failed failure => exact .failed (failure.of_le hst.calls_le)
          | done continues walk_eq =>
              exact .done ⟨continues.tcr_eq.trans hst.tcr_eq,
                continues.ttbr0_eq.trans hst.ttbr0_eq,
                le_trans hst.calls_le continues.calls_le⟩ walk_eq

/-- The run over a region table does not succeed when a region is the whole 48-bit range. -/
theorem configureLoop_ne_success (hcfg : cfg.Ok) (hfresh : FreshAlloc alloc)
    (hfuel : 2 ^ 36 < fuel) :
    ∀ {regions : List ArmMemoryRegionDescriptor} {shape : Shape} {st : MmuState},
      (∀ r ∈ regions, r.Mappable cfg.width) → (∃ r ∈ regions, r.Whole) →
      TableInv alloc cfg True root shape st → Configured cfg st →
      (configureLoop alloc fuel el root (regions ++ terminator :: rest) st).1 ≠ .ok .success := by
  intro regions
  induction regions with
  | nil =>
      rintro shape st - ⟨r, hr, -⟩
      exact absurd hr List.not_mem_nil
  | cons r regions ih =>
      intro shape st hregions hsome hinv hconf
      have hr := hregions r List.mem_cons_self
      rw [List.cons_append, configureLoop, if_neg (Nat.ne_of_gt hr.pos)]
      by_cases hwhole : r.Whole
      · have hfail : (fillTranslationTable alloc fuel el root r st).1 ≠ .ok .success := by
          rw [fillTranslationTable, hwhole.1, hwhole.2]
          exact updateRegionMapping_ne_success hconf
        generalize fillTranslationTable alloc fuel el root r st = res at hfail
        obtain ⟨res, st₁⟩ := res
        match res with
        | .error e => simp
        | .ok .success => exact absurd rfl hfail
        | .ok .invalidParameter => simp
        | .ok .outOfResources => simp
        | .ok .unsupported => simp
      · have hregion := fillTranslationTable_spec el hcfg hfresh hinv hconf hfuel hr hwhole
        generalize fillTranslationTable alloc fuel el root r st = res at hregion
        cases hregion with
        | failed failure => simp
        | done inv updated =>
            have hsome' : ∃ r' ∈ regions, r'.Whole := by
              obtain ⟨r', hr', hw⟩ := hsome
              rcases List.mem_cons.mp hr' with rfl | hmem
              · exact absurd hw hwhole
              · exact ⟨r', hmem, hw⟩
            exact ih (fun r' hr' => hregions r' (List.mem_cons_of_mem r hr')) hsome' inv
              (hconf.continues ⟨updated.tcr_eq, updated.ttbr0_eq, updated.calls_le⟩)

/-- A run over a region table that succeeds leaves a well-shaped table. -/
theorem configureLoop_tableInv (hcfg : cfg.Ok) (hfresh : FreshAlloc alloc)
    (hfuel : 2 ^ 36 < fuel) (hterm : terminator.length = 0) :
    ∀ {regions : List ArmMemoryRegionDescriptor} {shape : Shape} {st : MmuState},
      (∀ r ∈ regions, r.Mappable cfg.width ∧ ¬ r.Whole) →
      TableInv alloc cfg True root shape st → Configured cfg st →
      configureLoop alloc fuel el root (regions ++ terminator :: rest) st = (.ok .success, st') →
      ∃ shape', TableInv alloc cfg True root shape' st' := by
  intro regions
  induction regions with
  | nil =>
      intro shape st _ hinv _ hrun
      rw [List.nil_append, configureLoop, if_pos hterm] at hrun
      cases hrun
      exact ⟨shape, hinv⟩
  | cons r regions ih =>
      intro shape st hregions hinv hconf hrun
      obtain ⟨hr, hwhole⟩ := hregions r List.mem_cons_self
      have hregion := fillTranslationTable_spec el hcfg hfresh hinv hconf hfuel hr hwhole
      rw [List.cons_append, configureLoop, if_neg (Nat.ne_of_gt hr.pos)] at hrun
      generalize fillTranslationTable alloc fuel el root r st = res at hregion hrun
      cases hregion with
      | failed failure => exact absurd (congrArg Prod.fst hrun) nofun
      | done inv updated =>
          exact ih (fun r' hr' => hregions r' (List.mem_cons_of_mem r hr')) inv
            (hconf.continues ⟨updated.tcr_eq, updated.ttbr0_eq, updated.calls_le⟩) hrun

end Table

/-! ### `ArmConfigureMmu` -/

/-- The state in which `ArmConfigureMmu` starts on the region table: the control register is
set and the first allocated page is the zeroed root table. -/
def configuredState (st : MmuState) (tcr page bits : ℕ) : MmuState :=
  MmuState.fill ⟨st.memory, st.allocCalls + 1, tcr, page⟩ page
    (getRootTranslationTableInfo (64 - addressWidth bits)).2 fun _ => 0

/-- The two ways through `ArmConfigureMmu` before the region table: the allocation of the
root table fails, or the loop over the region table starts. -/
theorem armConfigureMmu_eq (alloc : ℕ → Option ℕ) (fuel : ℕ)
    (table : List ArmMemoryRegionDescriptor) (st : MmuState) {bits : ℕ} (hbits : 32 ≤ bits)
    (hel : el ≠ .el3) :
    ∃ tcr, tcr &&& tcrT0szMask = 64 - addressWidth bits ∧
      armConfigureMmu alloc fuel el bits table st =
        match alloc st.allocCalls with
        | none => (.ok .outOfResources, ⟨st.memory, st.allocCalls + 1, tcr, st.ttbr0⟩)
        | some page => configureLoop alloc fuel el page table (configuredState st tcr page bits) := by
  have hw : addressWidth bits = min bits 48 := rfl
  obtain ⟨tcr, htcr, hmask⟩ := @tcrValue_eq el (64 - addressWidth bits) bits hel (by omega)
  refine ⟨tcr, hmask, ?_⟩
  rw [armConfigureMmu]
  simp only [lookupAddresstoRootTable_eq hbits, htcr, allocatePages]
  cases alloc st.allocCalls with
  | none => rfl
  | some page => rfl

/-- The configuration for a number of physical address bits. -/
def configOf (bits : ℕ) : WalkConfig := WalkConfig.ofT0sz (64 - addressWidth bits)

/-- The configuration of an address width of at least 32 bits is a valid one. -/
theorem configOf_ok {bits : ℕ} (hbits : 32 ≤ bits) : (configOf bits).Ok := by
  have hw : addressWidth bits = min bits 48 := rfl
  exact ofT0sz_ok (by omega) (by omega)

/-- It covers the addresses that the register is set up for. -/
theorem configOf_width (bits : ℕ) : (configOf bits).width = addressWidth bits := by
  have hw : addressWidth bits = min bits 48 := rfl
  show 64 - (64 - addressWidth bits) = addressWidth bits
  omega

/-- The state before the region table holds a well-shaped table that maps nothing. -/
theorem configuredState_spec (hfresh : FreshAlloc alloc) {tcr page bits : ℕ}
    (hbits : 32 ≤ bits) (hmask : tcr &&& tcrT0szMask = 64 - addressWidth bits)
    (hpage : alloc st.allocCalls = some page) :
    TableInv alloc (configOf bits) True page (rootShape (configOf bits) page)
        (configuredState st tcr page bits) ∧
      Configured (configOf bits) (configuredState st tcr page bits) ∧
      ∀ y, walk (configOf bits) (configuredState st tcr page bits).memory page y = none := by
  have hw : addressWidth bits = min bits 48 := rfl
  have hzero : ∀ x, x < 2 ^ (configOf bits).width →
      (configuredState st tcr page bits).memory (entryAddress page (configOf bits).rootBelow x) =
        0 := fun x hx => fill_root_eq_zero (by omega) (by omega) hx
  refine ⟨⟨?_, ?_⟩, ⟨?_, ?_, ?_⟩, walk_root hzero⟩
  · exact wellShaped_root (configOf_ok hbits) (hfresh.pos hpage) (hfresh.aligned hpage)
      (hfresh.lt hpage) hzero
  · intro n p b k hb hk hk'
    obtain ⟨-, -, rfl⟩ := rootShape_eq_some hb
    have heq := hfresh.inj hpage hk'
    have hle : st.allocCalls + 1 ≤ k := hk
    omega
  · show WalkConfig.ofT0sz (tcr &&& tcrT0szMask) = configOf bits
    rw [hmask, configOf]
  · show 16 ≤ tcr &&& tcrT0szMask
    omega
  · show tcr &&& tcrT0szMask < 34
    omega

/-- The walk that the registers of a state select. -/
def MmuState.walk (st : MmuState) (va : ℕ) : Option Translation :=
  Msm8998.walk (WalkConfig.ofT0sz (st.tcr &&& tcrT0szMask)) st.memory st.ttbr0 va

section Run

variable {bits fuel : ℕ} {regions rest : List ArmMemoryRegionDescriptor}
  {terminator : ArmMemoryRegionDescriptor}

/-- A run without failed allocations maps every address by its last region, provided no
region is the whole 48-bit range. -/
theorem armConfigureMmu_maps (hbits : 32 ≤ bits) (hel : el ≠ .el3) (hfresh : FreshAlloc alloc)
    (hfuel : 2 ^ 36 < fuel) (hterm : terminator.length = 0)
    (hregions : ∀ r ∈ regions, r.Mappable (addressWidth bits) ∧ ¬ r.Whole)
    (hok : ¬ AllocFailed alloc st
      (armConfigureMmu alloc fuel el bits (regions ++ terminator :: rest) st).2) :
    ∃ st', armConfigureMmu alloc fuel el bits (regions ++ terminator :: rest) st =
      (.ok .success, st') ∧ ∀ va, st'.walk va = mappedBy el regions va := by
  rw [← configOf_width] at hregions
  obtain ⟨tcr, hmask, heq⟩ := armConfigureMmu_eq alloc fuel
    (regions ++ terminator :: rest) st hbits hel
  rw [heq] at hok ⊢
  cases hpage : alloc st.allocCalls with
  | none =>
      rw [hpage] at hok
      exact absurd ⟨st.allocCalls, le_rfl, Nat.lt_succ_self _, hpage⟩ hok
  | some page =>
      obtain ⟨hinv, hconf, hnone⟩ := configuredState_spec hfresh hbits hmask hpage
      rw [hpage] at hok
      have hrun : TableOutcome alloc (configOf bits) page (mappedBy el ([] ++ regions))
          (configuredState st tcr page bits)
          (configureLoop alloc fuel el page (regions ++ terminator :: rest)
            (configuredState st tcr page bits)) :=
        configureLoop_spec (configOf_ok hbits) hfresh hfuel hterm hregions hinv hconf hnone
      dsimp only at hok ⊢
      generalize configureLoop alloc fuel el page (regions ++ terminator :: rest)
        (configuredState st tcr page bits) = res at hrun hok
      cases hrun with
      | failed failure => exact absurd (failure.of_le (Nat.le_succ _)) hok
      | @done st' continues walk_eq =>
          refine ⟨st', rfl, fun va => ?_⟩
          have htcr : st'.tcr = tcr := continues.tcr_eq
          have httbr0 : st'.ttbr0 = page := continues.ttbr0_eq
          rw [MmuState.walk, htcr, httbr0, hmask]
          exact walk_eq va

/-- A run never returns success when a region is the whole 48-bit range. -/
theorem armConfigureMmu_ne_success (hbits : 32 ≤ bits) (hel : el ≠ .el3)
    (hfresh : FreshAlloc alloc) (hfuel : 2 ^ 36 < fuel)
    (hregions : ∀ r ∈ regions, r.Mappable (addressWidth bits))
    (hwhole : ∃ r ∈ regions, r.Whole) :
    (armConfigureMmu alloc fuel el bits (regions ++ terminator :: rest) st).1
      ≠ .ok .success := by
  rw [← configOf_width] at hregions
  obtain ⟨tcr, hmask, heq⟩ := armConfigureMmu_eq alloc fuel
    (regions ++ terminator :: rest) st hbits hel
  rw [heq]
  cases hpage : alloc st.allocCalls with
  | none => simp
  | some page =>
      obtain ⟨hinv, hconf, -⟩ := configuredState_spec hfresh hbits hmask hpage
      exact configureLoop_ne_success (configOf_ok hbits) hfresh hfuel hregions hwhole hinv hconf

end Run

/-- **The finished table.** Let the region table consist of page-aligned, identity mapped
regions in the range, let pages be fresh and let no allocation of the run fail. Then the
run succeeds and every address is mapped to itself with the attributes of the last region
that covers it, or not mapped when none does, exactly when no region is the whole 48-bit
range at once. -/
theorem armConfigureMmu_maps_iff {bits : ℕ} {regions rest : List ArmMemoryRegionDescriptor}
    {terminator : ArmMemoryRegionDescriptor} (hbits : 32 ≤ bits ∧ bits ≤ 52) (hel : el ≠ .el3)
    (hfresh : FreshAlloc alloc)
    (hsucceed : ∀ fuel, ¬ AllocFailed alloc st
      (armConfigureMmu alloc fuel el bits (regions ++ terminator :: rest) st).2)
    (hterm : terminator.length = 0) (hregions : ∀ r ∈ regions, r.Mappable (addressWidth bits)) :
    (∀ fuel, 2 ^ 36 < fuel → ∃ st',
      armConfigureMmu alloc fuel el bits (regions ++ terminator :: rest) st =
        (.ok .success, st') ∧ ∀ va, st'.walk va = mappedBy el regions va) ↔
      ∀ r ∈ regions, ¬ r.Whole := by
  constructor
  · intro h r hr hwhole
    obtain ⟨st', hrun, -⟩ := h (2 ^ 36 + 1) (Nat.lt_succ_self _)
    exact armConfigureMmu_ne_success hbits.1 hel hfresh (Nat.lt_succ_self _) hregions
      ⟨r, hr, hwhole⟩ (congrArg Prod.fst hrun)
  · intro hwhole fuel hfuel
    exact armConfigureMmu_maps hbits.1 hel hfresh hfuel hterm
      (fun r hr => ⟨hregions r hr, hwhole r hr⟩) (hsucceed fuel)

/-! ### Two runs -/

/-- An allocator with ten pages. -/
def tenPages (k : ℕ) : Option ℕ := if k < 10 then some ((k + 1) * 4096) else none

/-- What the allocator hands out. -/
theorem tenPages_eq_some {k p : ℕ} (h : tenPages k = some p) : k < 10 ∧ p = (k + 1) * 4096 := by
  rw [tenPages] at h
  split at h
  · rename_i hk
    exact ⟨hk, (Option.some.inj h).symm⟩
  · exact absurd h (by simp)

/-- The allocator of ten pages gives out fresh pages. -/
theorem freshAlloc_tenPages : FreshAlloc tenPages where
  pos h := by
    obtain ⟨-, rfl⟩ := tenPages_eq_some h
    omega
  aligned h := by
    obtain ⟨-, rfl⟩ := tenPages_eq_some h
    exact Nat.dvd_mul_left 4096 _
  lt h := by
    obtain ⟨hk, rfl⟩ := tenPages_eq_some h
    omega
  inj h h' := by
    obtain ⟨-, rfl⟩ := tenPages_eq_some h
    obtain ⟨-, heq⟩ := tenPages_eq_some h'
    omega

/-- Zeroed memory before any allocation. -/
def blankState : MmuState := ⟨fun _ => 0, 0, 0, 0⟩

/-- No allocation fails in a run with at most ten of them. -/
theorem not_allocFailed_tenPages (h : st'.allocCalls ≤ 10) :
    ¬ AllocFailed tenPages blankState st' := by
  rintro ⟨k, -, hk, hnone⟩
  rw [tenPages, if_pos (by omega)] at hnone
  exact absurd hnone (by simp)

/-- A terminator row. -/
def zeroRegion : ArmMemoryRegionDescriptor := ⟨0, 0, 0, .writeBack⟩

/-- One page, first as normal memory and then as device memory. -/
def remappedPage : List ArmMemoryRegionDescriptor :=
  [⟨0x80000000, 0x80000000, 0x1000, .writeBack⟩, ⟨0x80000000, 0x80000000, 0x1000, .device⟩]

/-- A run over a table that maps one page twice: the page is device memory. -/
theorem remappedPage_maps : ∃ st',
    armConfigureMmu tenPages (2 ^ 36 + 1) .el1 36 (remappedPage ++ [zeroRegion]) blankState =
      (.ok .success, st') ∧ ∀ va, st'.walk va = mappedBy .el1 remappedPage va := by
  refine (armConfigureMmu_maps_iff (by omega) (by decide) freshAlloc_tenPages ?_ rfl ?_).mpr
    (by decide) _ (Nat.lt_succ_self _)
  · intro fuel
    refine not_allocFailed_tenPages ?_
    cases fuel with
    | zero => decide +kernel
    | succ fuel =>
        have hcalls : (armConfigureMmu tenPages (fuel + 1) .el1 36
            (remappedPage ++ [zeroRegion]) blankState).2.allocCalls = 3 := rfl
        omega
  · intro r hr
    simp only [remappedPage, List.mem_cons, List.not_mem_nil, or_false] at hr
    rcases hr with rfl | rfl
    · exact ⟨by decide, by decide, by decide, by decide, rfl⟩
    · exact ⟨by decide, by decide, by decide, by decide, rfl⟩

/-- The region that covers the whole 48-bit range. -/
def wholeRange : ArmMemoryRegionDescriptor := ⟨0, 0, 2 ^ 48, .writeBack⟩

/-- The whole 48-bit range is a valid region whose run makes only successful allocations,
and yet the run never returns success: it reaches a shift by an undefined count. -/
theorem wholeRange_not_mapped :
    wholeRange.Mappable (addressWidth 48) ∧ FreshAlloc tenPages ∧
      (∀ fuel, ¬ AllocFailed tenPages blankState
        (armConfigureMmu tenPages fuel .el1 48 [wholeRange, zeroRegion] blankState).2) ∧
      ∀ fuel, (armConfigureMmu tenPages (fuel + 1) .el1 48 [wholeRange, zeroRegion]
        blankState).1 = .error .undefinedShift := by
  refine ⟨⟨by decide, by decide, by decide, by decide, rfl⟩, freshAlloc_tenPages, ?_,
    fun _ => rfl⟩
  intro fuel
  refine not_allocFailed_tenPages ?_
  cases fuel with
  | zero => decide +kernel
  | succ fuel =>
      have hcalls : (armConfigureMmu tenPages (fuel + 1) .el1 48 [wholeRange, zeroRegion]
          blankState).2.allocCalls = 6 := rfl
      omega

end Msm8998
