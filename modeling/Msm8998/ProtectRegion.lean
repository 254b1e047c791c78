import Msm8998.MemoryAttributes

/-!
# Protecting and Unprotecting a Region

`ArmMmuLib` can make a region read-only or not executable, and take that back. This module
says what the two calls do to a region of normal memory in a table that `ArmConfigureMmu` has
set up.

The attributes of such a region have no permission bits. What is left of a protection that was
set and cleared again are therefore the bits that clearing it sets. For execute-never there are
none. For read-only there are: `ArmClearMemoryRegionReadOnly` sets `TT_AP_RW_RW`, which also
gives access to EL0, where `FillTranslationTable` and `ArmSetMemoryAttributes` leave
`TT_AP_NO_RW`.

## Main results

* `Protection.walk_clear_set`: the table after a protection was set and cleared;
* `restores_iff`: the protection for which it is the table as before.
-/

namespace Msm8998

open BitMask

/-- A protection that the library can set and clear. -/
inductive Protection
  | readOnly
  | noExec
deriving DecidableEq

namespace Protection

/-- The call that sets a protection. -/
def setCall : Protection → PermissionCall
  | readOnly => .setMemoryRegionReadOnly
  | noExec => .setMemoryRegionNoExec

/-- The call that clears it. -/
def clearCall : Protection → PermissionCall
  | readOnly => .clearMemoryRegionReadOnly
  | noExec => .clearMemoryRegionNoExec

variable {el : ExceptionLevel} {p : Protection} {a : ℕ}

/-- Setting a protection takes no bit away. -/
theorem cleared_setCall : p.setCall.cleared = 0 := by
  cases p with
  | readOnly => rfl
  | noExec => rfl

/-- The bits of a protection are among those that clearing it takes away. -/
theorem assigned_setCall_within : Within (p.setCall.assigned el) p.clearCall.cleared := by
  cases p with
  | readOnly =>
      change Within ttApRoRo ttApMask
      decide
  | noExec => cases el <;> decide

/-- Attributes without permissions keep only the bits that clearing the protection sets. -/
theorem apply_clear_set (ha : a < 2 ^ 64) (hnone : a &&& permissionMask = 0) :
    p.clearCall.apply el (p.setCall.apply el a) = a ||| p.clearCall.assigned el := by
  have hdisjoint : a &&& p.clearCall.cleared = 0 := by
    rw [Nat.and_comm]
    exact p.clearCall.cleared_within.and_eq_zero ((Nat.and_comm _ _).trans hnone)
  rw [PermissionCall.apply, PermissionCall.apply, cleared_setCall,
    update_undo ha p.clearCall.cleared_lt (p.clearCall.assigned_lt el) assigned_setCall_within
      hdisjoint]

/-- Clearing execute-never sets no bit, and clearing read-only does. -/
theorem assigned_clearCall_eq_zero_iff (el : ExceptionLevel) :
    p.clearCall.assigned el = 0 ↔ p = .noExec := by
  cases p with
  | readOnly => exact iff_of_false (by change ¬ ttApRwRw = 0; decide) (by decide)
  | noExec => exact iff_of_true rfl rfl

end Protection

/-! ### Normal memory -/

/-- The memory type of a translation is not device memory. -/
def Translation.Normal (tr : Translation) : Prop :=
  tr.attributes &&& ttAttrIndxMask ≠ ttAttrIndxDeviceMemory

/-- The page attributes of normal memory have no permission bits. -/
theorem pageAttributes_permissions (el : ExceptionLevel) {a : ArmMemoryRegionAttributes}
    (hnormal : pageAttributes el a &&& ttAttrIndxMask ≠ ttAttrIndxDeviceMemory) :
    pageAttributes el a &&& permissionMask = 0 := by
  cases a with
  | device | nonsecureDevice =>
      refine absurd ?_ hnormal
      cases el <;> decide
  | _ => cases el <;> rfl

/-- A region that maps normal memory has no permission bits. -/
theorem mappedBy_permissions {el : ExceptionLevel} {regions : List ArmMemoryRegionDescriptor}
    {va : ℕ} {tr : Translation} (htr : mappedBy el regions va = some tr) (hnormal : tr.Normal) :
    tr.attributes &&& permissionMask = 0 := by
  obtain ⟨r, -, rfl⟩ := Option.map_eq_some_iff.mp htr
  exact pageAttributes_permissions el hnormal

/-- The walk only maps addresses of the range. -/
theorem lt_of_walk {cfg : WalkConfig} {memory : ℕ → ℕ} {root x : ℕ} {tr : Translation}
    (h : walk cfg memory root x = some tr) : x < 2 ^ cfg.width := by
  by_contra hx
  rw [walk, if_neg hx] at h
  exact absurd h (by simp)

/-! ### A protection that is set and cleared -/

/-- The region is mapped as normal memory. -/
def MapsNormal (st : MmuState) (baseAddress length : ℕ) : Prop :=
  ∀ va, baseAddress ≤ va → va < baseAddress + length → ∃ tr, st.walk va = some tr ∧ tr.Normal

section Run

variable {alloc : ℕ → Option ℕ} {fuel baseAddress length : ℕ} {st st₁ st₂ : MmuState}
  {el : ExceptionLevel} {p : Protection}

/-- A mapped region of whole pages lies in the range. -/
theorem MapsNormal.end_le (h : MapsNormal st baseAddress length) (hpos : 0 < length) :
    baseAddress + length ≤ 2 ^ st.config.width := by
  obtain ⟨tr, htr, -⟩ := h (baseAddress + length - 1) (by omega) (by omega)
  have hlt : _ < 2 ^ st.config.width := lt_of_walk htr
  omega

/-- **Set and clear.** In a table without restrictions by table descriptors, every address of
a region without permissions has the bits set that clearing the protection sets, and all other
addresses are as before. -/
theorem Protection.walk_clear_set (hfresh : FreshAlloc alloc) (hwf : WellFormed alloc True st)
    (hfuel : 2 ^ 36 < fuel) (hbase : 4096 ∣ baseAddress)
    (hend : baseAddress + length ≤ 2 ^ st.config.width)
    (hset : p.setCall.run alloc fuel el baseAddress length st = (.ok .success, st₁))
    (hclear : p.clearCall.run alloc fuel el baseAddress length st₁ = (.ok .success, st₂)) :
    (∀ va, ¬ (baseAddress ≤ va ∧ va < baseAddress + length) → st₂.walk va = st.walk va) ∧
      ∀ va tr, baseAddress ≤ va → va < baseAddress + length → st.walk va = some tr →
        tr.attributes &&& permissionMask = 0 →
        st₂.walk va = some ⟨tr.outputAddress, tr.attributes ||| p.clearCall.assigned el⟩ := by
  obtain ⟨hwf₁, hconfig, honly₁⟩ :=
    PermissionCall.run_spec hfresh hwf hfuel hbase hend hset
  obtain ⟨-, -, honly₂⟩ :=
    PermissionCall.run_spec hfresh hwf₁ hfuel hbase (hconfig ▸ hend) hclear
  refine ⟨fun va hva => (honly₂.outside va hva).trans (honly₁.outside va hva),
    fun va tr hlo hhi htr hnone => ?_⟩
  obtain ⟨tr₁, htr₁, haddr₁, -, hattrs₁⟩ := honly₁.inside va tr hlo hhi htr
  obtain ⟨tr₂, htr₂, haddr₂, -, hattrs₂⟩ := honly₂.inside va tr₁ hlo hhi htr₁
  rw [hwf.restrictions_eq_zero trivial, hierarchical_zero] at hattrs₁
  rw [hwf₁.restrictions_eq_zero trivial, hierarchical_zero, hattrs₁,
    apply_clear_set (walk_attributes_lt htr) hnone] at hattrs₂
  rw [htr₂, ← hattrs₂, ← haddr₁, ← haddr₂]

end Run

/-- **A protection that is set and cleared** on a region of normal memory, in a table from
`ArmConfigureMmu` at EL1 or EL2, leaves the translation and all attributes of every address as
they were exactly when it is execute-never. -/
theorem restores_iff {alloc : ℕ → Option ℕ} {fuel bits baseAddress length : ℕ}
    {el : ExceptionLevel} {regions rest : List ArmMemoryRegionDescriptor}
    {terminator : ArmMemoryRegionDescriptor} {st₀ st st₁ st₂ : MmuState} {p : Protection}
    (hbits : 32 ≤ bits) (hel : el ≠ .el3) (hfresh : FreshAlloc alloc) (hfuel : 2 ^ 36 < fuel)
    (hterm : terminator.length = 0) (hregions : ∀ r ∈ regions, r.Mappable (addressWidth bits))
    (hconfigure : armConfigureMmu alloc fuel el bits (regions ++ terminator :: rest) st₀ =
      (.ok .success, st))
    (hbase : 4096 ∣ baseAddress) (hnormal : MapsNormal st baseAddress length)
    (hset : p.setCall.run alloc fuel el baseAddress length st = (.ok .success, st₁))
    (hclear : p.clearCall.run alloc fuel el baseAddress length st₁ = (.ok .success, st₂)) :
    (∀ va, st₂.walk va = st.walk va) ↔ p = .noExec := by
  obtain ⟨hwf, -, hmapped⟩ :=
    armConfigureMmu_wellFormed hbits hel hfresh hfuel hterm hregions hconfigure
  obtain ⟨hpos, -⟩ := PermissionCall.length_of_success hset
  obtain ⟨houtside, hinside⟩ :=
    Protection.walk_clear_set hfresh hwf hfuel hbase (hnormal.end_le hpos) hset hclear
  rw [← Protection.assigned_clearCall_eq_zero_iff el]
  constructor
  · intro hrestored
    obtain ⟨tr, htr, hty⟩ := hnormal baseAddress le_rfl (by omega)
    have hnone := mappedBy_permissions ((hmapped _).symm.trans htr) hty
    have hafter := hinside baseAddress tr le_rfl (by omega) htr hnone
    rw [hrestored, htr] at hafter
    -- the first page has no permissions, so what clearing sets must not show on it
    have hattrs : tr.attributes = tr.attributes ||| p.clearCall.assigned el :=
      congrArg Translation.attributes (Option.some.inj hafter)
    have hwithin := (p.clearCall.assigned_within el).eq
    rw [hattrs, Nat.and_or_distrib_right, Nat.or_eq_zero_iff, hwithin] at hnone
    exact hnone.2
  · intro hzero va
    by_cases hva : baseAddress ≤ va ∧ va < baseAddress + length
    · obtain ⟨tr, htr, hty⟩ := hnormal va hva.1 hva.2
      have hnone := mappedBy_permissions ((hmapped _).symm.trans htr) hty
      rw [hinside va tr hva.1 hva.2 htr hnone, htr, hzero, Nat.or_zero]
    · exact houtside va hva

/-- The second page of a block of normal memory. -/
theorem mapsNormal_ramState : MapsNormal ramState 0x80001000 0x1000 := by
  intro va hlo hhi
  have hmapped := (armConfigureMmu_wellFormed (by decide) (by decide) freshAlloc_tenPages
    (Nat.lt_succ_self _) rfl ramBlock_mappable ramState_success).2.2 va
  have hmem : ramBlock.virtualBase ≤ va ∧ va < ramBlock.virtualBase + ramBlock.length := by
    change 0x80000000 ≤ va ∧ va < 0x80000000 + 0x200000
    omega
  rw [← List.nil_append [ramBlock], mappedBy_concat, if_pos hmem] at hmapped
  refine ⟨_, hmapped, ?_⟩
  change ¬ pageAttributes .el1 .writeBack &&& ttAttrIndxMask = ttAttrIndxDeviceMemory
  decide

/-- The page is made not executable and executable again. -/
theorem restores_noExec_page :
    (armClearMemoryRegionNoExec tenPages (2 ^ 36 + 1) 0x80001000 0x1000
      (armSetMemoryRegionNoExec tenPages (2 ^ 36 + 1) .el1 0x80001000 0x1000 ramState).2).2.walk =
      ramState.walk :=
  funext ((restores_iff (p := .noExec) (by decide) (by decide) freshAlloc_tenPages
    (Nat.lt_succ_self _) rfl ramBlock_mappable ramState_success (by decide) mapsNormal_ramState
    rfl rfl).mpr rfl)

/-- The table with the page read-only. -/
def readOnlyState : MmuState :=
  (armSetMemoryRegionReadOnly tenPages (2 ^ 36 + 1) 0x80001000 0x1000 ramState).2

/-- The table with the page writable again. -/
def writableState : MmuState :=
  (armClearMemoryRegionReadOnly tenPages (2 ^ 36 + 1) 0x80001000 0x1000 readOnlyState).2

/-- The page is made read-only and writable again, and its attributes are not what they were:
EL0 has access to it now. -/
theorem not_restores_readOnly_page :
    MapsNormal ramState 0x80001000 0x1000 ∧
      armSetMemoryRegionReadOnly tenPages (2 ^ 36 + 1) 0x80001000 0x1000 ramState =
        (.ok .success, readOnlyState) ∧
      armClearMemoryRegionReadOnly tenPages (2 ^ 36 + 1) 0x80001000 0x1000 readOnlyState =
        (.ok .success, writableState) ∧
      (ramState.walk 0x80001000).map Translation.attributes =
        some (pageAttributes .el1 .writeBack) ∧
      (writableState.walk 0x80001000).map Translation.attributes =
        some (pageAttributes .el1 .writeBack ||| ttApRwRw) ∧
      writableState.walk 0x80001000 ≠ ramState.walk 0x80001000 := by
  have hbefore : (ramState.walk 0x80001000).map Translation.attributes =
    some (pageAttributes .el1 .writeBack) := rfl
  have hafter : (writableState.walk 0x80001000).map Translation.attributes =
    some (pageAttributes .el1 .writeBack ||| ttApRwRw) := rfl
  have hbit : pageAttributes .el1 .writeBack ≠ pageAttributes .el1 .writeBack ||| ttApRwRw := by
    decide
  refine ⟨mapsNormal_ramState, rfl, rfl, hbefore, hafter, fun hrestored => ?_⟩
  rw [hrestored, hbefore] at hafter
  exact hbit (Option.some.inj hafter)

end Msm8998
