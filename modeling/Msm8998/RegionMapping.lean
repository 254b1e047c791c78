import Msm8998.BlockEntry

/-!
# Mapping a Region

The specification of `UpdateRegionMapping`. The function rewrites every entry of the
region once, at whatever level the table has it, so its effect on a walk is a relation
between the old and the new translation of each address under its restrictions, given by what
one rewritten entry says (`EntryUpdate`). The run lemma `updateRegionMapping_run` then says that the
whole run has that effect on the addresses of the region and no effect on any other,
that `RegionLength` does not wrap below zero, and that the run ends. A run that is stopped by a
failed allocation has had its effect on the pages before the one that it could not reach.

`FillTranslationTable` is the instance with the entry mask zero: the effect is the
identity mapping with the page attributes of the region (`fillTranslationTable_spec`).
-/

namespace Msm8998

open BitMask

variable {alloc : ℕ → Option ℕ} {cfg : WalkConfig} {secure : Prop} {root : ℕ} {shape : Shape}
  {st st' st'' : MmuState} {attributes mask : ℕ}
  {effect : ℕ → ℕ → Option Translation → Option Translation → Prop}

/-! ### The effect of one entry -/

/-- The word that replaces the entry `w` of the block of `x`. -/
def updatedWord (attributes mask n x w : ℕ) : ℕ := (w &&& mask) ||| leafWord n x attributes

/-- Rewriting leaf entries with these attributes and this mask yields leaf entries, and
relates the translations before and after by `effect`, under the restrictions of the leaf. -/
structure EntryUpdate (secure : Prop) (attributes mask : ℕ)
    (effect : ℕ → ℕ → Option Translation → Option Translation → Prop) : Prop where
  leaf : ∀ {n x w}, n ≤ 2 → x < 2 ^ 48 → LeafOk secure n x w →
    LeafOk secure n x (updatedWord attributes mask n x w)
  effect : ∀ {n x w t}, n ≤ 2 → x < 2 ^ 48 → (secure → t = 0) → LeafOk secure n x w →
    effect (t &&& restrictionMask) x (translate x ⟨n, w, t⟩)
      (translate x ⟨n, updatedWord attributes mask n x w, t⟩)

/-- What a run that rewrites the addresses from `lo` up to `hi` does to the walk. The restrictions
stay as they are. -/
structure Updated (cfg : WalkConfig) (root : ℕ)
    (effect : ℕ → ℕ → Option Translation → Option Translation → Prop) (lo hi : ℕ)
    (st st' : MmuState) : Prop where
  inside : ∀ y, lo ≤ y → y < hi → effect (restrictions cfg st.memory root y) y
    (walk cfg st.memory root y) (walk cfg st'.memory root y)
  outside : ∀ y, ¬ (lo ≤ y ∧ y < hi) → walk cfg st'.memory root y = walk cfg st.memory root y
  restrictions_eq : ∀ y,
    restrictions cfg st'.memory root y = restrictions cfg st.memory root y
  tcr_eq : st'.tcr = st.tcr
  ttbr0_eq : st'.ttbr0 = st.ttbr0
  calls_le : st.allocCalls ≤ st'.allocCalls

/-- A refinement of the table before an update does not show. -/
theorem Updated.of_refined {lo hi : ℕ} (h : Refined cfg root st st')
    (h' : Updated cfg root effect lo hi st' st'') : Updated cfg root effect lo hi st st'' where
  inside y hlo hhi := by
    rw [← h.restrictions_eq y, ← h.walk_eq y]
    exact h'.inside y hlo hhi
  outside y hy := (h'.outside y hy).trans (h.walk_eq y)
  restrictions_eq y := (h'.restrictions_eq y).trans (h.restrictions_eq y)
  tcr_eq := h'.tcr_eq.trans h.tcr_eq
  ttbr0_eq := h'.ttbr0_eq.trans h.ttbr0_eq
  calls_le := le_trans h.calls_le h'.calls_le

/-- Updates of adjacent spans compose. -/
theorem Updated.append {lo mid hi : ℕ} (hlm : lo ≤ mid) (hmh : mid ≤ hi)
    (h : Updated cfg root effect lo mid st st') (h' : Updated cfg root effect mid hi st' st'') :
    Updated cfg root effect lo hi st st'' where
  inside y hlo hhi := by
    by_cases hy : y < mid
    · rw [h'.outside y (by omega)]
      exact h.inside y hlo hy
    · rw [← h.outside y (by omega), ← h.restrictions_eq y]
      exact h'.inside y (by omega) hhi
  outside y hy := by rw [h'.outside y (by omega), h.outside y (by omega)]
  restrictions_eq y := (h'.restrictions_eq y).trans (h.restrictions_eq y)
  tcr_eq := h'.tcr_eq.trans h.tcr_eq
  ttbr0_eq := h'.ttbr0_eq.trans h.ttbr0_eq
  calls_le := le_trans h.calls_le h'.calls_le

/-- The block of an aligned address. -/
theorem block_iff {n x y : ℕ} (hdvd : blockSize n ∣ x) :
    (x ≤ y ∧ y < x + blockSize n) ↔ y / blockSize n = x / blockSize n := by
  obtain ⟨q, rfl⟩ := hdvd
  have hpos := blockSize_pos n
  rw [Nat.mul_div_cancel_left _ hpos, Nat.div_eq_iff hpos, Nat.mul_comm q]
  omega

/-- The words that the source stores into an entry, in two steps, for an aligned region
start. -/
theorem write_write_eq {n x entry : ℕ} (hx : x < 2 ^ 48) (hdvd : blockSize n ∣ x) :
    (st.write entry (st.memory entry &&& mask)).write entry
        ((st.write entry (st.memory entry &&& mask)).memory entry |||
          ((x &&& ttAddressMaskBlockEntry) ||| attributes ||| leafType n)) =
      st.write entry (updatedWord attributes mask n x (st.memory entry)) := by
  have haddr : x &&& ttAddressMaskBlockEntry = x / blockSize n * blockSize n := by
    rw [Nat.div_mul_cancel hdvd]
    exact (within_addressMask (dvd_trans (page_dvd_blockSize n) hdvd) hx).eq
  rw [haddr]
  simp only [MmuState.write, updatedWord, leafWord, if_true]
  congr 1
  funext a
  split <;> rfl

/-- **Rewriting one leaf entry** of the table keeps the table invariant and has the effect
of the entry on its block. -/
theorem write_spec (hcfg : cfg.Ok) (hupd : EntryUpdate secure attributes mask effect)
    (hinv : TableInv alloc cfg secure root shape st) {n x b : ℕ} (hn : n ≤ 2)
    (hx : x < 2 ^ cfg.width) (hdvd : blockSize n ∣ x)
    (hb : shape n (x / blockSize (n + 1)) = some b) (hslot : IsLeafSlot shape n x)
    (hend : x + blockSize n ≤ 2 ^ cfg.width) :
    TableInv alloc cfg secure root shape (st.write (entryAddress b n x)
        (updatedWord attributes mask n x (st.memory (entryAddress b n x)))) ∧
      Updated cfg root effect x (x + blockSize n) st (st.write (entryAddress b n x)
        (updatedWord attributes mask n x (st.memory (entryAddress b n x)))) := by
  have hshaped := hinv.wellShaped
  have hwidth : 2 ^ cfg.width ≤ 2 ^ 48 := Nat.pow_le_pow_right (by omega) hcfg.width_le
  have hleaf := (hshaped.locate_slot hcfg hx hb hslot).1
  have hw := hupd.leaf hn (lt_of_lt_of_le hx hwidth) hleaf
  have hmem : ∀ a, (st.write (entryAddress b n x)
      (updatedWord attributes mask n x (st.memory (entryAddress b n x)))).memory a =
        if a = entryAddress b n x
        then updatedWord attributes mask n x (st.memory (entryAddress b n x))
        else st.memory a := fun _ => rfl
  refine ⟨⟨hshaped.write_leaf hb hslot hw hmem, hinv.unissued⟩, ?_, ?_, ?_, rfl, rfl, le_rfl⟩
  · intro y hlo hhi
    have hy : y < 2 ^ cfg.width := by omega
    have hq := (block_iff hdvd).mp ⟨hlo, hhi⟩
    obtain ⟨t, ht, hold, hnew⟩ := hshaped.locate_write_leaf hcfg hy hb hslot hw hmem hq
    rw [walk, walk, restrictions, if_pos hy, if_pos hy, if_pos hy, hold, hnew]
    have hword : updatedWord attributes mask n y (st.memory (entryAddress b n x)) =
        updatedWord attributes mask n x (st.memory (entryAddress b n x)) := by
      rw [updatedWord, updatedWord, leafWord_congr hq]
    rw [← hword]
    exact hupd.effect hn (lt_of_lt_of_le hy hwidth) ht (hleaf.congr hq)
  · intro y hout
    have hne : y / blockSize n ≠ x / blockSize n := fun hq => hout ((block_iff hdvd).mpr hq)
    rw [walk, walk]
    by_cases hy : y < 2 ^ cfg.width
    · rw [if_pos hy, if_pos hy, hshaped.locate_write_leaf_of_ne hcfg hy hb hmem hne]
    · rw [if_neg hy, if_neg hy]
  · intro y
    rw [restrictions, restrictions]
    by_cases hy : y < 2 ^ cfg.width
    · rw [if_pos hy, if_pos hy]
      by_cases hq : y / blockSize n = x / blockSize n
      · obtain ⟨t, -, hold, hnew⟩ := hshaped.locate_write_leaf hcfg hy hb hslot hw hmem hq
        rw [hold, hnew]
      · rw [hshaped.locate_write_leaf_of_ne hcfg hy hb hmem hq]
    · rw [if_neg hy, if_neg hy]

/-! ### The inner loop -/

/-- The entry after the one for an address is the entry for the next block, in the
same table, as long as it is not beyond the last entry. -/
theorem next_entry {n x b : ℕ}
    (hlast : entryAddress b n x + 8 ≤ b + 511 * 8) :
    entryAddress b n (x + blockSize n) = entryAddress b n x + 8 ∧
      (x + blockSize n) / blockSize (n + 1) = x / blockSize (n + 1) := by
  have hpos := blockSize_pos n
  have hquot : (x + blockSize n) / blockSize n = x / blockSize n + 1 :=
    Nat.add_div_right x hpos
  rw [entryAddress] at hlast
  rw [entryAddress, entryAddress, div_blockSize_succ, div_blockSize_succ, hquot]
  omega

/-- **The inner loop** rewrites one or more consecutive entries of one table, and stops with
what is left of the region. -/
theorem fillEntries_spec (hcfg : cfg.Ok) (hupd : EntryUpdate secure attributes mask effect)
    {n b : ℕ} {l : BlockEntryList} (hn : n ≤ 2) (hlevel : l.tableLevel = 3 - n)
    (hsize : l.blockEntrySize = blockSize n) (hlast : l.lastBlockEntry ≤ b + 511 * 8) :
    ∀ {fuel x len : ℕ} {st : MmuState}, len < fuel * 4096 →
      TableInv alloc cfg secure root shape st → blockSize n ∣ x → blockSize n ≤ len →
      x + len ≤ 2 ^ cfg.width → shape n (x / blockSize (n + 1)) = some b →
      IsLeafSlot shape n x →
      ∃ k st', k ≤ len ∧ 0 < k ∧ blockSize n ∣ k ∧
        fillEntries attributes mask (leafType n) l fuel (entryAddress b n x) x len st =
          (.ok (x + k, len - k), st') ∧
        TableInv alloc cfg secure root shape st' ∧
        Updated cfg root effect x (x + k) st st' := by
  have hwidth : 2 ^ cfg.width ≤ 2 ^ 48 := Nat.pow_le_pow_right (by omega) hcfg.width_le
  have hpos := blockSize_pos n
  intro fuel
  induction fuel with
  | zero =>
      intro x len st hfuel
      omega
  | succ fuel ih =>
      intro x len st hfuel hinv hdvd hle hend hb hslot
      have hpage : 4096 ≤ blockSize n := Nat.le_of_dvd hpos (page_dvd_blockSize n)
      obtain ⟨hinv', hupdated⟩ :=
        write_spec hcfg hupd hinv hn (by omega) hdvd hb hslot (by omega)
      rw [fillEntries]
      dsimp only
      rw [write_write_eq (by omega) hdvd, hsize, if_neg (not_lt.mpr hle),
        Nat.mod_eq_of_lt (by omega)]
      generalize st.write (entryAddress b n x)
        (updatedWord attributes mask n x (st.memory (entryAddress b n x))) = st₁
        at hinv' hupdated
      have hstop : ∃ k st', k ≤ len ∧ 0 < k ∧ blockSize n ∣ k ∧
          ((.ok (x + blockSize n, len - blockSize n), st₁) :
            Except Halt (ℕ × ℕ) × MmuState) = (.ok (x + k, len - k), st') ∧
          TableInv alloc cfg secure root shape st' ∧
          Updated cfg root effect x (x + k) st st' :=
        ⟨blockSize n, st₁, hle, hpos, dvd_rfl, rfl, hinv', hupdated⟩
      split
      · exact hstop
      rename_i htable
      split
      · -- the next entry is a leaf entry of the same table
        rename_i hnext
        obtain ⟨hentry, hserves⟩ := next_entry (le_trans hnext.2 hlast)
        have hb' : shape n ((x + blockSize n) / blockSize (n + 1)) = some b := by
          rw [hserves]
          exact hb
        have hslot' : IsLeafSlot shape n (x + blockSize n) := by
          rintro m rfl
          rcases hinv'.wellShaped.entry (by omega) hb' with ⟨c, -, htab⟩ | ⟨hnone, -⟩
          · rw [hentry] at htab
            exact absurd ⟨by rw [hlevel]; omega, hnext.2, htab.type⟩ htable
          · exact hnone
        obtain ⟨k, st', hk, hkpos, hkdvd, hrun, hinv'', hupdated'⟩ :=
          @ih (x + blockSize n) (len - blockSize n) st₁ (by omega) hinv'
            ((Nat.dvd_add_right hdvd).mpr dvd_rfl) hnext.1 (by omega) hb' hslot'
        refine ⟨blockSize n + k, st', by omega, by omega,
          (Nat.dvd_add_right dvd_rfl).mpr hkdvd, ?_, hinv'', ?_⟩
        · rw [← hentry, hrun, Nat.add_assoc, Nat.sub_sub]
        · rw [← Nat.add_assoc]
          exact hupdated.append (by omega) (by omega) hupdated'
      · exact hstop

/-! ### The whole run -/

/-- What `UpdateRegionMapping` can return for a valid region: success with the effect on
exactly the region, or a failed allocation. -/
inductive RegionOutcome (alloc : ℕ → Option ℕ) (cfg : WalkConfig) (secure : Prop) (root : ℕ)
    (effect : ℕ → ℕ → Option Translation → Option Translation → Prop) (lo hi : ℕ)
    (st : MmuState) : Except Halt EfiStatus × MmuState → Prop
  | failed {st' : MmuState} (failure : AllocFailed alloc st st') :
      RegionOutcome alloc cfg secure root effect lo hi st (.ok .outOfResources, st')
  | done {st' : MmuState} {shape' : Shape} (inv : TableInv alloc cfg secure root shape' st')
      (updated : Updated cfg root effect lo hi st st') :
      RegionOutcome alloc cfg secure root effect lo hi st (.ok .success, st')

/-- The entry count of a table is at most 512. -/
theorem entryCount_le (cfg : WalkConfig) (st : MmuState) (n : ℕ) : entryCount cfg st n ≤ 512 := by
  rw [entryCount]
  split
  · rw [getRootTranslationTableInfo, Nat.one_shiftLeft, minT0sz, bitsPerLevel]
    exact Nat.pow_le_pow_right (by omega) (Nat.sub_le 9 _)
  · exact le_rfl

/-- What is left behind in either case: a well-shaped table in which the entries of the region
have been rewritten, all of them or those before the page whose table could not be
allocated. -/
inductive RegionRun (alloc : ℕ → Option ℕ) (cfg : WalkConfig) (secure : Prop) (root : ℕ)
    (effect : ℕ → ℕ → Option Translation → Option Translation → Prop) (lo hi : ℕ)
    (st : MmuState) : Except Halt EfiStatus × MmuState → Prop
  | stopped {mid : ℕ} {st' : MmuState} {shape' : Shape} (lo_le : lo ≤ mid) (lt_hi : mid < hi)
      (inv : TableInv alloc cfg secure root shape' st')
      (updated : Updated cfg root effect lo mid st st') (failure : AllocFailed alloc st st') :
      RegionRun alloc cfg secure root effect lo hi st (.ok .outOfResources, st')
  | done {st' : MmuState} {shape' : Shape} (inv : TableInv alloc cfg secure root shape' st')
      (updated : Updated cfg root effect lo hi st st') :
      RegionRun alloc cfg secure root effect lo hi st (.ok .success, st')

/-- How the mapping of a region may end. -/
theorem RegionRun.outcome {lo hi : ℕ} {r : Except Halt EfiStatus × MmuState}
    (h : RegionRun alloc cfg secure root effect lo hi st r) :
    RegionOutcome alloc cfg secure root effect lo hi st r := by
  cases h with
  | stopped lo_le lt_hi inv updated failure => exact .failed failure
  | done inv updated => exact .done inv updated

/-- A refinement of the table rewrites nothing. -/
theorem Refined.updated {lo : ℕ} (h : Refined cfg root st st') :
    Updated cfg root effect lo lo st st' where
  inside y hlo hhi := absurd hlo (by omega)
  outside y _ := h.walk_eq y
  restrictions_eq := h.restrictions_eq
  tcr_eq := h.tcr_eq
  ttbr0_eq := h.ttbr0_eq
  calls_le := h.calls_le

/-- **The outer loop**, by induction on the fuel: each round rewrites at least one page. -/
theorem updateLoop_run (hcfg : cfg.Ok) (hfresh : FreshAlloc alloc)
    (hupd : EntryUpdate secure attributes mask effect) {inner : ℕ} :
    ∀ {fuel x len : ℕ} {shape : Shape} {st : MmuState}, len < fuel * 4096 →
      len < inner * 4096 → TableInv alloc cfg secure root shape st → Configured cfg st →
      4096 ∣ x → 0 < len → 4096 ∣ len → x + len ≤ 2 ^ cfg.width →
      (x = 0 → len < 2 ^ 48) →
      RegionRun alloc cfg secure root effect x (x + len) st
        (updateLoop alloc root attributes mask inner fuel x len st) := by
  intro fuel
  induction fuel with
  | zero =>
      intro x len shape st hfuel
      omega
  | succ fuel ih =>
      intro x len shape st hfuel hinner hinv hconf hx hlen hlenPage hend hzero
      have hentry := getBlockEntryListFromAddress_spec hcfg hfresh hinv hconf
        (show x < 2 ^ cfg.width by omega) hx hlen hlenPage hzero
      rw [updateLoop]
      generalize getBlockEntryListFromAddress alloc root x len st = r at hentry
      cases hentry with
      | failed refined inv failure => exact .stopped le_rfl (by omega) inv refined.updated failure
      | @found n b st₁ shape₁ level aligned fits refined inv table slot =>
          have htype : (if 3 - n ≠ 3 then ttTypeBlockEntry else ttTypeBlockEntryLevel3) =
              leafType n := by
            rw [leafType]
            by_cases h0 : n = 0
            · rw [if_pos h0, if_neg (by omega)]
            · rw [if_neg h0, if_pos (by omega)]
          have hlast : ttLastBlockAddress b (entryCount cfg st n) ≤ b + 511 * 8 := by
            have := entryCount_le cfg st n
            rw [ttLastBlockAddress]
            omega
          obtain ⟨k, st₂, hk, hkpos, hkdvd, hrun, hinv₂, hupdated⟩ :=
            fillEntries_spec hcfg hupd (l := ⟨entryAddress b n x, 3 - n, blockSize n,
              ttLastBlockAddress b (entryCount cfg st n)⟩) level rfl rfl hlast hinner inv
              aligned fits hend table slot
          have hkPage := dvd_trans (page_dvd_blockSize n) hkdvd
          have hall := hupdated.of_refined refined
          dsimp only
          rw [htype, hrun]
          dsimp only
          by_cases hrest : len - k = 0
          · obtain rfl : k = len := by omega
            rw [if_neg (not_not_intro hrest)]
            exact .done hinv₂ hall
          · rw [if_pos hrest]
            have hconf₂ : Configured cfg st₂ := by
              have htcr := hall.tcr_eq
              exact ⟨htcr ▸ hconf.cfg_eq, htcr ▸ hconf.le, htcr ▸ hconf.lt⟩
            have hnext := @ih (x + k) (len - k) shape₁ st₂ (by omega) (by omega) hinv₂ hconf₂
              ((Nat.dvd_add_right hx).mpr hkPage) (by omega) (Nat.dvd_sub hlenPage hkPage)
              (by omega) (by omega)
            rw [show x + k + (len - k) = x + len by omega] at hnext
            generalize updateLoop alloc root attributes mask inner fuel (x + k) (len - k) st₂ = r
              at hnext
            cases hnext with
            | stopped lo_le lt_hi inv updated failure =>
                exact .stopped (by omega) (by omega) inv (hall.append (by omega) lo_le updated)
                  (failure.of_le hall.calls_le)
            | done inv updated => exact .done inv (hall.append (by omega) (by omega) updated)

/-- **`UpdateRegionMapping`** on a well-shaped table, for a region of whole pages in the
range. A fuel above `2 ^ 36`, the number of pages of the range, is never exhausted. -/
theorem updateRegionMapping_run (hcfg : cfg.Ok) (hfresh : FreshAlloc alloc)
    (hupd : EntryUpdate secure attributes mask effect)
    (hinv : TableInv alloc cfg secure root shape st) (hconf : Configured cfg st) {fuel x len : ℕ}
    (hfuel : 2 ^ 36 < fuel) (hx : 4096 ∣ x) (hlen : 0 < len) (hlenPage : 4096 ∣ len)
    (hend : x + len ≤ 2 ^ cfg.width) (hzero : x = 0 → len < 2 ^ 48) :
    RegionRun alloc cfg secure root effect x (x + len) st
      (updateRegionMapping alloc fuel root x len attributes mask st) := by
  have hwidth : 2 ^ cfg.width ≤ 2 ^ 48 := Nat.pow_le_pow_right (by omega) hcfg.width_le
  have hbound : len < fuel * 4096 := by omega
  have hvalid : ¬ (len = 0 ∨ len % 4096 ≠ 0) := by omega
  rw [updateRegionMapping, if_neg hvalid]
  exact updateLoop_run hcfg hfresh hupd hbound hbound hinv hconf hx hlen hlenPage hend hzero

/-- What `UpdateRegionMapping` returns on such a table. -/
theorem updateRegionMapping_spec (hcfg : cfg.Ok) (hfresh : FreshAlloc alloc)
    (hupd : EntryUpdate secure attributes mask effect)
    (hinv : TableInv alloc cfg secure root shape st) (hconf : Configured cfg st) {fuel x len : ℕ}
    (hfuel : 2 ^ 36 < fuel) (hx : 4096 ∣ x) (hlen : 0 < len) (hlenPage : 4096 ∣ len)
    (hend : x + len ≤ 2 ^ cfg.width) (hzero : x = 0 → len < 2 ^ 48) :
    RegionOutcome alloc cfg secure root effect x (x + len) st
      (updateRegionMapping alloc fuel root x len attributes mask st) :=
  (updateRegionMapping_run hcfg hfresh hupd hinv hconf hfuel hx hlen hlenPage hend hzero).outcome

/-- A region of the whole 48-bit range is never mapped. -/
theorem updateRegionMapping_ne_success (hconf : Configured cfg st) {fuel : ℕ} :
    (updateRegionMapping alloc fuel root 0 (2 ^ 48) attributes mask st).1 ≠ .ok .success := by
  have hvalid : ¬ (2 ^ 48 = 0 ∨ 2 ^ 48 % 4096 ≠ 0) := by decide
  rw [updateRegionMapping, if_neg hvalid]
  cases fuel with
  | zero => simp [updateLoop]
  | succ fuel =>
      rw [updateLoop]
      generalize hentry : getBlockEntryListFromAddress alloc root 0 (2 ^ 48) st = r
      obtain ⟨r, st₁⟩ := r
      match r with
      | .error e => simp
      | .ok none => simp
      | .ok (some l) => exact absurd hentry (getBlockEntryListFromAddress_ne_some hconf)

/-! ### `FillTranslationTable` -/

/-- With the entry mask zero, an entry is rewritten to the leaf that maps its block to
itself with the given attributes. -/
theorem entryUpdate_zero (hattrs : Within attributes ttAttributesMask)
    (hns : attributes &&& ttNs = 0) :
    EntryUpdate True attributes 0 fun _ y _ new => new = some ⟨y, attributes⟩ where
  leaf := by
    intro n x w hn hx _
    rw [updatedWord, Nat.and_zero, Nat.zero_or]
    exact leafOk_leafWord hx hn hattrs fun _ => hns
  effect := by
    intro n x w t hn hx ht _
    rw [updatedWord, Nat.and_zero, Nat.zero_or, translate_leafWord hx hn hattrs, ht trivial,
      hierarchical_zero]

/-- A row of the region table that the page table code can be asked to map. -/
structure ArmMemoryRegionDescriptor.Mappable (width : ℕ) (r : ArmMemoryRegionDescriptor) :
    Prop where
  aligned : 4096 ∣ r.virtualBase
  pos : 0 < r.length
  pages : 4096 ∣ r.length
  inRange : r.virtualBase + r.length ≤ 2 ^ width
  identity : r.virtualBase = r.physicalBase

/-- The region is the whole 48-bit range. -/
def ArmMemoryRegionDescriptor.Whole (r : ArmMemoryRegionDescriptor) : Prop :=
  r.virtualBase = 0 ∧ r.length = 2 ^ 48

instance (r : ArmMemoryRegionDescriptor) : Decidable r.Whole :=
  inferInstanceAs (Decidable (_ ∧ _))

/-- **`FillTranslationTable`** maps exactly the addresses of the region, to themselves and
with the page attributes of the region. -/
theorem fillTranslationTable_spec (el : ExceptionLevel) (hcfg : cfg.Ok)
    (hfresh : FreshAlloc alloc) (hinv : TableInv alloc cfg True root shape st)
    (hconf : Configured cfg st) {fuel : ℕ} {r : ArmMemoryRegionDescriptor} (hfuel : 2 ^ 36 < fuel)
    (hr : r.Mappable cfg.width) (hwhole : ¬ r.Whole) :
    RegionOutcome alloc cfg True root
      (fun _ y _ new => new = some ⟨y, pageAttributes el r.attributes⟩)
      r.virtualBase (r.virtualBase + r.length) st
      (fillTranslationTable alloc fuel el root r st) := by
  have hwidth : 2 ^ cfg.width ≤ 2 ^ 48 := Nat.pow_le_pow_right (by omega) hcfg.width_le
  have hzero : r.virtualBase = 0 → r.length < 2 ^ 48 := by
    intro h0
    have hne : r.length ≠ 2 ^ 48 := fun h => hwhole ⟨h0, h⟩
    have := hr.inRange
    omega
  exact updateRegionMapping_spec hcfg hfresh
    (entryUpdate_zero (pageAttributes_within el r.attributes)
      (pageAttributes_and_ttNs el r.attributes))
    hinv hconf hfuel hr.aligned hr.pos hr.pages hr.inRange hzero

end Msm8998
