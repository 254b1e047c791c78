import Msm8998.ConfigureMmu

/-!
# Refining the Live Table

`GetBlockEntryListFromAddress` refines the table that the registers select. This module states
what a request is to keep: it returns, the walk of every address is the one from before, and an
entry that is handed out is the one that translates the start of the region, in a table whose
last entry is handed out with it.

There is one request that does not keep this. For a region that starts at zero and is `2 ^ 48`
bytes long the page level wraps below zero, so the source goes on below the last level of the
architecture: it allocates a table there and overwrites the entry of the first page.

## Main results

* `armConfigureMmu_wellFormed`: the table of a run of `ArmConfigureMmu` that succeeds;
* `keepsMeaning_of_spec`: every other request keeps the meaning of the table;
* `keepsMeaning_iff`: when exactly a request keeps it.
-/

namespace Msm8998

/-- The configuration of the walk that the registers of a state select. -/
def MmuState.config (st : MmuState) : WalkConfig :=
  WalkConfig.ofT0sz (st.tcr &&& tcrT0szMask)

/-- The registers select a well-shaped, identity mapped table, with a `T0SZ` that
`ArmConfigureMmu` can have set, and none of its pages is still to be allocated. -/
structure WellFormed (alloc : ℕ → Option ℕ) (secure : Prop) (st : MmuState) : Prop where
  le_t0sz : 16 ≤ st.tcr &&& tcrT0szMask
  t0sz_lt : st.tcr &&& tcrT0szMask < 34
  table : ∃ shape, TableInv alloc st.config secure st.ttbr0 shape st

variable {alloc : ℕ → Option ℕ} {secure : Prop} {cfg : WalkConfig} {root rs size : ℕ}
  {st st' : MmuState} {shape : Shape}

/-- The configuration of a well-formed state is a valid one. -/
theorem WellFormed.configOk (h : WellFormed alloc secure st) : st.config.Ok :=
  ofT0sz_ok h.le_t0sz h.t0sz_lt

/-- A well-formed state is configured as its registers say. -/
theorem WellFormed.configured (h : WellFormed alloc secure st) : Configured st.config st :=
  ⟨rfl, h.le_t0sz, h.t0sz_lt⟩

/-- A walk of the state is one through its memory from its root table. -/
theorem MmuState.walk_eq (st : MmuState) (va : ℕ) :
    st.walk va = Msm8998.walk st.config st.memory st.ttbr0 va := rfl

/-- **`ArmConfigureMmu` leaves a well-formed table** when it succeeds, and the table maps every
address by the last region that covers it. -/
theorem armConfigureMmu_wellFormed {el : ExceptionLevel} {fuel bits : ℕ}
    {regions rest : List ArmMemoryRegionDescriptor} {terminator : ArmMemoryRegionDescriptor}
    (hbits : 32 ≤ bits) (hel : el ≠ .el3) (hfresh : FreshAlloc alloc) (hfuel : 2 ^ 36 < fuel)
    (hterm : terminator.length = 0) (hregions : ∀ r ∈ regions, r.Mappable (addressWidth bits))
    (h : armConfigureMmu alloc fuel el bits (regions ++ terminator :: rest) st =
      (.ok .success, st')) :
    WellFormed alloc True st' ∧ st'.config = configOf bits ∧
      ∀ va, st'.walk va = mappedBy el regions va := by
  have hwhole : ∀ r ∈ regions, ¬ r.Whole := fun r hr hwhole =>
    armConfigureMmu_ne_success hbits hel hfresh hfuel hregions ⟨r, hr, hwhole⟩
      (congrArg Prod.fst h)
  obtain ⟨tcr, hmask, heq⟩ := armConfigureMmu_eq alloc fuel
    (regions ++ terminator :: rest) st hbits hel
  rw [heq] at h
  cases hpage : alloc st.allocCalls with
  | none =>
      rw [hpage] at h
      exact absurd (congrArg Prod.fst h) (by simp)
  | some page =>
      rw [hpage] at h
      dsimp only at h
      obtain ⟨hinv, hconf, hnone⟩ := configuredState_spec hfresh hbits hmask hpage
      have hok : ∀ r ∈ regions, r.Mappable (configOf bits).width ∧ ¬ r.Whole :=
        fun r hr => ⟨configOf_width bits ▸ hregions r hr, hwhole r hr⟩
      obtain ⟨shape', hinv'⟩ :=
        configureLoop_tableInv (configOf_ok hbits) hfresh hfuel hterm hok hinv hconf h
      have hrun : TableOutcome alloc (configOf bits) page (mappedBy el ([] ++ regions))
          (configuredState st tcr page bits)
          (configureLoop alloc fuel el page (regions ++ terminator :: rest)
            (configuredState st tcr page bits)) :=
        configureLoop_spec (configOf_ok hbits) hfresh hfuel hterm hok hinv hconf hnone
      rw [h] at hrun
      cases hrun with
      | done continues walk_eq =>
          have hconfig : st'.config = configOf bits := (hconf.continues continues).cfg_eq
          have httbr0 : st'.ttbr0 = page := continues.ttbr0_eq
          refine ⟨⟨(hconf.continues continues).le, (hconf.continues continues).lt, shape', ?_⟩,
            hconfig, fun va => ?_⟩
          · rw [hconfig, httbr0]
            exact hinv'
          · rw [st'.walk_eq, hconfig, httbr0]
            exact walk_eq va

/-! ### Where a walk ends -/

/-- Where the walk of `x` ends: the number of levels below the table of its leaf, and the
table. -/
def findSlot (memory : ℕ → ℕ) (x : ℕ) : ℕ → ℕ → ℕ × ℕ
  | 0, base => (0, base)
  | n + 1, base =>
      let w := memory (entryAddress base (n + 1) x)
      if w &&& ttTypeMask = ttTypeTableEntry then
        findSlot memory x n (w &&& ttAddressMaskDescriptionTable)
      else (n + 1, base)

/-- The leaf of an address is the word in the entry where its walk ends. -/
theorem locate_eq_findSlot (memory : ℕ → ℕ) (x n base attrs : ℕ) :
    ∃ t, locate memory x n base attrs =
      ⟨(findSlot memory x n base).1,
        memory (entryAddress (findSlot memory x n base).2 (findSlot memory x n base).1 x), t⟩ := by
  induction n generalizing base attrs with
  | zero => exact ⟨attrs, rfl⟩
  | succ n ih =>
      rw [locate, findSlot]
      split
      · exact ih _ _
      · exact ⟨attrs, rfl⟩

/-- The walk of the live table for an address ends here. -/
def MmuState.slot (st : MmuState) (va : ℕ) : ℕ × ℕ :=
  findSlot st.memory va st.config.rootBelow st.ttbr0

/-- The walk reads the word of the entry where it ends. -/
theorem MmuState.walk_slot (st : MmuState) {va : ℕ} (hva : va < 2 ^ st.config.width) :
    ∃ t, st.walk va = translate va ⟨(st.slot va).1,
      st.memory (entryAddress (st.slot va).2 (st.slot va).1 va), t⟩ := by
  obtain ⟨t, ht⟩ := locate_eq_findSlot st.memory va st.config.rootBelow st.ttbr0 0
  exact ⟨t, by rw [st.walk_eq, Msm8998.walk, if_pos hva, ht]; rfl⟩

/-- A walk that ends in a table ends at a leaf entry of it. -/
theorem findSlot_leaf {memory : ℕ → ℕ} {x n base : ℕ}
    (h : n = 0 ∨ memory (entryAddress base n x) &&& ttTypeMask ≠ ttTypeTableEntry) :
    findSlot memory x n base = (n, base) := by
  cases n with
  | zero => rfl
  | succ n =>
      rcases h with h | h
      · exact absurd h (Nat.succ_ne_zero n)
      · rw [findSlot, if_neg h]

/-- The walk of an address passes through every table that serves it. -/
theorem WellShaped.findSlot_reach (h : WellShaped cfg secure st.memory root shape)
    (hcfg : cfg.Ok) {x : ℕ} (hx : x < 2 ^ cfg.width) :
    ∀ {k n b : ℕ}, n + k = cfg.rootBelow → shape n (x / blockSize (n + 1)) = some b →
      findSlot st.memory x cfg.rootBelow root = findSlot st.memory x n b := by
  intro k
  induction k with
  | zero =>
      intro n b hn hb
      obtain rfl : n = cfg.rootBelow := hn
      rw [div_root_eq_zero hcfg hx, h.root_eq] at hb
      obtain rfl : root = b := Option.some.inj hb
      rfl
  | succ k ih =>
      intro n b hn hb
      obtain ⟨pb, hpb⟩ := h.parent hx hb (by omega)
      rw [ih (n := n + 1) (by omega) hpb]
      rcases h.entry hx hpb with ⟨c, hc, htab⟩ | ⟨hnone, -⟩
      · obtain rfl : c = b := Option.some.inj (hc.symm.trans hb)
        rw [findSlot, if_pos htab.type, htab.address]
      · rw [hb] at hnone
        exact absurd hnone (by simp)

/-- The walk of an address ends at the leaf entry that serves it. -/
theorem WellShaped.findSlot_eq (h : WellShaped cfg secure st.memory root shape)
    (hcfg : cfg.Ok) {x n b : ℕ} (hx : x < 2 ^ cfg.width)
    (hb : shape n (x / blockSize (n + 1)) = some b) (hslot : IsLeafSlot shape n x) :
    findSlot st.memory x cfg.rootBelow root = (n, b) := by
  have hbelow := h.below_le hb
  rw [h.findSlot_reach hcfg hx (k := cfg.rootBelow - n) (by omega) hb]
  exact findSlot_leaf (h.locate_slot hcfg hx hb hslot).1.not_table

/-! ### What a request is to keep -/

/-- The number of entries of a table that the range needs. -/
def tableEntries (cfg : WalkConfig) (n : ℕ) : ℕ :=
  if n = cfg.rootBelow then 2 ^ cfg.width / blockSize n else 512

/-- The entry of the live table where the walk of `rs` ends, with `n` levels below its table,
and its block: the block starts at `rs` and is not larger than what was asked for, and the last
entry is the one of that table. -/
structure EntryOf (st : MmuState) (rs size : ℕ) (l : BlockEntryList) (n table : ℕ) : Prop where
  slot : st.slot rs = (n, table)
  level : l.tableLevel + n = 3
  entry : l.blockEntry = entryAddress table n rs
  block : l.blockEntrySize = blockSize n
  aligned : l.blockEntrySize ∣ rs
  fits : l.blockEntrySize ≤ size
  last : l.lastBlockEntry = table + (tableEntries st.config n - 1) * 8

/-- **The request keeps the meaning of the table**: it returns, every address is translated as
before, and an entry that it returns is the one of the start of the region. -/
structure KeepsMeaning (st : MmuState) (rs size : ℕ)
    (r : Except Halt (Option BlockEntryList) × MmuState) : Prop where
  returns : ∃ l, r.1 = .ok l
  walk_eq : ∀ va, r.2.walk va = st.walk va
  entry : ∀ l, r.1 = .ok (some l) → ∃ n table, EntryOf r.2 rs size l n table

/-- The number of entries that the source computes for a table. -/
theorem entryCount_eq (hconf : Configured cfg st) (n : ℕ) :
    entryCount cfg st n = tableEntries cfg n := by
  rw [entryCount, tableEntries]
  split
  · next hroot =>
      have hle := hconf.le
      have hlt := hconf.lt
      obtain ⟨q, r, hqr, hr, hq⟩ : ∃ q r, (st.tcr &&& tcrT0szMask) - 16 = 9 * q + r ∧ r < 9 ∧
          q ≤ 1 :=
        ⟨((st.tcr &&& tcrT0szMask) - 16) / 9, ((st.tcr &&& tcrT0szMask) - 16) % 9, by omega,
          by omega, by omega⟩
      have hbelow : n = 3 - q := by
        rw [hroot, ← hconf.cfg_eq, WalkConfig.ofT0sz]
        dsimp only
        omega
      have hwidth : cfg.width = 64 - (st.tcr &&& tcrT0szMask) := by
        rw [← hconf.cfg_eq, WalkConfig.ofT0sz]
      have hexp : 64 - (st.tcr &&& tcrT0szMask) - (12 + 9 * n) = 9 - r := by omega
      rw [getRootTranslationTableInfo, minT0sz, bitsPerLevel, sub64_eq hle (by omega),
        Nat.one_shiftLeft, hqr, Nat.mul_add_mod, Nat.mod_eq_of_lt hr, blockSize, hwidth,
        Nat.pow_div (by omega) (by omega), hexp]
  · rfl

/-- A refinement does not show in the walk of the live table. -/
theorem Refined.live (h : Refined st.config st.ttbr0 st st') (va : ℕ) :
    st'.walk va = st.walk va := by
  rw [st'.walk_eq, MmuState.config, h.tcr_eq, h.ttbr0_eq]
  exact h.walk_eq va

/-- A request that is refused after a refinement keeps the meaning of the table. -/
theorem keepsMeaning_none (h : Refined st.config st.ttbr0 st st') :
    KeepsMeaning st rs size (.ok none, st') where
  returns := ⟨none, rfl⟩
  walk_eq := h.live
  entry _ hl := absurd hl nofun

/-- A request that meets the specification keeps the meaning of the table. -/
theorem keepsMeaning_of_spec (hwf : WellFormed alloc secure st) (hrs : rs < 2 ^ st.config.width)
    {r : Except Halt (Option BlockEntryList) × MmuState}
    (h : EntryOutcome alloc st.config secure st.ttbr0 rs size st r) :
    KeepsMeaning st rs size r := by
  cases h with
  | failed refined inv failure => exact keepsMeaning_none refined
  | @found n b st' shape' level aligned fits refined inv table slot =>
      refine ⟨⟨_, rfl⟩, refined.live, fun l hl => ?_⟩
      cases hl
      have hconfig : st'.config = st.config := by
        rw [MmuState.config, MmuState.config, refined.tcr_eq]
      refine ⟨n, b, ?_, by dsimp only; omega, rfl, rfl, aligned, fits, ?_⟩
      · rw [MmuState.slot, hconfig, refined.ttbr0_eq]
        exact inv.wellShaped.findSlot_eq hwf.configOk hrs table slot
      · rw [hconfig, ← entryCount_eq hwf.configured]
        rfl

/-! ### The descent with a page level below the last level -/

section Step

variable {n p b e c page : ℕ}

/-- Above the page level a table entry is followed. -/
theorem blockEntryStep_table (hinv : TableInv alloc cfg secure root shape st) (hcfg : cfg.Ok)
    (hp : 3 < p) (hb : shape (n + 1) (rs / blockSize (n + 1 + 1)) = some b)
    (htab : TableOk secure (st.memory (entryAddress b (n + 1) rs)) c) :
    blockEntryStep alloc rs ⟨3 - (n + 1), p, b, e⟩ st =
      (.ok (some ⟨3 - n, p, c, entryAddress b (n + 1) rs⟩), st) := by
  have hn : n + 1 ≤ 3 := le_trans (hinv.wellShaped.below_le hb) hcfg.le_three
  have hoff : ttAddressOffsetAtLevel (3 - (n + 1)) = 12 + 9 * (n + 1) :=
    ttAddressOffsetAtLevel_eq (by omega)
  rw [blockEntryStep]
  simp only [hoff, ttGetEntryForAddress_eq_entryAddress]
  rw [if_neg (by omega), if_pos ⟨by omega, htab.type⟩, if_neg (by omega), htab.address,
    show 3 - (n + 1) + 1 = 3 - n by omega]

/-- Above the page level an entry that is no table gets one, if a page can be allocated. -/
theorem blockEntryStep_leaf (hfresh : FreshAlloc alloc)
    (hinv : TableInv alloc cfg secure root shape st) (hcfg : cfg.Ok) (hrs : rs < 2 ^ cfg.width)
    (hp : 3 < p) (hb : shape (n + 1) (rs / blockSize (n + 1 + 1)) = some b)
    (hnone : shape n (rs / blockSize (n + 1)) = none)
    (hpage : alloc st.allocCalls = some page) :
    ∃ f w, Hung cfg secure root rs n p b page shape st f w
      (blockEntryStep alloc rs ⟨3 - (n + 1), p, b, e⟩ st) := by
  have hn : n + 1 ≤ 3 := le_trans (hinv.wellShaped.below_le hb) hcfg.le_three
  have hoff : ttAddressOffsetAtLevel (3 - (n + 1)) = 12 + 9 * (n + 1) :=
    ttAddressOffsetAtLevel_eq (by omega)
  have hnot : st.memory (entryAddress b (n + 1) rs) &&& ttTypeMask ≠ ttTypeTableEntry :=
    (hinv.wellShaped.leafOk_entry hrs hb hnone).not_table.resolve_left (Nat.succ_ne_zero n)
  rw [blockEntryStep]
  simp only [hoff, ttGetEntryForAddress_eq_entryAddress]
  rw [if_neg (by omega), if_neg fun h => hnot h.2, if_neg (by omega)]
  by_cases hblock : st.memory (entryAddress b (n + 1) rs) &&& ttTypeMask = ttTypeBlockEntry
  · rw [if_pos hblock]
    exact splitBlockEntry_hung hcfg hfresh hinv hrs hb hnone hblock hpage
  · rw [if_neg hblock]
    exact addTable_hung hcfg hfresh hinv hrs hb hnone hblock hpage

/-- Without a page the step gives up. -/
theorem blockEntryStep_leaf_none (hinv : TableInv alloc cfg secure root shape st)
    (hcfg : cfg.Ok) (hrs : rs < 2 ^ cfg.width) (hp : 3 < p)
    (hb : shape (n + 1) (rs / blockSize (n + 1 + 1)) = some b)
    (hnone : shape n (rs / blockSize (n + 1)) = none) (hpage : alloc st.allocCalls = none) :
    blockEntryStep alloc rs ⟨3 - (n + 1), p, b, e⟩ st =
      (.ok none, { st with allocCalls := st.allocCalls + 1 }) := by
  have hn : n + 1 ≤ 3 := le_trans (hinv.wellShaped.below_le hb) hcfg.le_three
  have hoff : ttAddressOffsetAtLevel (3 - (n + 1)) = 12 + 9 * (n + 1) :=
    ttAddressOffsetAtLevel_eq (by omega)
  have hnot : st.memory (entryAddress b (n + 1) rs) &&& ttTypeMask ≠ ttTypeTableEntry :=
    (hinv.wellShaped.leafOk_entry hrs hb hnone).not_table.resolve_left (Nat.succ_ne_zero n)
  rw [blockEntryStep]
  simp only [hoff, ttGetEntryForAddress_eq_entryAddress]
  rw [if_neg (by omega), if_neg fun h => hnot h.2, if_neg (by omega)]
  split
  · simp only [splitBlockEntry, allocatePages, hpage]
  · simp only [addTable, allocatePages, hpage]

/-- At the last level the source hangs a table below the entry of a page. -/
theorem blockEntryStep_page (hinv : TableInv alloc cfg secure root shape st)
    (hrs : rs < 2 ^ cfg.width) (hp : 3 < p) (hb : shape 0 (rs / blockSize 1) = some b) :
    blockEntryStep alloc rs ⟨3, p, b, e⟩ st =
      addTable alloc ⟨3, p, b, e⟩ (entryAddress b 0 rs) st := by
  have hoff : ttAddressOffsetAtLevel 3 = 12 + 9 * 0 := ttAddressOffsetAtLevel_eq rfl
  have hnot : st.memory (entryAddress b 0 rs) &&& ttTypeMask ≠ ttTypeBlockEntry := by
    rcases (hinv.wellShaped.page hrs hb).identity with h0 | ⟨⟨-, h3⟩ | ⟨h1, -⟩, -⟩
    · rw [h0]
      decide
    · exact fun h => absurd (h3.symm.trans h) (by decide)
    · exact absurd h1 (by dsimp only; omega)
  rw [blockEntryStep]
  simp only [hoff, ttGetEntryForAddress_eq_entryAddress]
  rw [if_neg (by omega), if_neg fun h => h.1 rfl, if_neg (by omega), if_neg hnot]

/-- A step that gives up has only asked for a page. -/
theorem blockEntryStep_eq_none {d : Descent}
    (h : blockEntryStep alloc rs d st = (.ok none, st')) :
    st' = { st with allocCalls := st.allocCalls + 1 } := by
  rw [blockEntryStep] at h
  dsimp only at h
  split at h
  · simp at h
  split at h
  · simp at h
  split at h
  · simp at h
  split at h
  · rw [splitBlockEntry] at h
    dsimp only [allocatePages] at h
    cases hpage : alloc st.allocCalls with
    | none =>
        simp only [hpage] at h
        exact (congrArg Prod.snd h).symm
    | some page =>
        simp only [hpage] at h
        split at h
        · simp at h
        · simp at h
  · rw [addTable] at h
    dsimp only [allocatePages] at h
    cases hpage : alloc st.allocCalls with
    | none =>
        simp only [hpage] at h
        exact (congrArg Prod.snd h).symm
    | some page => simp [hpage] at h

/-- There is no level five: its offset is no shift count. -/
theorem blockEntryStep_five :
    blockEntryStep alloc rs ⟨5, p, b, e⟩ st = (.error .undefinedShift, st) := by
  have hoff : 64 ≤ ttAddressOffsetAtLevel 5 := by decide
  rw [blockEntryStep]
  exact if_pos hoff

/-- Below the last level the descent ends by an undefined shift or without a page. -/
theorem blockEntryLoop_overrun (alloc : ℕ → Option ℕ) (rs b e fuel : ℕ) (st : MmuState)
    (hp : 5 < p) :
    (∃ halt st', blockEntryLoop alloc rs (fuel + 2) ⟨4, p, b, e⟩ st = (.error halt, st')) ∨
      blockEntryLoop alloc rs (fuel + 2) ⟨4, p, b, e⟩ st =
        (.ok none, { st with allocCalls := st.allocCalls + 1 }) := by
  rw [blockEntryLoop, if_neg (by dsimp only; omega)]
  rcases hstep : blockEntryStep alloc rs ⟨4, p, b, e⟩ st with ⟨halt | _ | d, st₁⟩
  · exact .inl ⟨halt, st₁, rfl⟩
  · right
    rw [blockEntryStep_eq_none hstep]
  · left
    obtain ⟨-, hindex, hpage⟩ := blockEntryStep_advance hstep (by dsimp only; omega)
    obtain ⟨index, page, table, entry⟩ := d
    dsimp only at hindex hpage ⊢
    subst hindex hpage
    rw [blockEntryLoop, if_neg (by dsimp only; omega), blockEntryStep_five]
    exact ⟨.undefinedShift, st₁, rfl⟩

/-- Below a page of the last level a table hangs as a page: the page is then translated to the
page of the table. -/
theorem walk_hang_page (hinv : TableInv alloc cfg secure root shape st) (hcfg : cfg.Ok)
    (hfresh : FreshAlloc alloc) (hpage : alloc st.allocCalls = some page)
    (hb : shape 0 (0 / blockSize 1) = some b) :
    walk cfg (hangMemory st.memory page (fun _ => 0) (entryAddress b 0 0) (tableEntryWord page 0))
      root 0 ≠ walk cfg st.memory root 0 := by
  have hzero : 0 < 2 ^ cfg.width := Nat.two_pow_pos _
  have hnew := hfresh.freshPage hinv hpage
  obtain ⟨hleaf, t, -, hreach⟩ := hinv.wellShaped.locate_slot hcfg hzero hb nofun
  have habove : ∀ m c, 0 < m → shape m (0 / blockSize (m + 1)) = some c →
      hangMemory st.memory page (fun _ => 0) (entryAddress b 0 0) (tableEntryWord page 0)
          (entryAddress c m 0) = st.memory (entryAddress c m 0) := by
    intro m c hm hc
    have haddr : entryAddress c m 0 ≠ entryAddress b 0 0 := fun haddr => by
      have := (hinv.wellShaped.entry_unique hb hc haddr).1
      omega
    exact hangMemory_old (hinv.wellShaped.aligned hc) hnew.aligned (hnew.unused hc) haddr
  rw [walk, walk, if_pos hzero, if_pos hzero, hreach st.memory fun _ _ _ _ => rfl,
    hreach _ habove, locate, locate, hangMemory, if_pos rfl]
  -- the table entry reads as a page at the address of the table
  have htab : TableOk True (tableEntryWord page 0) page :=
    tableOk_of_fresh hnew (BitMask.within_zero _) fun _ => rfl
  have hvalid : Leaf.Valid ⟨0, tableEntryWord page 0, t⟩ := Or.inl ⟨rfl, htab.type⟩
  have haddr : tableEntryWord page 0 &&& ttAddressMaskBlockEntry = page := htab.address
  have houtput : page / blockSize 0 * blockSize 0 + 0 % blockSize 0 = page := by
    rw [Nat.zero_mod, Nat.add_zero]
    exact Nat.div_mul_cancel hnew.aligned
  intro heq
  rw [translate, if_pos hvalid] at heq
  dsimp only at heq
  rw [haddr, houtput] at heq
  rcases hleaf.identity with hinvalid | ⟨hold, hself⟩
  · rw [translate_invalid hinvalid] at heq
    simp at heq
  · rw [translate_identity hold hself] at heq
    have hpos := hnew.pos
    simp only [Option.some.injEq, Translation.mk.injEq] at heq
    omega

end Step

/-! ### The request that wraps -/

/-- What comes of the descent for the first page with a page level below the last level, when
`n` levels are below the entry that translates the page: a page could not be allocated in time,
or the entry of the page was overwritten. -/
inductive WrappedOutcome (alloc : ℕ → Option ℕ) (cfg : WalkConfig) (root n : ℕ) (st : MmuState) :
    Except Halt (Option Descent) × MmuState → Prop
  | refused {st' : MmuState} (refusal : ∃ k ≤ n, alloc (st.allocCalls + k) = none)
      (refined : Refined cfg root st st') :
      WrappedOutcome alloc cfg root n st (.ok none, st')
  | halted {halt : Halt} {st' : MmuState}
      (granted : ∀ k ≤ n, alloc (st.allocCalls + k) ≠ none) :
      WrappedOutcome alloc cfg root n st (.error halt, st')
  | overwritten {st' : MmuState} (granted : ∀ k ≤ n, alloc (st.allocCalls + k) ≠ none)
      (tcr_eq : st'.tcr = st.tcr) (ttbr0_eq : st'.ttbr0 = st.ttbr0)
      (walk_ne : walk cfg st'.memory root 0 ≠ walk cfg st.memory root 0) :
      WrappedOutcome alloc cfg root n st (.ok none, st')

/-- What follows a hung table is an outcome of the whole descent. -/
theorem WrappedOutcome.of_hung {n page : ℕ} {r : Except Halt (Option Descent) × MmuState}
    (hrefined : Refined cfg root st st') (hcalls : st'.allocCalls = st.allocCalls + 1)
    (hpage : alloc st.allocCalls = some page) (h : WrappedOutcome alloc cfg root n st' r) :
    WrappedOutcome alloc cfg root (n + 1) st r := by
  have hgranted : (∀ k ≤ n, alloc (st'.allocCalls + k) ≠ none) →
      ∀ k ≤ n + 1, alloc (st.allocCalls + k) ≠ none := by
    intro h k hk
    cases k with
    | zero =>
        rw [Nat.add_zero, hpage]
        simp
    | succ k =>
        rw [Nat.add_comm k, ← Nat.add_assoc, ← hcalls]
        exact h k (by omega)
  cases h with
  | refused refusal refined =>
      obtain ⟨k, hk, hnone⟩ := refusal
      rw [hcalls, Nat.add_assoc, Nat.add_comm 1] at hnone
      exact .refused ⟨k + 1, by omega, hnone⟩ (hrefined.trans refined)
  | halted granted => exact .halted (hgranted granted)
  | overwritten granted tcr_eq ttbr0_eq walk_ne =>
      refine .overwritten (hgranted granted) (tcr_eq.trans hrefined.tcr_eq)
        (ttbr0_eq.trans hrefined.ttbr0_eq) ?_
      rw [← hrefined.walk_eq]
      exact walk_ne

/-- At the last level the source overwrites the entry of the first page, if a page can be
allocated. -/
theorem blockEntryLoop_lastLevel (hcfg : cfg.Ok) (hfresh : FreshAlloc alloc) {p b : ℕ}
    (hp : 5 < p) (hinv : TableInv alloc cfg secure root shape st)
    (hb : shape 0 (0 / blockSize 1) = some b) (e fuel : ℕ) :
    WrappedOutcome alloc cfg root 0 st (blockEntryLoop alloc 0 (fuel + 3) ⟨3, p, b, e⟩ st) := by
  rw [blockEntryLoop, if_neg (by dsimp only; omega),
    blockEntryStep_page hinv (Nat.two_pow_pos _) (by omega) hb]
  cases hpage : alloc st.allocCalls with
  | none =>
      simp only [addTable, allocatePages, hpage]
      exact .refused ⟨0, le_rfl, hpage⟩ ⟨fun _ => rfl, fun _ => rfl, rfl, rfl, Nat.le_succ _⟩
  | some page =>
      have hgranted : ∀ k ≤ 0, alloc (st.allocCalls + k) ≠ none := by
        intro k hk
        obtain rfl : k = 0 := Nat.le_zero.mp hk
        rw [Nat.add_zero, hpage]
        simp
      have hchanged := walk_hang_page hinv hcfg hfresh hpage hb
      simp only [addTable, allocatePages, hpage, fill_write_eq]
      obtain ⟨halt, st₁, hrun⟩ | hrun := blockEntryLoop_overrun alloc 0 page
        (entryAddress b 0 0) fuel
        ⟨hangMemory st.memory page (fun _ => 0) (entryAddress b 0 0) (tableEntryWord page 0),
          st.allocCalls + 1, st.tcr, st.ttbr0⟩ hp
      · rw [hrun]
        exact .halted hgranted
      · rw [hrun]
        exact .overwritten hgranted rfl rfl hchanged

/-- In a table that was hung where the walk of an address ended, its walk ends at once. -/
theorem findSlot_hung {n x page : ℕ} (hcfg : cfg.Ok) (hx : x < 2 ^ cfg.width)
    (hn : n < cfg.rootBelow) (h : WellShaped cfg secure st.memory root shape)
    (hnone : shape n (x / blockSize (n + 1)) = none)
    (h' : WellShaped cfg secure st'.memory root (shape.hang n (x / blockSize (n + 1)) page)) :
    findSlot st'.memory x n page = (n, page) := by
  have hpage : shape.hang n (x / blockSize (n + 1)) page n (x / blockSize (n + 1)) = some page :=
    Shape.hang_self _ _ _
  have hslot : IsLeafSlot (shape.hang n (x / blockSize (n + 1)) page) n x := by
    rintro m rfl
    rw [Shape.hang_of_ne fun h => by omega]
    exact h.none_below hx hn.le hnone
  exact findSlot_leaf (h'.locate_slot hcfg hx hpage hslot).1.not_table

/-- **The descent with a page level below the last level**, by induction on the number of
levels below the current table. -/
theorem blockEntryLoop_wrapped (hcfg : cfg.Ok) (hfresh : FreshAlloc alloc) {p : ℕ} (hp : 5 < p) :
    ∀ {i b e fuel : ℕ} {shape : Shape} {st : MmuState}, i + 4 ≤ fuel →
      TableInv alloc cfg secure root shape st → shape i (0 / blockSize (i + 1)) = some b →
      WrappedOutcome alloc cfg root (findSlot st.memory 0 i b).1 st
        (blockEntryLoop alloc 0 fuel ⟨3 - i, p, b, e⟩ st) := by
  have hzero : 0 < 2 ^ cfg.width := Nat.two_pow_pos _
  intro i
  induction i with
  | zero =>
      intro b e fuel shape st hfuel hinv hb
      obtain ⟨fuel, rfl⟩ : ∃ f, fuel = f + 3 := ⟨fuel - 3, by omega⟩
      exact blockEntryLoop_lastLevel hcfg hfresh hp hinv hb e fuel
  | succ n ih =>
      intro b e fuel shape st hfuel hinv hb
      obtain ⟨fuel, rfl⟩ : ∃ f, fuel = f + 1 := ⟨fuel - 1, by omega⟩
      rw [blockEntryLoop, if_neg (by dsimp only; omega)]
      rcases hinv.wellShaped.entry hzero hb with ⟨c, hc, htab⟩ | ⟨hnone, hleaf⟩
      · rw [blockEntryStep_table hinv hcfg (by omega) hb htab, findSlot, if_pos htab.type,
          htab.address]
        exact ih (by omega) hinv hc
      · rw [findSlot_leaf hleaf.not_table]
        cases hpage : alloc st.allocCalls with
        | none =>
            rw [blockEntryStep_leaf_none hinv hcfg hzero (by omega) hb hnone hpage]
            exact .refused ⟨0, Nat.zero_le _, hpage⟩
              ⟨fun _ => rfl, fun _ => rfl, rfl, rfl, Nat.le_succ _⟩
        | some page =>
            obtain ⟨f, w, hhung⟩ := blockEntryStep_leaf (e := e) hfresh hinv hcfg hzero
              (show 3 < p by omega) hb hnone hpage
            have hinv' := hhung.tableInv hfresh hinv hpage
            have hrefined := hhung.refined
            have hn : n < cfg.rootBelow := hinv.wellShaped.below_le hb
            rw [hhung.result] at hinv' hrefined ⊢
            have hnext := @ih page (entryAddress b (n + 1) 0) fuel _ _ (by omega) hinv'
              (Shape.hang_self _ _ _)
            rw [findSlot_hung hcfg hzero hn hinv.wellShaped hnone hinv'.wellShaped] at hnext
            exact hnext.of_hung hrefined rfl hpage

/-- The request overruns the last level: it is for the whole 48-bit range, and a page can be
allocated for each level below the entry that translates the first page, and one more. -/
def Overruns (alloc : ℕ → Option ℕ) (st : MmuState) (rs size : ℕ) : Prop :=
  rs = 0 ∧ size = 2 ^ 48 ∧ ∀ k ≤ (st.slot 0).1, alloc (st.allocCalls + k) ≠ none

/-- The request for the whole 48-bit range keeps the meaning of the table only if it runs out
of pages in time. -/
theorem keepsMeaning_whole (hfresh : FreshAlloc alloc) (hwf : WellFormed alloc secure st) :
    KeepsMeaning st 0 (2 ^ 48) (getBlockEntryListFromAddress alloc st.ttbr0 0 (2 ^ 48) st) ↔
      ¬ ∀ k ≤ (st.slot 0).1, alloc (st.allocCalls + k) ≠ none := by
  obtain ⟨shape, hinv⟩ := hwf.table
  have hcfg := hwf.configOk
  have hroot : (getRootTranslationTableInfo (st.tcr &&& tcrT0szMask)).1 =
      3 - st.config.rootBelow := by
    have := hwf.configured.root_level
    omega
  have hb : shape st.config.rootBelow (0 / blockSize (st.config.rootBelow + 1)) =
      some st.ttbr0 := by
    rw [Nat.zero_div]
    exact hinv.wellShaped.root_eq
  have hloop : WrappedOutcome alloc st.config st.ttbr0 (st.slot 0).1 st
      (blockEntryLoop alloc 0 levelFuel ⟨3 - st.config.rootBelow, 2 ^ 64 - 1, st.ttbr0, 0⟩ st) :=
    blockEntryLoop_wrapped hcfg hfresh (by omega)
      (by have := hcfg.le_three; rw [levelFuel]; omega) hinv hb
  have hvalid : ¬ (0 % 4096 ≠ 0 ∨ 2 ^ 48 % 4096 ≠ 0 ∨ 2 ^ 48 = 0) := by decide
  rw [getBlockEntryListFromAddress, if_neg hvalid]
  dsimp only
  rw [if_pos rfl, pageLevelLoop_wrapped]
  dsimp only
  rw [blockEntryListAtLevel, hroot]
  generalize blockEntryLoop alloc 0 levelFuel
    ⟨3 - st.config.rootBelow, 2 ^ 64 - 1, st.ttbr0, 0⟩ st = r at hloop
  cases hloop with
  | refused refusal refined =>
      obtain ⟨k, hk, hnone⟩ := refusal
      exact iff_of_true (keepsMeaning_none refined) fun h => h k hk hnone
  | halted granted =>
      exact iff_of_false (fun h => absurd h.returns (by simp)) (not_not_intro granted)
  | @overwritten st' granted tcr_eq ttbr0_eq walk_ne =>
      refine iff_of_false (fun h => walk_ne ?_) (not_not_intro granted)
      have hwalk := h.walk_eq 0
      rw [MmuState.walk_eq, MmuState.walk_eq, MmuState.config, tcr_eq, ttbr0_eq] at hwalk
      exact hwalk

/-- **When a request keeps the meaning of the table**: for whole pages in the range, always but
when it overruns the last level. -/
theorem keepsMeaning_iff (hfresh : FreshAlloc alloc) (hwf : WellFormed alloc secure st)
    (hrs : rs < 2 ^ st.config.width) (hrsPage : 4096 ∣ rs) (hsize : size ≤ 2 ^ st.config.width)
    (hsizePage : 4096 ∣ size) :
    KeepsMeaning st rs size (getBlockEntryListFromAddress alloc st.ttbr0 rs size st) ↔
      ¬ Overruns alloc st rs size := by
  obtain ⟨shape, hinv⟩ := hwf.table
  have hwidth : 2 ^ st.config.width ≤ 2 ^ 48 :=
    Nat.pow_le_pow_right (by omega) hwf.configOk.width_le
  by_cases hwhole : rs = 0 ∧ size = 2 ^ 48
  · obtain ⟨rfl, rfl⟩ := hwhole
    rw [keepsMeaning_whole hfresh hwf, Overruns]
    simp only [true_and]
  refine iff_of_true ?_ fun h => hwhole ⟨h.1, h.2.1⟩
  rcases Nat.eq_zero_or_pos size with rfl | hpos
  · -- a request for nothing is refused
    rw [getBlockEntryListFromAddress, if_pos (Or.inr (Or.inr rfl))]
    exact ⟨⟨none, rfl⟩, fun _ => rfl, fun l hl => absurd hl (by simp)⟩
  · exact keepsMeaning_of_spec hwf hrs (getBlockEntryListFromAddress_spec hwf.configOk hfresh hinv
      hwf.configured hrs hrsPage hpos hsizePage fun h0 => by
        have : size ≠ 2 ^ 48 := fun h => hwhole ⟨h0, h⟩
        omega)

/-- A table of the 48-bit range that maps nothing, when four pages are left. -/
def lastPages : MmuState := configuredState { blankState with allocCalls := 5 } 16 24576 48

/-- The state with the last pages is well formed. -/
theorem wellFormed_lastPages : WellFormed tenPages True lastPages := by
  have hmask : 16 &&& tcrT0szMask = 64 - addressWidth 48 := by decide
  have hpage : tenPages ({ blankState with allocCalls := 5 } : MmuState).allocCalls =
    some 24576 := rfl
  obtain ⟨hinv, hconf, -⟩ :=
    configuredState_spec freshAlloc_tenPages (show 32 ≤ 48 by decide) hmask hpage
  exact ⟨hconf.le, hconf.lt, _, hinv⟩

/-- A page is looked up in the table, and nothing is translated differently. -/
theorem keepsMeaning_page : KeepsMeaning lastPages 0x80000000 0x1000
    (getBlockEntryListFromAddress tenPages lastPages.ttbr0 0x80000000 0x1000 lastPages) :=
  (keepsMeaning_iff freshAlloc_tenPages wellFormed_lastPages (by decide) (by decide) (by decide)
    (by decide)).mpr fun h => absurd h.1 (by decide)

/-- The whole range is looked up: the source runs out of pages and returns `NULL`, but by then
it has mapped the first page to one of its tables. -/
theorem not_keepsMeaning_lastPages :
    FreshAlloc tenPages ∧ WellFormed tenPages True lastPages ∧
      (getBlockEntryListFromAddress tenPages lastPages.ttbr0 0 (2 ^ 48) lastPages).1 = .ok none ∧
      ¬ KeepsMeaning lastPages 0 (2 ^ 48)
        (getBlockEntryListFromAddress tenPages lastPages.ttbr0 0 (2 ^ 48) lastPages) := by
  refine ⟨freshAlloc_tenPages, wellFormed_lastPages, rfl, fun h => ?_⟩
  have hbefore : lastPages.walk 0 = none := rfl
  have hafter : ((getBlockEntryListFromAddress tenPages lastPages.ttbr0 0 (2 ^ 48)
      lastPages).2.walk 0).map Translation.outputAddress = some 40960 := rfl
  rw [h.walk_eq, hbefore] at hafter
  exact absurd hafter (by simp)

end Msm8998
