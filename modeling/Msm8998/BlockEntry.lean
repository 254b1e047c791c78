import Msm8998.TableRefine
import Msm8998.TranslationTable

/-!
# Finding the Block Entry

The specification of `GetBlockEntryListFromAddress`. On a well-shaped table and for an
aligned region inside the range it never stops for an undefined shift, refines the table
without changing a walk, and hands out the leaf entry for the start of the region in a
table whose blocks divide the start and fit into the size
(`getBlockEntryListFromAddress_spec`).

The levels of the source are `3 - n` for the number `n` of levels below, so the induction
over the descent is one on `n`. The one request outside the specification is a region
that starts at zero and is `2 ^ 48` bytes long; see `blockEntryLoop_ne_some`.
-/

namespace Msm8998

open BitMask

/-! ### Alignment -/

/-- The lowest set bit of a nonzero word divides it, and is set. -/
theorem lowBitSet64_spec {x : ℕ} (hpos : 0 < x) (hlt : x < 2 ^ 64) :
    lowBitSet64 x < 64 ∧ x.testBit (lowBitSet64 x) = true ∧ 2 ^ lowBitSet64 x ∣ x := by
  have hfound : ∃ a, (List.range 64).find? (fun i => x.testBit i) = some a := by
    rw [← Option.isSome_iff_exists, List.find?_isSome]
    obtain ⟨i, hi⟩ := Nat.exists_testBit_of_ne_zero (Nat.ne_of_gt hpos)
    refine ⟨i, List.mem_range.mpr ?_, hi⟩
    by_contra hge
    have hle : 2 ^ 64 ≤ 2 ^ i := Nat.pow_le_pow_right (by omega) (by omega)
    have := Nat.ge_two_pow_of_testBit hi
    omega
  obtain ⟨a, ha⟩ := hfound
  obtain ⟨hset, hrange, hlow⟩ := List.find?_range_eq_some.mp ha
  have heq : lowBitSet64 x = a := by rw [lowBitSet64, ha, Option.getD_some]
  rw [heq]
  refine ⟨List.mem_range.mp hrange, hset, Nat.dvd_of_mod_eq_zero ?_⟩
  refine Nat.eq_of_testBit_eq fun i => ?_
  rw [Nat.testBit_mod_two_pow, Nat.zero_testBit]
  by_cases hi : i < a
  · have := hlow i hi
    simp at this
    simp [this]
  · simp [hi]

/-- The lowest set bit of a page-aligned word below `2 ^ 48`. -/
theorem lowBitSet64_page {x : ℕ} (hpos : 0 < x) (hlt : x < 2 ^ 48) (hpage : 4096 ∣ x) :
    12 ≤ lowBitSet64 x ∧ lowBitSet64 x < 48 ∧ 2 ^ lowBitSet64 x ∣ x := by
  obtain ⟨-, hset, hdvd⟩ := lowBitSet64_spec hpos (by omega)
  refine ⟨?_, ?_, hdvd⟩
  · generalize lowBitSet64 x = a at hset
    obtain ⟨k, rfl⟩ := hpage
    rw [show 4096 = 2 ^ 12 from rfl, Nat.testBit_two_pow_mul] at hset
    simp only [Bool.and_eq_true, decide_eq_true_eq] at hset
    exact hset.1
  · have := Nat.ge_two_pow_of_testBit hset
    exact (Nat.pow_lt_pow_iff_right (by omega)).mp (lt_of_le_of_lt this hlt)

/-- The page level that an alignment below 48 allows has at most two levels below it, and
its blocks are aligned. -/
theorem alignmentPageLevel_spec {a : ℕ} (hlo : 12 ≤ a) (hhi : a < 48) :
    ∃ n ≤ 2, alignmentPageLevel a = 3 - n ∧ blockSize n ∣ 2 ^ a := by
  refine ⟨min ((a - 12) / 9) 2, by omega, ?_, Nat.pow_dvd_pow 2 (by omega)⟩
  rw [alignmentPageLevel, sub64_eq hlo (by omega), sub64_eq (by omega) (by omega)]
  omega

/-- The loop over the page level ends at a level whose blocks fit into the size. -/
theorem pageLevelLoop_spec {size : ℕ} (hsize : 4096 ≤ size) :
    ∀ {n fuel : ℕ}, n ≤ 3 → n < fuel →
      ∃ m ≤ n, pageLevelLoop size fuel (3 - n) = .ok (3 - m) ∧ blockSize m ≤ size := by
  intro n
  induction n with
  | zero =>
      intro fuel hn hfuel
      obtain ⟨fuel, rfl⟩ := Nat.exists_eq_succ_of_ne_zero (Nat.ne_of_gt hfuel)
      have hfit : ¬ size < blockSize 0 := not_lt.mpr hsize
      refine ⟨0, le_rfl, ?_, hsize⟩
      rw [pageLevelLoop, @ttAddressOffsetAtLevel_eq _ 0 (by omega), if_neg (by omega),
        one_shiftLeft_eq_blockSize, if_neg hfit]
  | succ n ih =>
      intro fuel hn hfuel
      obtain ⟨fuel, rfl⟩ := Nat.exists_eq_succ_of_ne_zero (Nat.ne_zero_of_lt hfuel)
      have hlevel : (3 - (n + 1) + 1) % 2 ^ 64 = 3 - n := by omega
      rw [pageLevelLoop, @ttAddressOffsetAtLevel_eq _ (n + 1) (by omega), if_neg (by omega),
        one_shiftLeft_eq_blockSize, hlevel]
      by_cases hfit : size < blockSize (n + 1)
      · rw [if_pos hfit]
        obtain ⟨m, hm, hrun, hle⟩ := @ih fuel (by omega) (by omega)
        exact ⟨m, by omega, hrun, hle⟩
      · rw [if_neg hfit]
        exact ⟨n + 1, le_rfl, rfl, not_lt.mp hfit⟩

/-! ### The state of a run -/

/-- The allocator hands out distinct table pages. -/
structure FreshAlloc (alloc : ℕ → Option ℕ) : Prop where
  pos : ∀ {k p}, alloc k = some p → 0 < p
  aligned : ∀ {k p}, alloc k = some p → 4096 ∣ p
  lt : ∀ {k p}, alloc k = some p → p < 2 ^ 48
  inj : ∀ {j k p}, alloc j = some p → alloc k = some p → j = k

/-- The state holds a well-shaped table, none of whose pages is still to be allocated. -/
structure TableInv (alloc : ℕ → Option ℕ) (cfg : WalkConfig) (secure : Prop) (root : ℕ)
    (shape : Shape) (st : MmuState) : Prop where
  wellShaped : WellShaped cfg secure st.memory root shape
  unissued : ∀ {n p b k}, shape n p = some b → st.allocCalls ≤ k → alloc k ≠ some b

/-- The translation control register selects the configuration. -/
structure Configured (cfg : WalkConfig) (st : MmuState) : Prop where
  cfg_eq : WalkConfig.ofT0sz (st.tcr &&& tcrT0szMask) = cfg
  le : 16 ≤ st.tcr &&& tcrT0szMask
  lt : st.tcr &&& tcrT0szMask < 34

/-- What refining the table may do: the walk and the restrictions stay the same, and so does the
rest of the state but for the memory and the count of allocations. -/
structure Refined (cfg : WalkConfig) (root : ℕ) (st st' : MmuState) : Prop where
  walk_eq : ∀ y, walk cfg st'.memory root y = walk cfg st.memory root y
  restrictions_eq : ∀ y,
    restrictions cfg st'.memory root y = restrictions cfg st.memory root y
  tcr_eq : st'.tcr = st.tcr
  ttbr0_eq : st'.ttbr0 = st.ttbr0
  calls_le : st.allocCalls ≤ st'.allocCalls

/-- One of the allocations between two states returned `NULL`. -/
def AllocFailed (alloc : ℕ → Option ℕ) (st st' : MmuState) : Prop :=
  ∃ k, st.allocCalls ≤ k ∧ k < st'.allocCalls ∧ alloc k = none

variable {alloc : ℕ → Option ℕ} {cfg : WalkConfig} {secure : Prop} {root : ℕ} {shape : Shape}
  {st st' st'' : MmuState}

namespace Refined

theorem refl (cfg : WalkConfig) (root : ℕ) (st : MmuState) : Refined cfg root st st :=
  ⟨fun _ => rfl, fun _ => rfl, rfl, rfl, le_rfl⟩

theorem trans (h : Refined cfg root st st') (h' : Refined cfg root st' st'') :
    Refined cfg root st st'' where
  walk_eq y := (h'.walk_eq y).trans (h.walk_eq y)
  restrictions_eq y := (h'.restrictions_eq y).trans (h.restrictions_eq y)
  tcr_eq := h'.tcr_eq.trans h.tcr_eq
  ttbr0_eq := h'.ttbr0_eq.trans h.ttbr0_eq
  calls_le := le_trans h.calls_le h'.calls_le

end Refined

/-- A later failure is a failure of the whole run. -/
theorem AllocFailed.of_le (h : AllocFailed alloc st' st'') (hle : st.allocCalls ≤ st'.allocCalls) :
    AllocFailed alloc st st'' := by
  obtain ⟨k, hlo, hhi, hk⟩ := h
  exact ⟨k, le_trans hle hlo, hhi, hk⟩

/-- The next page is fresh for the shape. -/
theorem FreshAlloc.freshPage (hfresh : FreshAlloc alloc)
    (hinv : TableInv alloc cfg secure root shape st) {page : ℕ}
    (hpage : alloc st.allocCalls = some page) : FreshPage shape page where
  pos := hfresh.pos hpage
  aligned := hfresh.aligned hpage
  lt := hfresh.lt hpage
  unused hb := fun heq => hinv.unissued hb le_rfl (heq ▸ hpage)

/-- Once a page is hung into the table it is not allocated again. -/
theorem FreshAlloc.unissued_hang (hfresh : FreshAlloc alloc)
    (hinv : TableInv alloc cfg secure root shape st) {page n p : ℕ}
    (hpage : alloc st.allocCalls = some page) {m q b k : ℕ}
    (hb : shape.hang n p page m q = some b) (hk : st.allocCalls + 1 ≤ k) :
    alloc k ≠ some b := by
  rcases Shape.hang_eq_some hb with ⟨-, -, rfl⟩ | ⟨-, hold⟩
  · intro hk'
    have := hfresh.inj hpage hk'
    omega
  · exact hinv.unissued hold (by omega)

/-! ### One level of the descent -/

/-- The entry that the source computes at a level is the entry of the walk. -/
theorem ttGetEntryForAddress_eq_entryAddress (b n x : ℕ) :
    ttGetEntryForAddress b (12 + 9 * n) x = entryAddress b n x := by
  rw [ttGetEntryForAddress_eq, entryAddress, blockSize]

/-- What one round of the level loop can do, at a table with `i` levels below it and a page
level with `m` below it:

* `failed`: the allocation of a new table failed;
* `arrived`: the entry is a leaf entry at the page level;
* `descended`: the walk goes on in the table one level down, which is either the one the
  entry points to or a new one; the page level moves down with the table. -/
inductive LevelOutcome (alloc : ℕ → Option ℕ) (cfg : WalkConfig) (secure : Prop) (root rs : ℕ)
    (i m b : ℕ) (shape : Shape) (st : MmuState) :
    Except Halt (Option Descent) × MmuState → Prop
  | failed {st' : MmuState} {shape' : Shape}
      (refined : Refined cfg root st st')
      (inv : TableInv alloc cfg secure root shape' st')
      (failure : AllocFailed alloc st st') :
      LevelOutcome alloc cfg secure root rs i m b shape st (.ok none, st')
  | arrived (level : i = m) (slot : IsLeafSlot shape i rs) :
      LevelOutcome alloc cfg secure root rs i m b shape st
        (.ok (some ⟨3 - i + 1, 3 - m, b, entryAddress b i rs⟩), st)
  | descended {n b' : ℕ} {st' : MmuState} {shape' : Shape} (level : i = n + 1)
      (refined : Refined cfg root st st')
      (inv : TableInv alloc cfg secure root shape' st')
      (table : shape' n (rs / blockSize (n + 1)) = some b') :
      LevelOutcome alloc cfg secure root rs i m b shape st
        (.ok (some ⟨3 - n, 3 - min m n, b', entryAddress b i rs⟩), st')

/-- Filling a page and storing its address into an entry, as one change of memory. -/
theorem fill_write_eq (st : MmuState) (page entry w : ℕ) (f : ℕ → ℕ) :
    (st.fill page ttEntryCount f).write entry w =
      { st with memory := hangMemory st.memory page f entry w } := rfl

/-- The allocation of a new table failed, as one round of the level loop. -/
theorem LevelOutcome.of_none (hinv : TableInv alloc cfg secure root shape st) {rs i m b : ℕ}
    (hpage : alloc st.allocCalls = none) :
    LevelOutcome alloc cfg secure root rs i m b shape st
      (.ok none, { st with allocCalls := st.allocCalls + 1 }) :=
  .failed ⟨fun _ => rfl, fun _ => rfl, rfl, rfl, Nat.le_succ _⟩
    ⟨hinv.wellShaped, fun hb hk => hinv.unissued hb (Nat.le_of_succ_le hk)⟩
    ⟨st.allocCalls, le_rfl, Nat.lt_succ_self _, hpage⟩

/-- What a round of the level loop has done when it has allocated a page: the page is a table
below the entry of `rs`, the table invariant, the walk and the restrictions are kept, and the
descent goes on in the new table. -/
structure Hung (cfg : WalkConfig) (secure : Prop) (root rs n p b page : ℕ) (shape : Shape)
    (st : MmuState) (f : ℕ → ℕ) (w : ℕ) (r : Except Halt (Option Descent) × MmuState) :
    Prop where
  result : r = (.ok (some ⟨3 - n, p, page, entryAddress b (n + 1) rs⟩),
    ⟨hangMemory st.memory page f (entryAddress b (n + 1) rs) w, st.allocCalls + 1, st.tcr,
      st.ttbr0⟩)
  kept : WellShaped cfg secure (hangMemory st.memory page f (entryAddress b (n + 1) rs) w)
      root (shape.hang n (rs / blockSize (n + 1)) page) ∧
    ∀ y, walk cfg (hangMemory st.memory page f (entryAddress b (n + 1) rs) w) root y =
        walk cfg st.memory root y ∧
      restrictions cfg (hangMemory st.memory page f (entryAddress b (n + 1) rs) w) root y =
        restrictions cfg st.memory root y

/-- Splitting a block entry hangs a table of smaller blocks below it. -/
theorem splitBlockEntry_hung (hcfg : cfg.Ok) (hfresh : FreshAlloc alloc)
    (hinv : TableInv alloc cfg secure root shape st) {rs n p b e page : ℕ}
    (hrs : rs < 2 ^ cfg.width) (hb : shape (n + 1) (rs / blockSize (n + 1 + 1)) = some b)
    (hnone : shape n (rs / blockSize (n + 1)) = none)
    (hblock : st.memory (entryAddress b (n + 1) rs) &&& ttTypeMask = ttTypeBlockEntry)
    (hpage : alloc st.allocCalls = some page) :
    ∃ f w, Hung cfg secure root rs n p b page shape st f w
      (splitBlockEntry alloc rs (12 + 9 * (n + 1)) ⟨3 - (n + 1), p, b, e⟩
        (entryAddress b (n + 1) rs) st) := by
  have hshaped := hinv.wellShaped
  have hn : n + 1 ≤ 3 := le_trans (hshaped.below_le hb) hcfg.le_three
  have hsub : ttAddressOffsetAtLevel (3 - n) = 12 + 9 * n := ttAddressOffsetAtLevel_eq (by omega)
  have htype : (if 3 - n = 3 then ttTypeBlockEntryLevel3 else ttTypeBlockEntry) = leafType n := by
    rw [leafType]
    exact if_congr (by omega) rfl rfl
  simp only [splitBlockEntry, allocatePages, hpage, fill_write_eq,
    show 3 - (n + 1) + 1 = 3 - n by omega, hsub, if_neg (show ¬ 64 ≤ 12 + 9 * n by omega)]
  refine ⟨_, _, rfl, hshaped.hang_split hcfg hrs hb hnone (hfresh.freshPage hinv hpage)
    hblock rfl rfl fun y hq => ?_⟩
  rw [htype, shiftRight_shiftLeft, Nat.shiftLeft_eq]
  exact subEntry_eq hq

/-- A new table below an invalid entry is a table of invalid entries. -/
theorem addTable_hung (hcfg : cfg.Ok) (hfresh : FreshAlloc alloc)
    (hinv : TableInv alloc cfg secure root shape st) {rs n p b e page : ℕ}
    (hrs : rs < 2 ^ cfg.width) (hb : shape (n + 1) (rs / blockSize (n + 1 + 1)) = some b)
    (hnone : shape n (rs / blockSize (n + 1)) = none)
    (hblock : ¬ st.memory (entryAddress b (n + 1) rs) &&& ttTypeMask = ttTypeBlockEntry)
    (hpage : alloc st.allocCalls = some page) :
    ∃ f w, Hung cfg secure root rs n p b page shape st f w
      (addTable alloc ⟨3 - (n + 1), p, b, e⟩ (entryAddress b (n + 1) rs) st) := by
  have hshaped := hinv.wellShaped
  have hn : n + 1 ≤ 3 := le_trans (hshaped.below_le hb) hcfg.le_three
  -- a leaf entry that is no block entry is invalid
  have hinvalid : st.memory (entryAddress b (n + 1) rs) &&& ttTypeMask = 0 := by
    rcases (hshaped.leafOk_entry hrs hb hnone).identity with h0 | ⟨⟨h0, -⟩ | ⟨-, h1⟩, -⟩
    · exact h0
    · exact absurd h0 (Nat.succ_ne_zero n)
    · exact absurd h1 hblock
  simp only [addTable, allocatePages, hpage, fill_write_eq,
    show 3 - (n + 1) + 1 = 3 - n by omega]
  exact ⟨_, _, rfl,
    hshaped.hang_zero hcfg hrs hb hnone (hfresh.freshPage hinv hpage) hinvalid⟩

/-- The state after a page is hung into the table refines the one before. -/
theorem Hung.refined {rs n p b page w : ℕ} {f : ℕ → ℕ}
    {r : Except Halt (Option Descent) × MmuState}
    (h : Hung cfg secure root rs n p b page shape st f w r) : Refined cfg root st r.2 := by
  rw [h.result]
  exact ⟨fun y => (h.kept.2 y).1, fun y => (h.kept.2 y).2, rfl, rfl, Nat.le_succ _⟩

/-- It holds a well-shaped table. -/
theorem Hung.tableInv (hfresh : FreshAlloc alloc)
    (hinv : TableInv alloc cfg secure root shape st) {rs n p b page w : ℕ} {f : ℕ → ℕ}
    {r : Except Halt (Option Descent) × MmuState} (hpage : alloc st.allocCalls = some page)
    (h : Hung cfg secure root rs n p b page shape st f w r) :
    TableInv alloc cfg secure root (shape.hang n (rs / blockSize (n + 1)) page) r.2 := by
  rw [h.result]
  exact ⟨h.kept.1, fun hb' hk => hfresh.unissued_hang hinv hpage hb' hk⟩

/-- A new table below the entry of `rs`, as one round of the level loop. -/
theorem Hung.outcome (hfresh : FreshAlloc alloc)
    (hinv : TableInv alloc cfg secure root shape st) {rs n m b page w : ℕ} {f : ℕ → ℕ}
    {r : Except Halt (Option Descent) × MmuState} (hm : m ≤ n)
    (hpage : alloc st.allocCalls = some page)
    (h : Hung cfg secure root rs n (3 - m) b page shape st f w r) :
    LevelOutcome alloc cfg secure root rs (n + 1) m b shape st r := by
  have hrefined := h.refined
  have hinv' := h.tableInv hfresh hinv hpage
  rw [h.result] at hrefined hinv' ⊢
  rw [show 3 - m = 3 - min m n by omega]
  exact .descended rfl hrefined hinv' (Shape.hang_self _ _ _)

/-- Splitting the block entry of `rs` descends into a table that maps what it mapped. -/
theorem splitBlockEntry_spec (hcfg : cfg.Ok) (hfresh : FreshAlloc alloc)
    (hinv : TableInv alloc cfg secure root shape st) {rs n m b e : ℕ}
    (hrs : rs < 2 ^ cfg.width) (hm : m ≤ n)
    (hb : shape (n + 1) (rs / blockSize (n + 1 + 1)) = some b)
    (hnone : shape n (rs / blockSize (n + 1)) = none)
    (hblock : st.memory (entryAddress b (n + 1) rs) &&& ttTypeMask = ttTypeBlockEntry) :
    LevelOutcome alloc cfg secure root rs (n + 1) m b shape st
      (splitBlockEntry alloc rs (12 + 9 * (n + 1)) ⟨3 - (n + 1), 3 - m, b, e⟩
        (entryAddress b (n + 1) rs) st) := by
  cases hpage : alloc st.allocCalls with
  | none =>
      simp only [splitBlockEntry, allocatePages, hpage]
      exact .of_none hinv hpage
  | some page =>
      obtain ⟨f, w, hhung⟩ := splitBlockEntry_hung hcfg hfresh hinv hrs hb hnone hblock hpage
      exact hhung.outcome hfresh hinv hm hpage

/-- A zeroed table below the invalid entry of `rs` descends into a table that maps nothing,
as the entry did. -/
theorem addTable_spec (hcfg : cfg.Ok) (hfresh : FreshAlloc alloc)
    (hinv : TableInv alloc cfg secure root shape st) {rs n m b e : ℕ}
    (hrs : rs < 2 ^ cfg.width) (hm : m ≤ n)
    (hb : shape (n + 1) (rs / blockSize (n + 1 + 1)) = some b)
    (hnone : shape n (rs / blockSize (n + 1)) = none)
    (hblock : ¬ st.memory (entryAddress b (n + 1) rs) &&& ttTypeMask = ttTypeBlockEntry) :
    LevelOutcome alloc cfg secure root rs (n + 1) m b shape st
      (addTable alloc ⟨3 - (n + 1), 3 - m, b, e⟩ (entryAddress b (n + 1) rs) st) := by
  cases hpage : alloc st.allocCalls with
  | none =>
      simp only [addTable, allocatePages, hpage]
      exact .of_none hinv hpage
  | some page =>
      obtain ⟨f, w, hhung⟩ := addTable_hung hcfg hfresh hinv hrs hb hnone hblock hpage
      exact hhung.outcome hfresh hinv hm hpage

/-- **One round of the level loop.** -/
theorem blockEntryStep_spec (hcfg : cfg.Ok) (hfresh : FreshAlloc alloc)
    (hinv : TableInv alloc cfg secure root shape st) {rs i m b e : ℕ}
    (hrs : rs < 2 ^ cfg.width) (hm : m ≤ i)
    (hb : shape i (rs / blockSize (i + 1)) = some b) :
    LevelOutcome alloc cfg secure root rs i m b shape st
      (blockEntryStep alloc rs ⟨3 - i, 3 - m, b, e⟩ st) := by
  have hshaped := hinv.wellShaped
  have hi : i ≤ 3 := le_trans (hshaped.below_le hb) hcfg.le_three
  have hoff : ttAddressOffsetAtLevel (3 - i) = 12 + 9 * i := ttAddressOffsetAtLevel_eq (by omega)
  rw [blockEntryStep]
  simp only [hoff, ttGetEntryForAddress_eq_entryAddress]
  rw [if_neg (by omega)]
  by_cases htable : 3 - i ≠ 3 ∧
      st.memory (entryAddress b i rs) &&& ttTypeMask = ttTypeTableEntry
  · -- the entry points to a table, which the shape knows
    obtain ⟨n, rfl⟩ : ∃ n, i = n + 1 := ⟨i - 1, by omega⟩
    have hlevel : (if 3 - (n + 1) = 3 - m then 3 - m + 1 else 3 - m) = 3 - min m n := by
      split <;> omega
    rw [if_pos htable, hlevel, show 3 - (n + 1) + 1 = 3 - n by omega]
    rcases hshaped.entry hrs hb with ⟨c, hc, htab⟩ | ⟨-, hleaf⟩
    · rw [htab.address]
      exact LevelOutcome.descended rfl (Refined.refl cfg root st) hinv hc
    · rcases hleaf.not_table with h0 | hnot
      · exact absurd h0 (Nat.succ_ne_zero n)
      · exact absurd htable.2 hnot
  rw [if_neg htable]
  have hslot : IsLeafSlot shape i rs := by
    rintro n rfl
    rcases hshaped.entry hrs hb with ⟨c, -, htab⟩ | ⟨hnone, -⟩
    · exact absurd ⟨by omega, htab.type⟩ htable
    · exact hnone
  by_cases hlevel : i = m
  · -- a leaf entry at the page level
    rw [if_pos (by omega)]
    exact LevelOutcome.arrived hlevel hslot
  -- a leaf entry above the page level gets a table
  obtain ⟨n, rfl⟩ : ∃ n, i = n + 1 := ⟨i - 1, by omega⟩
  have hmn : m ≤ n := by omega
  rw [if_neg (by omega)]
  by_cases hblock : st.memory (entryAddress b (n + 1) rs) &&& ttTypeMask = ttTypeBlockEntry
  · rw [if_pos hblock]
    exact splitBlockEntry_spec hcfg hfresh hinv hrs hmn hb (hslot n rfl) hblock
  · rw [if_neg hblock]
    exact addTable_spec hcfg hfresh hinv hrs hmn hb (hslot n rfl) hblock

/-! ### The descent -/

/-- What the level loop can return: `none` after a failed allocation, or the leaf entry of
the address at a level not above the page level, with the table that holds it. -/
inductive DescentOutcome (alloc : ℕ → Option ℕ) (cfg : WalkConfig) (secure : Prop)
    (root rs m : ℕ) (st : MmuState) : Except Halt (Option Descent) × MmuState → Prop
  | failed {st' : MmuState} {shape' : Shape}
      (refined : Refined cfg root st st')
      (inv : TableInv alloc cfg secure root shape' st')
      (failure : AllocFailed alloc st st') :
      DescentOutcome alloc cfg secure root rs m st (.ok none, st')
  | found {m' b' : ℕ} {st' : MmuState} {shape' : Shape} (level : m' ≤ m)
      (refined : Refined cfg root st st')
      (inv : TableInv alloc cfg secure root shape' st')
      (table : shape' m' (rs / blockSize (m' + 1)) = some b')
      (slot : IsLeafSlot shape' m' rs) :
      DescentOutcome alloc cfg secure root rs m st
        (.ok (some ⟨3 - m' + 1, 3 - m', b', entryAddress b' m' rs⟩), st')

/-- What follows a refinement is an outcome of the whole descent. -/
theorem DescentOutcome.of_refined {rs m n : ℕ} {r : Except Halt (Option Descent) × MmuState}
    (h : DescentOutcome alloc cfg secure root rs m st' r) (hmn : m ≤ n)
    (hst : Refined cfg root st st') : DescentOutcome alloc cfg secure root rs n st r := by
  cases h with
  | failed refined inv failure =>
      exact .failed (hst.trans refined) inv (failure.of_le hst.calls_le)
  | found level refined inv table slot =>
      exact .found (le_trans level hmn) (hst.trans refined) inv table slot

/-- **The level loop**, by induction on the number of levels below the current table. -/
theorem blockEntryLoop_spec (hcfg : cfg.Ok) (hfresh : FreshAlloc alloc) {rs : ℕ}
    (hrs : rs < 2 ^ cfg.width) :
    ∀ {i m b e fuel : ℕ} {shape : Shape} {st : MmuState}, i + 2 ≤ fuel → m ≤ i →
      TableInv alloc cfg secure root shape st → shape i (rs / blockSize (i + 1)) = some b →
      DescentOutcome alloc cfg secure root rs m st
        (blockEntryLoop alloc rs fuel ⟨3 - i, 3 - m, b, e⟩ st) := by
  intro i
  induction i using Nat.strong_induction_on with
  | _ i ih =>
      intro m b e fuel shape st hfuel hm hinv hb
      obtain ⟨fuel, rfl⟩ : ∃ f, fuel = f + 2 := ⟨fuel - 2, by omega⟩
      have hi : i ≤ 3 := le_trans (hinv.wellShaped.below_le hb) hcfg.le_three
      have hstep := blockEntryStep_spec (e := e) hcfg hfresh hinv hrs hm hb
      rw [blockEntryLoop, if_neg (not_lt.mpr (Nat.sub_le_sub_left hm 3))]
      generalize blockEntryStep alloc rs ⟨3 - i, 3 - m, b, e⟩ st = r at hstep
      cases hstep with
      | failed refined inv failure => exact .failed refined inv failure
      | arrived level slot =>
          subst level
          simp only [blockEntryLoop]
          rw [if_pos (Nat.lt_succ_self _)]
          exact .found le_rfl (Refined.refl cfg root st) hinv hb slot
      | @descended n b' st' shape' level refined inv table =>
          subst level
          refine DescentOutcome.of_refined ?_ (Nat.min_le_left m n) refined
          exact ih n (Nat.lt_succ_self n) (by omega) (Nat.min_le_right m n) inv table

/-! ### `GetBlockEntryListFromAddress` -/

/-- The entry count of a table with `m` levels below it. -/
def entryCount (cfg : WalkConfig) (st : MmuState) (m : ℕ) : ℕ :=
  if m = cfg.rootBelow then (getRootTranslationTableInfo (st.tcr &&& tcrT0szMask)).2
  else ttEntryCount

/-- What `GetBlockEntryListFromAddress` can return on a well-shaped table: `NULL` after a
failed allocation, or the leaf entry of the region start at a level whose blocks divide
the start and fit into the size. -/
inductive EntryOutcome (alloc : ℕ → Option ℕ) (cfg : WalkConfig) (secure : Prop)
    (root rs size : ℕ) (st : MmuState) : Except Halt (Option BlockEntryList) × MmuState → Prop
  | failed {st' : MmuState} {shape' : Shape}
      (refined : Refined cfg root st st')
      (inv : TableInv alloc cfg secure root shape' st')
      (failure : AllocFailed alloc st st') :
      EntryOutcome alloc cfg secure root rs size st (.ok none, st')
  | found {m b : ℕ} {st' : MmuState} {shape' : Shape} (level : m ≤ 2)
      (aligned : blockSize m ∣ rs) (fits : blockSize m ≤ size)
      (refined : Refined cfg root st st')
      (inv : TableInv alloc cfg secure root shape' st')
      (table : shape' m (rs / blockSize (m + 1)) = some b)
      (slot : IsLeafSlot shape' m rs) :
      EntryOutcome alloc cfg secure root rs size st
        (.ok (some ⟨entryAddress b m rs, 3 - m, blockSize m,
          ttLastBlockAddress b (entryCount cfg st m)⟩), st')

/-- The level of the root table and the number of levels below it. -/
theorem Configured.root_level (h : Configured cfg st) :
    (getRootTranslationTableInfo (st.tcr &&& tcrT0szMask)).1 + cfg.rootBelow = 3 := by
  have hle := h.le
  have hlt := h.lt
  rw [← h.cfg_eq, getRootTranslationTableInfo, WalkConfig.ofT0sz, minT0sz, bitsPerLevel,
    sub64_eq hle (by omega)]
  dsimp only
  omega

/-- The page level that the source computes for an aligned region of the range. -/
theorem pageLevel_spec {rs size : ℕ} (hrs : rs < 2 ^ 48) (hrsPage : 4096 ∣ rs)
    (hsize : 0 < size) (hsizePage : 4096 ∣ size) (hsizeLt : rs = 0 → size < 2 ^ 48) :
    ∃ m ≤ 2, blockSize m ∣ rs ∧ blockSize m ≤ size ∧
      pageLevelLoop size levelFuel
        (alignmentPageLevel (if rs = 0 then lowBitSet64 size else lowBitSet64 rs)) =
          .ok (3 - m) := by
  have hge : 4096 ≤ size := Nat.le_of_dvd hsize hsizePage
  have halign : ∃ a, (if rs = 0 then lowBitSet64 size else lowBitSet64 rs) = a ∧
      12 ≤ a ∧ a < 48 ∧ 2 ^ a ∣ rs := by
    by_cases h0 : rs = 0
    · obtain ⟨hlo, hhi, -⟩ := lowBitSet64_page hsize (hsizeLt h0) hsizePage
      exact ⟨_, if_pos h0, hlo, hhi, h0 ▸ dvd_zero _⟩
    · obtain ⟨hlo, hhi, hdvd⟩ := lowBitSet64_page (Nat.pos_of_ne_zero h0) hrs hrsPage
      exact ⟨_, if_neg h0, hlo, hhi, hdvd⟩
  obtain ⟨a, ha, hlo, hhi, hdvd⟩ := halign
  obtain ⟨n, hn, hlevel, hblock⟩ := alignmentPageLevel_spec hlo hhi
  obtain ⟨m, hm, hloop, hfit⟩ := @pageLevelLoop_spec size hge n levelFuel (by omega)
    (by rw [levelFuel]; omega)
  refine ⟨m, by omega, ?_, hfit, ?_⟩
  · exact dvd_trans (blockSize_dvd hm) (dvd_trans hblock hdvd)
  · rw [ha, hlevel]
    exact hloop

/-- **`GetBlockEntryListFromAddress`** on a well-shaped table, for an aligned region in the
range. -/
theorem getBlockEntryListFromAddress_spec (hcfg : cfg.Ok) (hfresh : FreshAlloc alloc)
    (hinv : TableInv alloc cfg secure root shape st) (hconf : Configured cfg st) {rs size : ℕ}
    (hrs : rs < 2 ^ cfg.width) (hrsPage : 4096 ∣ rs) (hsize : 0 < size)
    (hsizePage : 4096 ∣ size) (hsizeLt : rs = 0 → size < 2 ^ 48) :
    EntryOutcome alloc cfg secure root rs size st
      (getBlockEntryListFromAddress alloc root rs size st) := by
  have hrs48 : rs < 2 ^ 48 :=
    lt_of_lt_of_le hrs (Nat.pow_le_pow_right (by omega) hcfg.width_le)
  obtain ⟨m, hm, hdvd, hfit, hlevel⟩ := pageLevel_spec hrs48 hrsPage hsize hsizePage hsizeLt
  have hroot : (getRootTranslationTableInfo (st.tcr &&& tcrT0szMask)).1 = 3 - cfg.rootBelow := by
    have := hconf.root_level
    omega
  have hb : shape cfg.rootBelow (rs / blockSize (cfg.rootBelow + 1)) = some root := by
    rw [WellShaped.div_root_eq_zero hcfg hrs]
    exact hinv.wellShaped.root_eq
  have h2 := hcfg.two_le
  have h3 := hcfg.le_three
  have hloop : DescentOutcome alloc cfg secure root rs m st
      (blockEntryLoop alloc rs levelFuel ⟨3 - cfg.rootBelow, 3 - m, root, 0⟩ st) :=
    blockEntryLoop_spec hcfg hfresh hrs (by rw [levelFuel]; omega) (le_trans hm h2) hinv hb
  have hvalid : ¬ (rs % 4096 ≠ 0 ∨ size % 4096 ≠ 0 ∨ size = 0) := by omega
  rw [getBlockEntryListFromAddress, if_neg hvalid]
  dsimp only
  rw [hlevel]
  dsimp only
  rw [blockEntryListAtLevel, hroot]
  generalize blockEntryLoop alloc rs levelFuel ⟨3 - cfg.rootBelow, 3 - m, root, 0⟩ st = r
    at hloop
  cases hloop with
  | failed refined inv failure => exact .failed refined inv failure
  | @found m' b' st' shape' level refined inv table slot =>
      have hpos : entryAddress b' m' rs ≠ 0 := by
        have := inv.wellShaped.base_pos table
        have := le_entryAddress b' m' rs
        omega
      have hcount : (if 3 - m' = 3 - cfg.rootBelow
          then (getRootTranslationTableInfo (st.tcr &&& tcrT0szMask)).2 else ttEntryCount) =
            entryCount cfg st m' := by
        rw [entryCount]
        exact if_congr (by omega) rfl rfl
      simp only [@ttAddressOffsetAtLevel_eq (3 - m') m' (by omega), one_shiftLeft_eq_blockSize,
        hcount]
      rw [if_neg (by omega), if_neg hpos]
      exact .found (by omega) (dvd_trans (blockSize_dvd level) hdvd)
        (le_trans (blockSize_le level) hfit) refined inv table slot

/-! ### The request that is never met

A region that starts at zero and is `2 ^ 48` bytes long has alignment 48, for which the
page level wraps below zero. The level loop then runs past the last level of the
architecture and reaches level five, whose offset is no shift count. -/

/-- A round above the page level goes one level down, and there is no round at level
five. -/
theorem blockEntryStep_advance {rs : ℕ} {d d' : Descent}
    (h : blockEntryStep alloc rs d st = (.ok (some d'), st')) (hlt : d.indexLevel < d.pageLevel) :
    d.indexLevel ≠ 5 ∧ d'.indexLevel = d.indexLevel + 1 ∧ d'.pageLevel = d.pageLevel := by
  rw [blockEntryStep] at h
  dsimp only at h
  by_cases hoff : 64 ≤ ttAddressOffsetAtLevel d.indexLevel
  · rw [if_pos hoff] at h
    simp at h
  rw [if_neg hoff] at h
  refine ⟨fun h5 => hoff (by rw [h5]; decide), ?_⟩
  have hne : d.indexLevel ≠ d.pageLevel := Nat.ne_of_lt hlt
  split at h
  · simp only [Prod.mk.injEq, Except.ok.injEq, Option.some.injEq] at h
    obtain ⟨rfl, -⟩ := h
    exact ⟨rfl, rfl⟩
  split at h
  · rw [splitBlockEntry] at h
    dsimp only [allocatePages] at h
    cases hpage : alloc st.allocCalls with
    | none => simp [hpage] at h
    | some page =>
        simp only [hpage] at h
        split at h
        · simp at h
        · simp only [Prod.mk.injEq, Except.ok.injEq, Option.some.injEq] at h
          obtain ⟨rfl, -⟩ := h
          exact ⟨rfl, rfl⟩
  · rw [addTable] at h
    dsimp only [allocatePages] at h
    cases hpage : alloc st.allocCalls with
    | none => simp [hpage] at h
    | some page =>
        simp only [hpage, Prod.mk.injEq, Except.ok.injEq, Option.some.injEq] at h
        obtain ⟨rfl, -⟩ := h
        exact ⟨rfl, rfl⟩

/-- The level loop does not return an entry for a page level past the last level. -/
theorem blockEntryLoop_ne_some {rs fuel : ℕ} :
    ∀ {d d' : Descent} {st st' : MmuState}, 5 < d.pageLevel → d.indexLevel ≤ 5 →
      blockEntryLoop alloc rs fuel d st ≠ (.ok (some d'), st') := by
  induction fuel with
  | zero =>
      intro d d' st st' _ _ h
      simp [blockEntryLoop] at h
  | succ fuel ih =>
      intro d d' st st' hpage hindex h
      rw [blockEntryLoop, if_neg (by omega)] at h
      cases hstep : blockEntryStep alloc rs d st with
      | mk r st₁ =>
          rw [hstep] at h
          match r with
          | .error e => simp at h
          | .ok none => simp at h
          | .ok (some d₁) =>
              obtain ⟨h5, hindex', hpage'⟩ := blockEntryStep_advance hstep (by omega)
              exact ih (by omega) (by omega) h

/-- A page level past the last level of the architecture never yields an entry. -/
theorem blockEntryListAtLevel_ne_some {info : ℕ × ℕ} {rs p : ℕ} {l : BlockEntryList}
    (hp : 5 < p) (hroot : info.1 ≤ 5) :
    blockEntryListAtLevel alloc info root rs p st ≠ (.ok (some l), st') := by
  intro h
  rw [blockEntryListAtLevel] at h
  generalize hloop : blockEntryLoop alloc rs levelFuel ⟨info.1, p, root, 0⟩ st = r at h
  obtain ⟨r, st₁⟩ := r
  match r with
  | .error e => simp at h
  | .ok none => simp at h
  | .ok (some d) => exact blockEntryLoop_ne_some hp hroot hloop

/-- The page level of the whole 48-bit range wraps. -/
theorem pageLevelLoop_wrapped :
    pageLevelLoop (2 ^ 48) levelFuel (alignmentPageLevel (lowBitSet64 (2 ^ 48))) =
      .ok (2 ^ 64 - 1) := by
  decide +kernel

/-- **No entry for the whole 48-bit range** at once. -/
theorem getBlockEntryListFromAddress_ne_some (hconf : Configured cfg st)
    {l : BlockEntryList} :
    getBlockEntryListFromAddress alloc root 0 (2 ^ 48) st ≠ (.ok (some l), st') := by
  intro h
  have hroot := hconf.root_level
  have hvalid : ¬ (0 % 4096 ≠ 0 ∨ 2 ^ 48 % 4096 ≠ 0 ∨ 2 ^ 48 = 0) := by decide
  rw [getBlockEntryListFromAddress, if_neg hvalid] at h
  dsimp only at h
  rw [if_pos rfl, pageLevelLoop_wrapped] at h
  exact blockEntryListAtLevel_ne_some (by omega) (by omega) h

end Msm8998
