import Msm8998.TableWalk

/-!
# Well-Shaped Tables

The invariant of the page table code. A `Shape` records which table serves which part of
the address space: `shape n p` is the base of the table that has `n` levels below it and
serves the addresses `x` with `x / blockSize (n + 1) = p`. `WellShaped` says that memory
realises the shape: every entry either points to the table the shape gives for it or is
a leaf that maps its block to itself, and no two tables share a page.

The shape makes tables comparable by their position rather than by following pointers:
two entries have the same memory address only when they are the same entry of the same
table (`WellShaped.entry_unique`). From that come the two frame rules that the proofs
about the code rest on,

* `WellShaped.write_leaf`: overwriting a leaf changes the leaf of the addresses it serves
  and of no other;
* `WellShaped.hang`, of the next module: hanging a fresh table of leaves below a leaf entry replaces the
  leaf of the addresses the entry serves, and no other, by those of the new table.

The proposition `secure` says that no descriptor uses the non-secure bit or restricts
the levels below it; it is carried along as a parameter, so that the same invariant
covers the tables `ArmConfigureMmu` builds and those with non-secure mappings.
-/

namespace Msm8998

/-- Which table serves which addresses. -/
abbrev Shape := ℕ → ℕ → Option ℕ

/-- A leaf entry at `n` levels above the last one that serves the address `x`: invalid, or
valid and mapping its block to itself. -/
structure LeafOk (secure : Prop) (n x w : ℕ) : Prop where
  identity : w &&& ttTypeMask = 0 ∨
    (Leaf.Valid ⟨n, w, 0⟩ ∧ w &&& ttAddressMaskBlockEntry = x / blockSize n * blockSize n)
  notNs : secure → w &&& ttNs = 0

/-- A table entry that points to the table at `base`. -/
structure TableOk (secure : Prop) (w base : ℕ) : Prop where
  type : w &&& ttTypeMask = ttTypeTableEntry
  address : w &&& ttAddressMaskDescriptionTable = base
  unrestricted : secure → w &&& ttTableAttributesMask = 0

/-- A configuration of the architecture with two or more levels below the root: the root
table serves every address of the range, and the range is at most 48 bits wide. -/
structure WalkConfig.Ok (cfg : WalkConfig) : Prop where
  two_le : 2 ≤ cfg.rootBelow
  le_three : cfg.rootBelow ≤ 3
  width_le : cfg.width ≤ 48
  serves : 2 ^ cfg.width ≤ blockSize (cfg.rootBelow + 1)

/-- A shape is a tree of distinct pages rooted at `root`, each table hanging below one that
serves a larger part of the same addresses. -/
structure ShapeOk (cfg : WalkConfig) (root : ℕ) (shape : Shape) : Prop where
  root_eq : shape cfg.rootBelow 0 = some root
  below_le : ∀ {n p b}, shape n p = some b → n ≤ cfg.rootBelow
  in_range : ∀ {n p b}, shape n p = some b → p * blockSize (n + 1) < 2 ^ cfg.width
  base_pos : ∀ {n p b}, shape n p = some b → 0 < b
  aligned : ∀ {n p b}, shape n p = some b → 4096 ∣ b
  base_lt : ∀ {n p b}, shape n p = some b → b < 2 ^ 48
  inj : ∀ {n p m q b}, shape n p = some b → shape m q = some b → n = m ∧ p = q
  parent : ∀ {n x c}, x < 2 ^ cfg.width → shape n (x / blockSize (n + 1)) = some c →
    n < cfg.rootBelow → ∃ b, shape (n + 1) (x / blockSize (n + 2)) = some b

/-- **The table invariant**: memory realises the shape, with identity mapped leaves. -/
structure WellShaped (cfg : WalkConfig) (secure : Prop) (memory : ℕ → ℕ) (root : ℕ)
    (shape : Shape) : Prop extends ShapeOk cfg root shape where
  page : ∀ {x b}, x < 2 ^ cfg.width → shape 0 (x / blockSize 1) = some b →
    LeafOk secure 0 x (memory (entryAddress b 0 x))
  entry : ∀ {n x b}, x < 2 ^ cfg.width → shape (n + 1) (x / blockSize (n + 2)) = some b →
    (∃ c, shape n (x / blockSize (n + 1)) = some c ∧
        TableOk secure (memory (entryAddress b (n + 1) x)) c) ∨
      (shape n (x / blockSize (n + 1)) = none ∧
        LeafOk secure (n + 1) x (memory (entryAddress b (n + 1) x)))

/-- The entry for `x` at this level is a leaf: the shape has no table below it. -/
def IsLeafSlot (shape : Shape) (n x : ℕ) : Prop :=
  ∀ m, n = m + 1 → shape m (x / blockSize (m + 1)) = none

variable {cfg : WalkConfig} {secure : Prop} {memory memory' : ℕ → ℕ} {root : ℕ}
  {shape : Shape}

/-! ### Leaves -/

/-- Only the quotient by the block size matters to a leaf entry. -/
theorem LeafOk.congr {n x y w : ℕ} (h : LeafOk secure n x w)
    (hxy : y / blockSize n = x / blockSize n) : LeafOk secure n y w := by
  refine ⟨?_, h.notNs⟩
  rw [hxy]
  exact h.identity

/-- A leaf entry is not a table entry. -/
theorem LeafOk.not_table {n x w : ℕ} (h : LeafOk secure n x w) :
    n = 0 ∨ w &&& ttTypeMask ≠ ttTypeTableEntry := by
  rcases h.identity with hinv | ⟨⟨h0, -⟩ | ⟨-, hblock⟩, -⟩
  · right
    rw [hinv]
    decide
  · exact Or.inl h0
  · right
    rw [hblock]
    decide

/-- The zero word is a leaf entry anywhere. -/
theorem leafOk_zero (secure : Prop) (n x : ℕ) : LeafOk secure n x 0 :=
  ⟨Or.inl (Nat.zero_and _), fun _ => Nat.zero_and _⟩

/-- A valid identity leaf translates every address it serves to itself. -/
theorem translate_identity {n x w t : ℕ} (hvalid : Leaf.Valid ⟨n, w, 0⟩)
    (haddr : w &&& ttAddressMaskBlockEntry = x / blockSize n * blockSize n) :
    translate x ⟨n, w, t⟩ = some ⟨x, hierarchical t (w &&& ttAttributesMask)⟩ := by
  have hvalid' : Leaf.Valid ⟨n, w, t⟩ := hvalid
  rw [translate, if_pos hvalid']
  simp only [haddr, Nat.mul_div_cancel _ (blockSize_pos n), Nat.div_add_mod']

/-- An invalid leaf translates nothing. -/
theorem translate_invalid {n x w t : ℕ} (h : w &&& ttTypeMask = 0) :
    translate x ⟨n, w, t⟩ = none := by
  have hinv : ¬ Leaf.Valid ⟨n, w, t⟩ := by
    rintro (⟨-, h'⟩ | ⟨-, h'⟩)
    · rw [h] at h'
      exact absurd h' (by decide)
    · rw [h] at h'
      exact absurd h' (by decide)
  rw [translate, if_neg hinv]

/-! ### Positions of entries -/

/-- An entry lies inside the page of its table. -/
theorem entryAddress_lt (b n x : ℕ) : entryAddress b n x < b + 4096 := by
  have : x / blockSize n % 512 < 512 := Nat.mod_lt _ (by decide)
  rw [entryAddress]
  omega

/-- An entry does not lie in front of its table. -/
theorem le_entryAddress (b n x : ℕ) : b ≤ entryAddress b n x := Nat.le_add_right _ _

/-- Entries of page-aligned tables share an address only if table and index agree. -/
theorem entryAddress_inj {b b' n m x y : ℕ} (hb : 4096 ∣ b) (hb' : 4096 ∣ b')
    (h : entryAddress b' m y = entryAddress b n x) :
    b' = b ∧ y / blockSize m % 512 = x / blockSize n % 512 := by
  have h1 : x / blockSize n % 512 < 512 := Nat.mod_lt _ (by decide)
  have h2 : y / blockSize m % 512 < 512 := Nat.mod_lt _ (by decide)
  rw [entryAddress, entryAddress] at h
  omega

/-- Two addresses with the same table and the same index in it have the same entry. -/
theorem quotient_eq {n x y : ℕ} (hp : y / blockSize (n + 1) = x / blockSize (n + 1))
    (hi : y / blockSize n % 512 = x / blockSize n % 512) :
    y / blockSize n = x / blockSize n := by
  rw [div_blockSize_succ, div_blockSize_succ] at hp
  omega

/-- Addresses with the same entry at one level have the same entry at every level above. -/
theorem quotient_eq_of_le {n m x y : ℕ} (hnm : n ≤ m)
    (h : y / blockSize n = x / blockSize n) : y / blockSize m = x / blockSize m := by
  induction m, hnm using Nat.le_induction with
  | base => exact h
  | succ m _ ih => rw [div_blockSize_succ, div_blockSize_succ, ih]

/-- The entry of an address, its table being served by the same prefix. -/
theorem entryAddress_congr {b n x y : ℕ} (h : y / blockSize n = x / blockSize n) :
    entryAddress b n y = entryAddress b n x := by
  rw [entryAddress, entryAddress, h]

/-- **Entries are unique**: two entries of the tree at the same memory address are the
same entry of the same table. -/
theorem ShapeOk.entry_unique (h : ShapeOk cfg root shape) {n m x y b b' : ℕ}
    (hb : shape n (x / blockSize (n + 1)) = some b)
    (hb' : shape m (y / blockSize (m + 1)) = some b')
    (haddr : entryAddress b' m y = entryAddress b n x) :
    m = n ∧ y / blockSize n = x / blockSize n := by
  obtain ⟨rfl, hindex⟩ := entryAddress_inj (h.aligned hb) (h.aligned hb') haddr
  obtain ⟨rfl, hserves⟩ := h.inj hb' hb
  exact ⟨rfl, quotient_eq hserves hindex⟩

namespace WellShaped

/-- The root table serves every address of the range. -/
theorem div_root_eq_zero (hcfg : cfg.Ok) {x : ℕ} (hx : x < 2 ^ cfg.width) :
    x / blockSize (cfg.rootBelow + 1) = 0 :=
  Nat.div_eq_of_lt (lt_of_lt_of_le hx hcfg.serves)

/-! ### Frame rules for the walk -/

/-- A walk only reads the entries for its own address, so it does not see a change of
memory elsewhere. -/
theorem locate_congr (h : WellShaped cfg secure memory root shape) {x : ℕ}
    (hx : x < 2 ^ cfg.width)
    (hagree : ∀ m b, shape m (x / blockSize (m + 1)) = some b →
      memory' (entryAddress b m x) = memory (entryAddress b m x)) :
    ∀ {n b t : ℕ}, shape n (x / blockSize (n + 1)) = some b →
      locate memory' x n b t = locate memory x n b t := by
  intro n
  induction n with
  | zero =>
      intro b t hb
      rw [locate, locate, hagree 0 b hb]
  | succ n ih =>
      intro b t hb
      have hread := hagree (n + 1) b hb
      rcases h.entry hx hb with ⟨c, hc, htab⟩ | ⟨-, hleaf⟩
      · rw [locate_table hread htab.type, locate_table rfl htab.type, htab.address]
        exact ih hc
      · rw [locate_leaf hleaf.not_table, locate_leaf (hread ▸ hleaf.not_table), hread]

/-- In a secure table a walk collects no attributes. -/
theorem locate_tableAttributes (h : WellShaped cfg secure memory root shape) (hs : secure) {x : ℕ}
    (hx : x < 2 ^ cfg.width) :
    ∀ {n b t : ℕ}, shape n (x / blockSize (n + 1)) = some b →
      (locate memory x n b t).tableAttributes = t := by
  intro n
  induction n with
  | zero =>
      intro b t _
      rfl
  | succ n ih =>
      intro b t hb
      rcases h.entry hx hb with ⟨c, hc, htab⟩ | ⟨-, hleaf⟩
      · rw [locate_table rfl htab.type, htab.address, ih hc, htab.unrestricted hs, Nat.or_zero]
      · rw [locate_leaf hleaf.not_table]

/-- A secure table has no restrictions. -/
theorem restrictions_eq_zero (h : WellShaped cfg secure memory root shape) (hcfg : cfg.Ok)
    (hs : secure) (x : ℕ) : restrictions cfg memory root x = 0 := by
  rw [restrictions]
  by_cases hx : x < 2 ^ cfg.width
  · have hroot : shape cfg.rootBelow (x / blockSize (cfg.rootBelow + 1)) = some root := by
      rw [div_root_eq_zero hcfg hx, h.root_eq]
    rw [if_pos hx, h.locate_tableAttributes hs hx hroot, Nat.zero_and]
  · rw [if_neg hx]

/-- The walk of an address passes through every table that serves it. The attributes
collected on the way depend only on the entries above the table. -/
theorem locate_reach (h : WellShaped cfg secure memory root shape) (hcfg : cfg.Ok) {x : ℕ}
    (hx : x < 2 ^ cfg.width) :
    ∀ {k n b : ℕ}, n + k = cfg.rootBelow → shape n (x / blockSize (n + 1)) = some b →
      ∃ t, (secure → t = 0) ∧ ∀ memory' : ℕ → ℕ,
        (∀ m b', n < m → shape m (x / blockSize (m + 1)) = some b' →
          memory' (entryAddress b' m x) = memory (entryAddress b' m x)) →
        locate memory' x cfg.rootBelow root 0 = locate memory' x n b t := by
  intro k
  induction k with
  | zero =>
      intro n b hn hb
      obtain rfl : n = cfg.rootBelow := hn
      rw [div_root_eq_zero hcfg hx, h.root_eq] at hb
      obtain rfl : root = b := Option.some.inj hb
      exact ⟨0, fun _ => rfl, fun _ _ => rfl⟩
  | succ k ih =>
      intro n b hn hb
      obtain ⟨pb, hpb⟩ := h.parent hx hb (by omega)
      obtain ⟨t, ht, hreach⟩ := ih (n := n + 1) (by omega) hpb
      rcases h.entry hx hpb with ⟨c, hc, htab⟩ | ⟨hnone, -⟩
      · obtain rfl : c = b := Option.some.inj (hc.symm.trans hb)
        refine ⟨t ||| (memory (entryAddress pb (n + 1) x) &&& ttTableAttributesMask), ?_, ?_⟩
        · intro hs
          rw [ht hs, htab.unrestricted hs, Nat.or_zero]
        · intro memory' hagree
          rw [hreach memory' fun m b' hm hb' => hagree m b' (by omega) hb',
            locate_table (hagree (n + 1) pb (by omega) hpb) htab.type, htab.address]
      · rw [hb] at hnone
        exact absurd hnone (by simp)

/-- A leaf entry is where the walk of each address it serves ends. -/
theorem locate_slot (h : WellShaped cfg secure memory root shape) (hcfg : cfg.Ok)
    {n x b : ℕ} (hx : x < 2 ^ cfg.width) (hb : shape n (x / blockSize (n + 1)) = some b)
    (hslot : IsLeafSlot shape n x) :
    LeafOk secure n x (memory (entryAddress b n x)) ∧
      ∃ t, (secure → t = 0) ∧ ∀ memory' : ℕ → ℕ,
        (∀ m b', n < m → shape m (x / blockSize (m + 1)) = some b' →
          memory' (entryAddress b' m x) = memory (entryAddress b' m x)) →
        locate memory' x cfg.rootBelow root 0 = locate memory' x n b t := by
  refine ⟨?_, h.locate_reach hcfg hx (k := cfg.rootBelow - n) ?_ hb⟩
  · cases n with
    | zero => exact h.page hx hb
    | succ n =>
        rcases h.entry hx hb with ⟨c, hc, -⟩ | ⟨-, hleaf⟩
        · rw [hslot n rfl] at hc
          exact absurd hc (by simp)
        · exact hleaf
  · have := h.below_le hb
    omega

/-! ### Overwriting a leaf -/

/-- The table invariant survives a new word in a leaf entry. -/
theorem write_leaf (h : WellShaped cfg secure memory root shape) {n x b w : ℕ}
    (hb : shape n (x / blockSize (n + 1)) = some b) (hslot : IsLeafSlot shape n x)
    (hw : LeafOk secure n x w)
    (hmem : ∀ a, memory' a = if a = entryAddress b n x then w else memory a) :
    WellShaped cfg secure memory' root shape where
  toShapeOk := h.toShapeOk
  page := by
    intro y b' hy hb'
    rw [hmem]
    by_cases haddr : entryAddress b' 0 y = entryAddress b n x
    · obtain ⟨rfl, hq⟩ := h.entry_unique hb hb' haddr
      rw [if_pos haddr]
      exact hw.congr hq
    · rw [if_neg haddr]
      exact h.page hy hb'
  entry := by
    intro m y b' hy hb'
    rw [hmem]
    by_cases haddr : entryAddress b' (m + 1) y = entryAddress b n x
    · obtain ⟨rfl, hq⟩ := h.entry_unique hb hb' haddr
      rw [if_pos haddr]
      exact Or.inr ⟨hq ▸ hslot m rfl, hw.congr hq⟩
    · rw [if_neg haddr]
      exact h.entry hy hb'

/-- A new word in a leaf entry leaves the leaf of every other address alone. -/
theorem locate_write_leaf_of_ne (h : WellShaped cfg secure memory root shape) (hcfg : cfg.Ok)
    {n x y b w : ℕ} (hy : y < 2 ^ cfg.width)
    (hb : shape n (x / blockSize (n + 1)) = some b)
    (hmem : ∀ a, memory' a = if a = entryAddress b n x then w else memory a)
    (hne : y / blockSize n ≠ x / blockSize n) :
    locate memory' y cfg.rootBelow root 0 = locate memory y cfg.rootBelow root 0 := by
  refine h.locate_congr hy ?_ (by rw [div_root_eq_zero hcfg hy]; exact h.root_eq)
  intro m b' hb'
  have haddr : entryAddress b' m y ≠ entryAddress b n x :=
    fun haddr => hne (h.entry_unique hb hb' haddr).2
  rw [hmem, if_neg haddr]

/-- A new word in a leaf entry becomes the leaf of every address the entry serves, under
the same table attributes as before. -/
theorem locate_write_leaf (h : WellShaped cfg secure memory root shape) (hcfg : cfg.Ok)
    {n x y b w : ℕ} (hy : y < 2 ^ cfg.width)
    (hb : shape n (x / blockSize (n + 1)) = some b) (hslot : IsLeafSlot shape n x)
    (hw : LeafOk secure n x w)
    (hmem : ∀ a, memory' a = if a = entryAddress b n x then w else memory a)
    (hq : y / blockSize n = x / blockSize n) :
    ∃ t, (secure → t = 0) ∧
      locate memory y cfg.rootBelow root 0 = ⟨n, memory (entryAddress b n x), t⟩ ∧
      locate memory' y cfg.rootBelow root 0 = ⟨n, w, t⟩ := by
  have hb' : shape n (y / blockSize (n + 1)) = some b := by
    rw [quotient_eq_of_le (Nat.le_succ n) hq]
    exact hb
  have hslot' : IsLeafSlot shape n y := by
    intro m hm
    subst hm
    rw [hq]
    exact hslot m rfl
  obtain ⟨hleaf, t, ht, hreach⟩ := h.locate_slot hcfg hy hb' hslot'
  have hread : memory' (entryAddress b n y) = w := by
    rw [hmem, if_pos (entryAddress_congr hq)]
  have habove : ∀ m b', n < m → shape m (y / blockSize (m + 1)) = some b' →
      memory' (entryAddress b' m y) = memory (entryAddress b' m y) := by
    intro m b' hm hmb
    have haddr : entryAddress b' m y ≠ entryAddress b n x := fun haddr => by
      have := (h.entry_unique hb hmb haddr).1
      omega
    rw [hmem, if_neg haddr]
  refine ⟨t, ht, ?_, ?_⟩
  · rw [hreach memory fun _ _ _ _ => rfl, locate_leaf hleaf.not_table, entryAddress_congr hq]
  · rw [hreach memory' habove, locate_leaf (hread ▸ hw.not_table), hread]

end WellShaped

end Msm8998
