import Msm8998.PageDescriptor
import Mathlib.Tactic.Ring

/-!
# The Hardware Walk

What a translation table in memory means: the stage 1 walk of the ARMv8 architecture
with a 4 KiB granule. A level is counted by the number `n` of levels below it, so an
entry of that level spans `blockSize n = 2 ^ (12 + 9 * n)` bytes and the levels of the
architecture are `3 - n`. A walk ends at an invalid entry, at a block of level one or
two, or at a page of level three; there are no blocks at level zero, and the type of a
level three entry is the one that means a table higher up.

Attribute bits of the table descriptors on the way restrict the attributes of the leaf
(`hierarchical`). The library only ever sets the non-secure one, and leaves all of them
clear for secure regions.

The walk is split into the search for the leaf (`locate`) and the reading of the leaf
(`translate`), since the page table code moves the leaf of an address around without
changing what it says.
-/

namespace Msm8998

/-- The span of one entry of a table with `n` levels below it. -/
def blockSize (n : ℕ) : ℕ := 2 ^ (12 + 9 * n)

/-- No block is empty. -/
theorem blockSize_pos (n : ℕ) : 0 < blockSize n := Nat.two_pow_pos _

/-- A table of 512 entries spans one entry of the level above. -/
theorem blockSize_succ (n : ℕ) : blockSize (n + 1) = blockSize n * 512 := by
  rw [blockSize, blockSize, show 12 + 9 * (n + 1) = 12 + 9 * n + 9 by ring, Nat.pow_add]

/-- The table index of the level above is the index below it without its last digit. -/
theorem div_blockSize_succ (x n : ℕ) : x / blockSize (n + 1) = x / blockSize n / 512 := by
  rw [blockSize_succ, Nat.div_div_eq_div_mul]

/-- Smaller blocks divide larger ones. -/
theorem blockSize_dvd {m n : ℕ} (h : m ≤ n) : blockSize m ∣ blockSize n :=
  Nat.pow_dvd_pow 2 (by omega)

/-- Every block is a whole number of pages. -/
theorem page_dvd_blockSize (n : ℕ) : 4096 ∣ blockSize n :=
  blockSize_dvd (m := 0) (Nat.zero_le n)

/-- With more levels below it a block is no smaller. -/
theorem blockSize_le {m n : ℕ} (h : m ≤ n) : blockSize m ≤ blockSize n :=
  Nat.le_of_dvd (blockSize_pos n) (blockSize_dvd h)

/-- The entry size of a level, as the source shifts it. -/
theorem one_shiftLeft_eq_blockSize (n : ℕ) : 1 <<< (12 + 9 * n) = blockSize n := by
  rw [Nat.one_shiftLeft, blockSize]

/-- The address of the entry for `x` in the table at `base` with `n` levels below it. -/
def entryAddress (base n x : ℕ) : ℕ := base + x / blockSize n % 512 * 8

/-! ### Finding the leaf -/

/-- The leaf of an address: the levels below it, its descriptor word, and the attribute
bits collected from the table descriptors above it. -/
structure Leaf where
  below : ℕ
  word : ℕ
  tableAttributes : ℕ
deriving Repr, DecidableEq

/-- Follow table descriptors from the table at `base` with `n` levels below it. -/
def locate (memory : ℕ → ℕ) (x : ℕ) : ℕ → ℕ → ℕ → Leaf
  | 0, base, attrs => ⟨0, memory (entryAddress base 0 x), attrs⟩
  | n + 1, base, attrs =>
      let w := memory (entryAddress base (n + 1) x)
      if w &&& ttTypeMask = ttTypeTableEntry then
        locate memory x n (w &&& ttAddressMaskDescriptionTable)
          (attrs ||| (w &&& ttTableAttributesMask))
      else ⟨n + 1, w, attrs⟩

/-- The search stops where the entry is not a table. -/
theorem locate_leaf {memory : ℕ → ℕ} {x n base attrs : ℕ}
    (h : n = 0 ∨ memory (entryAddress base n x) &&& ttTypeMask ≠ ttTypeTableEntry) :
    locate memory x n base attrs = ⟨n, memory (entryAddress base n x), attrs⟩ := by
  cases n with
  | zero => rfl
  | succ n =>
      rcases h with h | h
      · exact absurd h (Nat.succ_ne_zero n)
      · rw [locate, if_neg h]

/-- The search descends where the entry is a table. -/
theorem locate_table {memory : ℕ → ℕ} {x n base attrs w : ℕ}
    (hw : memory (entryAddress base (n + 1) x) = w)
    (htype : w &&& ttTypeMask = ttTypeTableEntry) :
    locate memory x (n + 1) base attrs =
      locate memory x n (w &&& ttAddressMaskDescriptionTable)
        (attrs ||| (w &&& ttTableAttributesMask)) := by
  rw [locate, hw, if_pos htype]

/-! ### Reading the leaf -/

/-- The result of a successful walk. -/
structure Translation where
  outputAddress : ℕ
  attributes : ℕ
deriving Repr, DecidableEq

/-- A leaf that translates: a page at the last level, a block at the two levels above. -/
def Leaf.Valid (l : Leaf) : Prop :=
  (l.below = 0 ∧ l.word &&& ttTypeMask = ttTypeBlockEntryLevel3) ∨
    ((l.below = 1 ∨ l.below = 2) ∧ l.word &&& ttTypeMask = ttTypeBlockEntry)

instance (l : Leaf) : Decidable l.Valid := inferInstanceAs (Decidable (_ ∨ _))

/-- Hierarchical control: the table attribute bits are, from bit 59 up, `PXNTable`,
`XNTable`, the two bits of `APTable` and `NSTable`. `PXNTable`, `XNTable`, `NSTable` and
the upper `APTable` bit force the leaf bit they restrict; the lower `APTable` bit takes
unprivileged access away. -/
def hierarchical (tableAttributes attrs : ℕ) : ℕ :=
  let force (bit leafBit : ℕ) : ℕ := if tableAttributes.testBit bit then 1 <<< leafBit else 0
  let attrs :=
    if tableAttributes.testBit 61 then attrs &&& (0xFFFFFFFFFFFFFFFF ^^^ 1 <<< 6) else attrs
  attrs ||| force 59 53 ||| force 60 54 ||| force 62 7 ||| force 63 5

@[simp] theorem hierarchical_zero (attrs : ℕ) : hierarchical 0 attrs = attrs := by
  simp [hierarchical]

/-- Read a leaf at an address. -/
def translate (x : ℕ) (l : Leaf) : Option Translation :=
  if l.Valid then
    some ⟨(l.word &&& ttAddressMaskBlockEntry) / blockSize l.below * blockSize l.below
        + x % blockSize l.below,
      hierarchical l.tableAttributes (l.word &&& ttAttributesMask)⟩
  else none

/-- The translation control of a table: the number of levels below the root, and the
width of the virtual address range in bits. -/
structure WalkConfig where
  rootBelow : ℕ
  width : ℕ
deriving Repr, DecidableEq

/-- The configuration that `T0SZ` selects. -/
def WalkConfig.ofT0sz (t0sz : ℕ) : WalkConfig := ⟨3 - (t0sz - 16) / 9, 64 - t0sz⟩

/-- **The hardware walk** of the table at `root`: addresses beyond the configured range
fault, the others are translated by their leaf. -/
def walk (cfg : WalkConfig) (memory : ℕ → ℕ) (root x : ℕ) : Option Translation :=
  if x < 2 ^ cfg.width then translate x (locate memory x cfg.rootBelow root 0) else none

/-- The table attributes that restrict permissions: `PXNTable`, `XNTable` and `APTable`. -/
def restrictionMask : ℕ := 0xF <<< 59

/-- **The restrictions of an address**: those of the table descriptors that its walk goes
through. -/
def restrictions (cfg : WalkConfig) (memory : ℕ → ℕ) (root x : ℕ) : ℕ :=
  if x < 2 ^ cfg.width then
    (locate memory x cfg.rootBelow root 0).tableAttributes &&& restrictionMask
  else 0

end Msm8998
