import Msm8998.TableShape

/-!
# Refining a Table

The second frame rule of well-shaped tables: hanging a fresh table below a leaf entry.
`WellShaped.hang` keeps the invariant and `WellShaped.locate_hang` says what it does to
the leaves: those of the addresses the entry serves are replaced by the entries of the
new table, and all others stay.

The two refinements of the source are instances, and neither of them is visible to a
walk: a block is replaced by 512 smaller blocks with the same attributes
(`WellShaped.hang_split`), and an invalid entry by a table of invalid entries
(`WellShaped.hang_zero`).
-/

open BitMask

namespace Msm8998

/-- The shape with one more table. -/
def Shape.hang (shape : Shape) (n p page : ℕ) : Shape := fun m q =>
  if m = n ∧ q = p then some page else shape m q

/-- A page that can serve as a table and is not one yet. -/
structure FreshPage (shape : Shape) (page : ℕ) : Prop where
  pos : 0 < page
  aligned : 4096 ∣ page
  lt : page < 2 ^ 48
  unused : ∀ {n p b}, shape n p = some b → b ≠ page

/-- The memory after `memory` in which the page at `page` holds the table `f` and the entry
at `entry` holds `w`. -/
def hangMemory (memory : ℕ → ℕ) (page : ℕ) (f : ℕ → ℕ) (entry w : ℕ) : ℕ → ℕ := fun a =>
  if a = entry then w
  else if page ≤ a ∧ a < page + 512 * 8 ∧ (a - page) % 8 = 0 then f ((a - page) / 8)
  else memory a

variable {cfg : WalkConfig} {secure : Prop} {memory : ℕ → ℕ} {root : ℕ} {shape : Shape}

/-- A table of the new shape is the new table or an old one. -/
theorem Shape.hang_eq_some {n p page m q b : ℕ} (h : shape.hang n p page m q = some b) :
    (m = n ∧ q = p ∧ b = page) ∨ (¬ (m = n ∧ q = p) ∧ shape m q = some b) := by
  rw [Shape.hang] at h
  split at h
  · rename_i hc
    exact Or.inl ⟨hc.1, hc.2, (Option.some.inj h).symm⟩
  · rename_i hc
    exact Or.inr ⟨hc, h⟩

@[simp] theorem Shape.hang_self (n p page : ℕ) : shape.hang n p page n p = some page := by
  simp [Shape.hang]

/-- Elsewhere the shape of the tables is as before. -/
theorem Shape.hang_of_ne {n p page m q : ℕ} (h : ¬ (m = n ∧ q = p)) :
    shape.hang n p page m q = shape m q := if_neg h

/-- Above the level of the new table the shape is the old one. -/
theorem Shape.hang_of_lt {n p page m q : ℕ} (h : n < m) :
    shape.hang n p page m q = shape m q :=
  Shape.hang_of_ne fun hc => absurd hc.1 (Nat.ne_of_gt h)

/-- The memory of an entry of the new table. -/
theorem hangMemory_new {page entry w n y : ℕ} {f : ℕ → ℕ}
    (hne : entryAddress page n y ≠ entry) :
    hangMemory memory page f entry w (entryAddress page n y) =
      f (y / blockSize n % 512) := by
  have hlt : y / blockSize n % 512 < 512 := Nat.mod_lt _ (by omega)
  rw [hangMemory, if_neg hne, if_pos]
  · congr 1
    rw [entryAddress]
    omega
  · rw [entryAddress]
    omega

/-- The memory of an entry of another table. -/
theorem hangMemory_old {page entry w n y b : ℕ} {f : ℕ → ℕ} (hb : 4096 ∣ b)
    (hpage : 4096 ∣ page) (hbp : b ≠ page) (hne : entryAddress b n y ≠ entry) :
    hangMemory memory page f entry w (entryAddress b n y) = memory (entryAddress b n y) := by
  have h1 := entryAddress_lt b n y
  have h2 := le_entryAddress b n y
  rw [hangMemory, if_neg hne, if_neg]
  omega

/-- The block of an entry starts inside the range when the entry serves an address of it. -/
theorem quotient_mul_lt {n x w : ℕ} (hx : x < w) : x / blockSize n * blockSize n < w :=
  lt_of_le_of_lt (Nat.div_mul_le_self x _) hx

namespace ShapeOk

/-- A table cannot hang below a missing one. -/
theorem none_below (h : ShapeOk cfg root shape) {n y : ℕ} (hy : y < 2 ^ cfg.width)
    (hn : n + 1 ≤ cfg.rootBelow) (hnone : shape (n + 1) (y / blockSize (n + 2)) = none) :
    shape n (y / blockSize (n + 1)) = none := by
  cases hc : shape n (y / blockSize (n + 1)) with
  | none => rfl
  | some c =>
      obtain ⟨b, hb⟩ := h.parent hy hc (by omega)
      rw [hnone] at hb
      exact absurd hb (by simp)

/-- The shape stays a tree of distinct pages when a fresh page is hung below an entry. -/
theorem hang (h : ShapeOk cfg root shape) {n x b page : ℕ} (hx : x < 2 ^ cfg.width)
    (hb : shape (n + 1) (x / blockSize (n + 2)) = some b) (hfresh : FreshPage shape page) :
    ShapeOk cfg root (shape.hang n (x / blockSize (n + 1)) page) where
  root_eq := by
    have := h.below_le hb
    rw [Shape.hang_of_lt (by omega)]
    exact h.root_eq
  below_le := by
    intro m p c hc
    have := h.below_le hb
    rcases Shape.hang_eq_some hc with ⟨rfl, -, -⟩ | ⟨-, hold⟩
    · omega
    · exact h.below_le hold
  in_range := by
    intro m p c hc
    rcases Shape.hang_eq_some hc with ⟨rfl, rfl, -⟩ | ⟨-, hold⟩
    · exact quotient_mul_lt hx
    · exact h.in_range hold
  base_pos := by
    intro m p c hc
    rcases Shape.hang_eq_some hc with ⟨-, -, rfl⟩ | ⟨-, hold⟩
    · exact hfresh.pos
    · exact h.base_pos hold
  aligned := by
    intro m p c hc
    rcases Shape.hang_eq_some hc with ⟨-, -, rfl⟩ | ⟨-, hold⟩
    · exact hfresh.aligned
    · exact h.aligned hold
  base_lt := by
    intro m p c hc
    rcases Shape.hang_eq_some hc with ⟨-, -, rfl⟩ | ⟨-, hold⟩
    · exact hfresh.lt
    · exact h.base_lt hold
  inj := by
    intro m p m' p' c hc hc'
    rcases Shape.hang_eq_some hc with ⟨rfl, rfl, rfl⟩ | ⟨-, hold⟩
    · rcases Shape.hang_eq_some hc' with ⟨rfl, rfl, -⟩ | ⟨-, hold'⟩
      · exact ⟨rfl, rfl⟩
      · exact absurd rfl (hfresh.unused hold')
    · rcases Shape.hang_eq_some hc' with ⟨-, -, rfl⟩ | ⟨-, hold'⟩
      · exact absurd rfl (hfresh.unused hold)
      · exact h.inj hold hold'
  parent := by
    intro m y c hy hc hm
    have hold : ∃ a, shape (m + 1) (y / blockSize (m + 2)) = some a := by
      rcases Shape.hang_eq_some hc with ⟨rfl, hq, -⟩ | ⟨-, hold⟩
      · exact ⟨b, by rw [quotient_eq_of_le (Nat.le_succ _) hq]; exact hb⟩
      · exact h.parent hy hold hm
    obtain ⟨a, ha⟩ := hold
    by_cases hself : m + 1 = n ∧ y / blockSize (m + 2) = x / blockSize (n + 1)
    · exact ⟨page, by rw [Shape.hang, if_pos hself]⟩
    · exact ⟨a, by rw [Shape.hang_of_ne hself]; exact ha⟩

end ShapeOk

namespace WellShaped

/-- **Hanging a table** below a leaf entry keeps the table invariant, when the new table
holds leaf entries for the block that the entry served. -/
theorem hang (h : WellShaped cfg secure memory root shape) {n x b page w : ℕ} {f : ℕ → ℕ}
    (hx : x < 2 ^ cfg.width) (hb : shape (n + 1) (x / blockSize (n + 2)) = some b)
    (hnone : shape n (x / blockSize (n + 1)) = none) (hfresh : FreshPage shape page)
    (hw : TableOk secure w page)
    (hf : ∀ y, y / blockSize (n + 1) = x / blockSize (n + 1) →
      LeafOk secure n y (f (y / blockSize n % 512))) :
    WellShaped cfg secure (hangMemory memory page f (entryAddress b (n + 1) x) w) root
      (shape.hang n (x / blockSize (n + 1)) page) := by
  have hok := h.toShapeOk.hang hx hb hfresh
  -- the entries of the new table hold `f`
  have hnew : ∀ y, hangMemory memory page f (entryAddress b (n + 1) x) w
      (entryAddress page n y) = f (y / blockSize n % 512) := by
    intro y
    refine hangMemory_new fun haddr => ?_
    exact hfresh.unused hb (entryAddress_inj (h.aligned hb) hfresh.aligned haddr).1.symm
  refine { toShapeOk := hok, page := ?_, entry := ?_ }
  · intro y c hy hc
    rcases Shape.hang_eq_some hc with ⟨rfl, hq, rfl⟩ | ⟨-, hold⟩
    · rw [hnew]
      exact hf y hq
    · have hne : entryAddress c 0 y ≠ entryAddress b (n + 1) x := fun haddr => by
        have := (h.entry_unique hb hold haddr).1
        omega
      rw [hangMemory_old (h.aligned hold) hfresh.aligned (hfresh.unused hold) hne]
      exact h.page hy hold
  · intro m y c hy hc
    rcases Shape.hang_eq_some hc with ⟨rfl, hq, rfl⟩ | ⟨-, hold⟩
    · -- nothing hangs below the new table
      right
      have hbelow : m + 1 ≤ cfg.rootBelow := by
        have := h.below_le hb
        omega
      rw [hnew, Shape.hang_of_ne (by omega)]
      refine ⟨h.none_below hy hbelow ?_, hf y hq⟩
      rw [hq]
      exact hnone
    · by_cases haddr : entryAddress c (m + 1) y = entryAddress b (n + 1) x
      · -- the entry that got the new table
        obtain ⟨hm, hq⟩ := h.entry_unique hb hold haddr
        obtain rfl : m = n := by omega
        left
        refine ⟨page, by rw [hq]; exact Shape.hang_self _ _ _, ?_⟩
        rw [hangMemory, if_pos haddr]
        exact hw
      · rw [hangMemory_old (h.aligned hold) hfresh.aligned (hfresh.unused hold) haddr]
        have hsame : shape.hang n (x / blockSize (n + 1)) page m (y / blockSize (m + 1)) =
            shape m (y / blockSize (m + 1)) := by
          refine Shape.hang_of_ne ?_
          rintro ⟨rfl, hq⟩
          -- the same block is served by the same entry
          have hp := quotient_eq_of_le (Nat.le_succ _) hq
          rw [hp, hb] at hold
          obtain rfl : b = c := Option.some.inj hold
          exact haddr (entryAddress_congr hq)
        rw [hsame]
        exact h.entry hy hold

/-- Hanging a table leaves the leaves of all addresses that the entry does not serve. -/
theorem locate_hang_of_ne (h : WellShaped cfg secure memory root shape) (hcfg : cfg.Ok)
    {n x y b page w : ℕ} {f : ℕ → ℕ} (hy : y < 2 ^ cfg.width)
    (hb : shape (n + 1) (x / blockSize (n + 2)) = some b) (hfresh : FreshPage shape page)
    (hne : y / blockSize (n + 1) ≠ x / blockSize (n + 1)) :
    locate (hangMemory memory page f (entryAddress b (n + 1) x) w) y cfg.rootBelow root 0 =
      locate memory y cfg.rootBelow root 0 := by
  refine h.locate_congr hy ?_ (by rw [div_root_eq_zero hcfg hy]; exact h.root_eq)
  intro m c hc
  have haddr : entryAddress c m y ≠ entryAddress b (n + 1) x :=
    fun haddr => hne (h.entry_unique hb hc haddr).2
  exact hangMemory_old (h.aligned hc) hfresh.aligned (hfresh.unused hc) haddr

/-- Hanging a table replaces the leaf of every address that the entry serves by its entry
in the new table, under the attributes of the table entry. -/
theorem locate_hang (h : WellShaped cfg secure memory root shape) (hcfg : cfg.Ok)
    {n x y b page w : ℕ} {f : ℕ → ℕ} (hy : y < 2 ^ cfg.width)
    (hb : shape (n + 1) (x / blockSize (n + 2)) = some b)
    (hnone : shape n (x / blockSize (n + 1)) = none) (hfresh : FreshPage shape page)
    (hw : TableOk secure w page)
    (hf : LeafOk secure n y (f (y / blockSize n % 512)))
    (hq : y / blockSize (n + 1) = x / blockSize (n + 1)) :
    ∃ t, (secure → t = 0) ∧
      locate memory y cfg.rootBelow root 0 =
        ⟨n + 1, memory (entryAddress b (n + 1) x), t⟩ ∧
      locate (hangMemory memory page f (entryAddress b (n + 1) x) w) y cfg.rootBelow root 0 =
        ⟨n, f (y / blockSize n % 512), t ||| (w &&& ttTableAttributesMask)⟩ := by
  have hb' : shape (n + 1) (y / blockSize (n + 2)) = some b := by
    rw [quotient_eq_of_le (Nat.le_succ _) hq]
    exact hb
  have hslot : IsLeafSlot shape (n + 1) y := by
    intro m hm
    obtain rfl : m = n := by omega
    rw [hq]
    exact hnone
  obtain ⟨hleaf, t, ht, hreach⟩ := h.locate_slot hcfg hy hb' hslot
  have habove : ∀ m c, n + 1 < m → shape m (y / blockSize (m + 1)) = some c →
      hangMemory memory page f (entryAddress b (n + 1) x) w (entryAddress c m y) =
        memory (entryAddress c m y) := by
    intro m c hm hc
    have haddr : entryAddress c m y ≠ entryAddress b (n + 1) x := fun haddr => by
      have := (h.entry_unique hb hc haddr).1
      omega
    exact hangMemory_old (h.aligned hc) hfresh.aligned (hfresh.unused hc) haddr
  have hentry : hangMemory memory page f (entryAddress b (n + 1) x) w
      (entryAddress b (n + 1) y) = w := by
    rw [hangMemory, if_pos (entryAddress_congr hq)]
  have hnew : hangMemory memory page f (entryAddress b (n + 1) x) w (entryAddress page n y) =
      f (y / blockSize n % 512) := by
    refine hangMemory_new fun haddr => ?_
    exact hfresh.unused hb (entryAddress_inj (h.aligned hb) hfresh.aligned haddr).1.symm
  refine ⟨t, ht, ?_, ?_⟩
  · rw [hreach memory fun _ _ _ _ => rfl, locate_leaf hleaf.not_table, entryAddress_congr hq]
  · rw [hreach _ habove, locate_table hentry hw.type, hw.address,
      locate_leaf (by rw [hnew]; exact hf.not_table), hnew]

/-- A table hung below an entry does not show in the walk when, for every address the
entry served, the entry of the new table translates like the old one. -/
theorem walk_hang (h : WellShaped cfg secure memory root shape) (hcfg : cfg.Ok)
    {n x b page w : ℕ} {f : ℕ → ℕ} (hb : shape (n + 1) (x / blockSize (n + 2)) = some b)
    (hnone : shape n (x / blockSize (n + 1)) = none) (hfresh : FreshPage shape page)
    (hw : TableOk secure w page)
    (hf : ∀ y, y / blockSize (n + 1) = x / blockSize (n + 1) →
      LeafOk secure n y (f (y / blockSize n % 512)))
    (htr : ∀ y t, y < 2 ^ cfg.width → y / blockSize (n + 1) = x / blockSize (n + 1) →
      translate y ⟨n, f (y / blockSize n % 512), t ||| (w &&& ttTableAttributesMask)⟩ =
        translate y ⟨n + 1, memory (entryAddress b (n + 1) x), t⟩) (y : ℕ) :
    walk cfg (hangMemory memory page f (entryAddress b (n + 1) x) w) root y =
      walk cfg memory root y := by
  rw [walk, walk]
  by_cases hy : y < 2 ^ cfg.width
  · rw [if_pos hy, if_pos hy]
    by_cases hq : y / blockSize (n + 1) = x / blockSize (n + 1)
    · obtain ⟨t, -, hold, hnew⟩ := h.locate_hang hcfg hy hb hnone hfresh hw (hf y hq) hq
      rw [hold, hnew, htr y t hy hq]
    · rw [h.locate_hang_of_ne hcfg hy hb hfresh hq]
  · rw [if_neg hy, if_neg hy]

/-- Nor does it add to the restrictions when its table entry has none. -/
theorem restrictions_hang (h : WellShaped cfg secure memory root shape) (hcfg : cfg.Ok)
    {n x b page w : ℕ} {f : ℕ → ℕ} (hb : shape (n + 1) (x / blockSize (n + 2)) = some b)
    (hnone : shape n (x / blockSize (n + 1)) = none) (hfresh : FreshPage shape page)
    (hw : TableOk secure w page)
    (hf : ∀ y, y / blockSize (n + 1) = x / blockSize (n + 1) →
      LeafOk secure n y (f (y / blockSize n % 512)))
    (hfree : w &&& ttTableAttributesMask &&& restrictionMask = 0) (y : ℕ) :
    restrictions cfg (hangMemory memory page f (entryAddress b (n + 1) x) w) root y =
      restrictions cfg memory root y := by
  rw [restrictions, restrictions]
  by_cases hy : y < 2 ^ cfg.width
  · rw [if_pos hy, if_pos hy]
    by_cases hq : y / blockSize (n + 1) = x / blockSize (n + 1)
    · obtain ⟨t, -, hold, hnew⟩ := h.locate_hang hcfg hy hb hnone hfresh hw (hf y hq) hq
      rw [hold, hnew, Nat.and_or_distrib_right, hfree, Nat.or_zero]
    · rw [h.locate_hang_of_ne hcfg hy hb hfresh hq]
  · rw [if_neg hy, if_neg hy]

end WellShaped

/-! ### An invalid entry becomes a table of invalid entries -/

/-- A table word of the source for a fresh page. -/
theorem tableOk_of_fresh {page attrs : ℕ} (hfresh : FreshPage shape page)
    (hattrs : Within attrs ttTableAttributesMask) (hsecure : secure → attrs = 0) :
    TableOk secure (tableEntryWord page attrs) page := by
  have hpage : Within page ttAddressMaskBlockEntry :=
    within_addressMask hfresh.aligned hfresh.lt
  rw [tableEntryWord, addressMaskDescriptionTable_eq, hpage.eq]
  obtain ⟨htype, haddr, hmask⟩ := tableWord_fields hpage hattrs
  exact ⟨htype, haddr, fun hs => by rw [hmask, hsecure hs]⟩

/-- The attribute bits of a table word of the source. -/
theorem tableWord_attributes {page attrs : ℕ} (hfresh : FreshPage shape page)
    (hattrs : Within attrs ttTableAttributesMask) :
    tableEntryWord page attrs &&& ttTableAttributesMask = attrs := by
  have hpage : Within page ttAddressMaskBlockEntry :=
    within_addressMask hfresh.aligned hfresh.lt
  rw [tableEntryWord, addressMaskDescriptionTable_eq, hpage.eq]
  exact (tableWord_fields hpage hattrs).2.2

/-! ### A block becomes a table of smaller blocks -/

/-- The type of a leaf with `n` levels below it. -/
def leafType (n : ℕ) : ℕ := if n = 0 then ttTypeBlockEntryLevel3 else ttTypeBlockEntry

/-- A leaf word of the source for the block of `x`: address, attributes and type. -/
def leafWord (n x attrs : ℕ) : ℕ := x / blockSize n * blockSize n ||| attrs ||| leafType n

/-- The type of a leaf has no other bits than those of a type. -/
theorem leafType_within (n : ℕ) : Within (leafType n) ttTypeMask := by
  rw [leafType]
  split <;> rfl

/-- The fields of a leaf word. -/
theorem leafWord_fields {n x attrs : ℕ} (hx : x < 2 ^ 48)
    (hattrs : Within attrs ttAttributesMask) :
    LeafFields (leafWord n x attrs) (x / blockSize n * blockSize n) attrs (leafType n) := by
  refine leafFields_or (within_addressMask ?_ ?_) hattrs (leafType_within n)
  · exact dvd_mul_of_dvd_right (page_dvd_blockSize n) _
  · exact quotient_mul_lt hx

/-- A leaf word up to level one is a valid leaf that maps its block to itself. -/
theorem leafWord_valid {n x attrs : ℕ} (hx : x < 2 ^ 48) (hn : n ≤ 2)
    (hattrs : Within attrs ttAttributesMask) : Leaf.Valid ⟨n, leafWord n x attrs, 0⟩ := by
  have hfields := leafWord_fields (n := n) hx hattrs
  cases n with
  | zero => exact Or.inl ⟨rfl, hfields.type⟩
  | succ n =>
      refine Or.inr ⟨?_, hfields.type⟩
      show n + 1 = 1 ∨ n + 1 = 2
      omega

/-- A secure leaf word is a leaf entry of a well-shaped table. -/
theorem leafOk_leafWord {n x attrs : ℕ} (hx : x < 2 ^ 48) (hn : n ≤ 2)
    (hattrs : Within attrs ttAttributesMask) (hns : secure → attrs &&& ttNs = 0) :
    LeafOk secure n x (leafWord n x attrs) := by
  have hfields := leafWord_fields (n := n) hx hattrs
  refine ⟨Or.inr ⟨leafWord_valid hx hn hattrs, hfields.address⟩, fun hs => ?_⟩
  have hmask : ttNs &&& ttAttributesMask = ttNs := rfl
  rw [← hmask, Nat.and_comm ttNs, ← Nat.and_assoc, hfields.attributes, hns hs]

/-- Reading a leaf word. -/
theorem translate_leafWord {n x attrs t : ℕ} (hx : x < 2 ^ 48) (hn : n ≤ 2)
    (hattrs : Within attrs ttAttributesMask) :
    translate x ⟨n, leafWord n x attrs, t⟩ = some ⟨x, hierarchical t attrs⟩ := by
  have hfields := leafWord_fields (n := n) hx hattrs
  rw [translate_identity (leafWord_valid hx hn hattrs) hfields.address, hfields.attributes]

/-- A leaf word only depends on the block. -/
theorem leafWord_congr {n x y attrs : ℕ} (h : y / blockSize n = x / blockSize n) :
    leafWord n y attrs = leafWord n x attrs := by
  rw [leafWord, leafWord, h]

/-- The entry that the source computes for the `index`-th part of a block is the leaf word
of that part. -/
theorem subEntry_eq {n x y attrs : ℕ} (hq : y / blockSize (n + 1) = x / blockSize (n + 1)) :
    (attrs ||| leafType n) |||
        (x / blockSize (n + 1) * blockSize (n + 1) + y / blockSize n % 512 * blockSize n) =
      leafWord n y attrs := by
  have haddr : x / blockSize (n + 1) * blockSize (n + 1) + y / blockSize n % 512 * blockSize n =
      y / blockSize n * blockSize n := by
    rw [← hq, div_blockSize_succ, blockSize_succ, Nat.mul_comm (blockSize n),
      ← Nat.mul_assoc, ← Nat.add_mul, Nat.div_add_mod']
  rw [haddr, leafWord, Nat.or_comm, Nat.or_assoc]

/-- A non-secure table entry does not change a non-secure leaf. -/
theorem hierarchical_or_ttTableNs {t attrs : ℕ} (h : attrs &&& ttNs ≠ 0) :
    hierarchical (t ||| ttTableNs) attrs = hierarchical t attrs := by
  have hns : Within (1 <<< 5) attrs := within_of_and_two_pow (i := 5) h
  have h59 : ttTableNs.testBit 59 = false := rfl
  have h60 : ttTableNs.testBit 60 = false := rfl
  have h61 : ttTableNs.testBit 61 = false := rfl
  have h62 : ttTableNs.testBit 62 = false := rfl
  have h63 : ttTableNs.testBit 63 = true := rfl
  simp only [hierarchical, Nat.testBit_or, h59, h60, h61, h62, h63, Bool.or_false,
    Bool.or_true, if_true]
  by_cases hbit : t.testBit 63 = true
  · rw [if_pos hbit]
  · rw [if_neg hbit, Nat.or_zero]
    refine Within.or_eq (Within.or_right (Within.or_right (Within.or_right ?_ _) _) _)
    split
    · rw [Within, ← Nat.and_assoc, hns.eq]
      rfl
    · exact hns

/-- A non-secure table entry makes every leaf below it non-secure. -/
theorem hierarchical_and_ttNs {t : ℕ} (h : t.testBit 63 = true) (attrs : ℕ) :
    hierarchical t attrs &&& ttNs = ttNs := by
  simp only [hierarchical, h, if_true]
  rw [Nat.and_comm, Nat.or_comm]
  exact Within.or_right (by decide : Within ttNs (1 <<< 5)) _

/-- Where they force no leaf to be non-secure that is not, table attributes come down to their
restrictions. -/
theorem hierarchical_and_restrictionMask {t attrs : ℕ}
    (h : t.testBit 63 = true → attrs &&& ttNs ≠ 0) :
    hierarchical (t &&& restrictionMask) attrs = hierarchical t attrs := by
  have h59 : restrictionMask.testBit 59 = true := rfl
  have h60 : restrictionMask.testBit 60 = true := rfl
  have h61 : restrictionMask.testBit 61 = true := rfl
  have h62 : restrictionMask.testBit 62 = true := rfl
  have h63 : restrictionMask.testBit 63 = false := rfl
  by_cases hbit : t.testBit 63 = true
  · rw [← hierarchical_or_ttTableNs (h hbit)]
    have hns : ttTableNs.testBit 63 = true := rfl
    have hlow : ∀ i < 63, ttTableNs.testBit i = false := by decide
    simp only [hierarchical, Nat.testBit_or, Nat.testBit_and, h59, h60, h61, h62, h63, hns,
      hlow 59 (by decide), hlow 60 (by decide), hlow 61 (by decide), hlow 62 (by decide), hbit,
      Bool.and_true, Bool.or_false, Bool.or_true]
  · simp only [hierarchical, Nat.testBit_and, h59, h60, h61, h62, h63, Bool.and_true,
      Bool.and_false, if_neg hbit, Bool.false_eq_true, if_false]

/-! ### The two refinements of the source -/

namespace WellShaped

/-- The leaf that an entry without a table below it holds. -/
theorem leafOk_entry (h : WellShaped cfg secure memory root shape) {n x b : ℕ}
    (hx : x < 2 ^ cfg.width) (hb : shape (n + 1) (x / blockSize (n + 2)) = some b)
    (hnone : shape n (x / blockSize (n + 1)) = none) :
    LeafOk secure (n + 1) x (memory (entryAddress b (n + 1) x)) := by
  rcases h.entry hx hb with ⟨c, hc, -⟩ | ⟨-, hleaf⟩
  · rw [hnone] at hc
    exact absurd hc (by simp)
  · exact hleaf

/-- **Refining an invalid entry** by a zeroed table keeps the invariant, the walk and the
restrictions. -/
theorem hang_zero (h : WellShaped cfg secure memory root shape) (hcfg : cfg.Ok)
    {n x b page : ℕ} (hx : x < 2 ^ cfg.width)
    (hb : shape (n + 1) (x / blockSize (n + 2)) = some b)
    (hnone : shape n (x / blockSize (n + 1)) = none) (hfresh : FreshPage shape page)
    (hinvalid : memory (entryAddress b (n + 1) x) &&& ttTypeMask = 0) :
    WellShaped cfg secure
        (hangMemory memory page (fun _ => 0) (entryAddress b (n + 1) x) (tableEntryWord page 0))
        root (shape.hang n (x / blockSize (n + 1)) page) ∧
      ∀ y, walk cfg
        (hangMemory memory page (fun _ => 0) (entryAddress b (n + 1) x) (tableEntryWord page 0))
        root y = walk cfg memory root y ∧ restrictions cfg
        (hangMemory memory page (fun _ => 0) (entryAddress b (n + 1) x) (tableEntryWord page 0))
        root y = restrictions cfg memory root y := by
  have hw : TableOk secure (tableEntryWord page 0) page :=
    tableOk_of_fresh hfresh (within_zero _) fun _ => rfl
  have hf : ∀ y, y / blockSize (n + 1) = x / blockSize (n + 1) → LeafOk secure n y 0 :=
    fun y _ => leafOk_zero secure n y
  have hfree : tableEntryWord page 0 &&& ttTableAttributesMask &&& restrictionMask = 0 := by
    rw [tableWord_attributes hfresh (within_zero _), Nat.zero_and]
  refine ⟨h.hang hx hb hnone hfresh hw hf, fun y => ⟨?_,
    h.restrictions_hang hcfg hb hnone hfresh hw hf hfree y⟩⟩
  refine h.walk_hang hcfg hb hnone hfresh hw hf ?_ y
  intro y t _ _
  rw [translate_invalid hinvalid, translate_invalid (Nat.zero_and _)]

/-- **Refining a block** by a table of smaller blocks with its attributes keeps the
invariant, the walk and the restrictions. -/
theorem hang_split (h : WellShaped cfg secure memory root shape) (hcfg : cfg.Ok)
    {n x b page attrs tableAttrs : ℕ} {f : ℕ → ℕ} (hx : x < 2 ^ cfg.width)
    (hb : shape (n + 1) (x / blockSize (n + 2)) = some b)
    (hnone : shape n (x / blockSize (n + 1)) = none) (hfresh : FreshPage shape page)
    (hblock : memory (entryAddress b (n + 1) x) &&& ttTypeMask = ttTypeBlockEntry)
    (hattrs : memory (entryAddress b (n + 1) x) &&& ttAttributesMask = attrs)
    (htable : tableAttrs = if attrs &&& ttNs ≠ 0 then ttTableNs else ttTableApNoPermission)
    (hf : ∀ y, y / blockSize (n + 1) = x / blockSize (n + 1) →
      f (y / blockSize n % 512) = leafWord n y attrs) :
    WellShaped cfg secure
        (hangMemory memory page f (entryAddress b (n + 1) x) (tableEntryWord page tableAttrs))
        root (shape.hang n (x / blockSize (n + 1)) page) ∧
      ∀ y, walk cfg
        (hangMemory memory page f (entryAddress b (n + 1) x) (tableEntryWord page tableAttrs))
        root y = walk cfg memory root y ∧ restrictions cfg
        (hangMemory memory page f (entryAddress b (n + 1) x) (tableEntryWord page tableAttrs))
        root y = restrictions cfg memory root y := by
  have hleaf := h.leafOk_entry hx hb hnone
  have hwithin : Within attrs ttAttributesMask := hattrs ▸ within_and _ _
  -- only the levels one and two have blocks
  have hblock' : n + 1 = 1 ∨ n + 1 = 2 := by
    rcases hleaf.identity with hinv | ⟨⟨h0, -⟩ | ⟨hlevel, -⟩, -⟩
    · rw [hblock] at hinv
      exact absurd hinv (by decide)
    · exact absurd h0 (Nat.succ_ne_zero n)
    · exact hlevel
  have hn : n ≤ 2 := by omega
  have hns : secure → attrs &&& ttNs = 0 := by
    intro hs
    rw [← hattrs, Nat.and_assoc]
    exact hleaf.notNs hs
  have htwithin : Within tableAttrs ttTableAttributesMask := by
    rw [htable]
    split <;> rfl
  have hw : TableOk secure (tableEntryWord page tableAttrs) page := by
    refine tableOk_of_fresh hfresh htwithin fun hs => ?_
    rw [htable, if_neg (not_not_intro (hns hs))]
    rfl
  have hwidth : 2 ^ cfg.width ≤ 2 ^ 48 := Nat.pow_le_pow_right (by omega) hcfg.width_le
  have hlt : ∀ y, y / blockSize (n + 1) = x / blockSize (n + 1) → y < 2 ^ 48 := by
    intro y hq
    have hdvd : blockSize (n + 1) ∣ 2 ^ 48 := Nat.pow_dvd_pow 2 (by omega)
    obtain ⟨k, hk⟩ := hdvd
    have hxk : x / blockSize (n + 1) < k := by
      rw [Nat.div_lt_iff_lt_mul (blockSize_pos _), Nat.mul_comm, ← hk]
      omega
    rw [← hq, Nat.div_lt_iff_lt_mul (blockSize_pos _), Nat.mul_comm, ← hk] at hxk
    exact hxk
  have hfok : ∀ y, y / blockSize (n + 1) = x / blockSize (n + 1) →
      LeafOk secure n y (f (y / blockSize n % 512)) := by
    intro y hq
    rw [hf y hq]
    exact leafOk_leafWord (hlt y hq) hn hwithin hns
  have hfree : tableEntryWord page tableAttrs &&& ttTableAttributesMask &&& restrictionMask = 0 := by
    rw [tableWord_attributes hfresh htwithin, htable]
    split <;> decide
  refine ⟨h.hang hx hb hnone hfresh hw hfok, fun y => ⟨?_,
    h.restrictions_hang hcfg hb hnone hfresh hw hfok hfree y⟩⟩
  refine h.walk_hang hcfg hb hnone hfresh hw hfok ?_ y
  intro y t _ hq
  have hvalid : Leaf.Valid ⟨n + 1, memory (entryAddress b (n + 1) x), 0⟩ :=
    Or.inr ⟨hblock', hblock⟩
  have haddr : memory (entryAddress b (n + 1) x) &&& ttAddressMaskBlockEntry =
      y / blockSize (n + 1) * blockSize (n + 1) := by
    rcases hleaf.identity with hinv | ⟨-, haddr⟩
    · rw [hblock] at hinv
      exact absurd hinv (by decide)
    · rw [haddr, hq]
  rw [hf y hq, translate_leafWord (hlt y hq) hn hwithin, translate_identity hvalid haddr,
    hattrs, tableWord_attributes hfresh htwithin, htable]
  by_cases hsec : attrs &&& ttNs ≠ 0
  · rw [if_pos hsec, hierarchical_or_ttTableNs hsec]
  · rw [if_neg hsec, show ttTableApNoPermission = 0 from rfl, Nat.or_zero]

end WellShaped

end Msm8998
