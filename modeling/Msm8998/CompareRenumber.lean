import Mathlib.Logic.Equiv.Basic
import Msm8998.CompareDtb
import Msm8998.FdtWriter

/-!
# Renumbered Device Trees

A device tree with its phandles marked: the value of a property is a sequence of pieces, plain
bytes and cells that hold a phandle. A renumbering maps the marked cells, those of the
`phandle` and `linux,phandle` properties and those that refer to them alike, and leaves the
bytes alone.

`compare-dtb.py` sets aside the properties that number the nodes, by their names. A cell that
refers to a phandle cannot be told from any other in a flattened tree, and counts.

## Main results

* `render_eq_iff`: when a renumbering changes the bytes of a value.
* `renumbered_spec`: what the tool reports between a tree and its renumbering.
-/

open Fallible OrderedDict

namespace Msm8998

namespace Fdt

/-! ### Marked trees -/

/-- A part of a value. -/
inductive Piece
  | bytes (bs : Bytes)
  | phandle (n : UInt32)
deriving Repr, DecidableEq

/-- The bytes of a part under a renumbering. -/
def Piece.render (σ : UInt32 → UInt32) : Piece → Bytes
  | .bytes bs => bs
  | .phandle n => word (σ n).toNat

/-- A property whose phandles are marked. -/
structure MarkedRecord where
  node : Str
  name : Str
  pieces : List Piece

/-- The bytes of a property under a renumbering. -/
def MarkedRecord.render (σ : UInt32 → UInt32) (r : MarkedRecord) : Record :=
  ⟨r.node, r.name, r.pieces.flatMap (Piece.render σ)⟩

/-- The property has a cell for a phandle that the renumbering moves. -/
def MarkedRecord.Moved (σ : UInt32 → UInt32) (r : MarkedRecord) : Prop :=
  ∃ n, Piece.phandle n ∈ r.pieces ∧ σ n ≠ n

/-- The key of a property. -/
def MarkedRecord.key (r : MarkedRecord) : Str := joinKey r.node r.name

/-- The last property with a key. -/
def lastMarked (key : Str) (tree : List MarkedRecord) : Option MarkedRecord :=
  lastWith? (fun r => decide (r.key = key)) tree

variable {σ : UInt32 → UInt32} {tree : List MarkedRecord} {key : Str}

/-! ### What a renumbering changes -/

/-- A big-endian word tells its number. -/
theorem word_injective {n m : UInt32} (h : word n.toNat = word m.toNat) : n = m := by
  have hn : wordAt (word n.toNat) 0 = .ok n.toNat :=
    wordAt_word n.toNat_lt (List.append_nil _).symm
  have hm : wordAt (word m.toNat) 0 = .ok m.toNat :=
    wordAt_word m.toNat_lt (List.append_nil _).symm
  rw [h, hm] at hn
  exact UInt32.toNat_inj.mp (Except.ok.inj hn).symm

/-- Renumbering keeps the length of a piece. -/
theorem Piece.render_length (σ : UInt32 → UInt32) (p : Piece) :
    (p.render σ).length = (p.render id).length := by
  cases p <;> rfl

/-- A piece is unchanged unless it is a phandle that gets another number. -/
theorem Piece.render_eq_iff {p : Piece} :
    p.render id = p.render σ ↔ ∀ n, p = .phandle n → σ n = n := by
  cases p with
  | bytes bs => exact iff_of_true rfl fun n hn => by cases hn
  | phandle n =>
      constructor
      · intro h m hm
        cases hm
        exact (word_injective h).symm
      · intro h
        rw [Piece.render, Piece.render, h n rfl]
        rfl

/-- **The bytes of a value** change when a phandle in it is moved. -/
theorem render_eq_iff (r : MarkedRecord) :
    (r.render id).value = (r.render σ).value ↔ ¬ r.Moved σ := by
  have hpieces : ∀ ps : List Piece,
      ps.flatMap (Piece.render id) = ps.flatMap (Piece.render σ) ↔
        ∀ p ∈ ps, p.render id = p.render σ := by
    intro ps
    induction ps with
    | nil => simp
    | cons p ps ih =>
        rw [List.flatMap_cons, List.flatMap_cons, List.forall_mem_cons, ← ih]
        constructor
        · intro h
          exact List.append_inj h (p.render_length σ).symm
        · rintro ⟨hp, hps⟩
          rw [hp, hps]
  rw [MarkedRecord.render, MarkedRecord.render, hpieces, MarkedRecord.Moved]
  simp only [Piece.render_eq_iff, not_exists, not_and, not_not]
  constructor
  · intro h n hn
    exact h _ hn n rfl
  · rintro h p hp n rfl
    exact h n hp

/-- What the tool looks at under a key. -/
theorem lastValue_render (σ : UInt32 → UInt32) (key : Str) (tree : List MarkedRecord) :
    lastValue key (tree.map (MarkedRecord.render σ)) =
      (lastMarked key tree).map fun r => (r.render σ).value := by
  rw [lastValue, lastRecord, lastWith?_map, Option.map_map]
  rfl

/-! ### What is reported -/

/-- **Renumbering.** In a run on files that can be read, between a tree and its renumbering no
property is missing and none is extra, and the meaningful changes are the properties with a cell
for a phandle that is moved, except for those that number the nodes. -/
theorem renumbered_spec (tree : List MarkedRecord) (reference : Bytes)
    (candidates : List (Str × Bytes)) (header : Header) (toks : List Token)
    (href : Reads reference header toks (tree.map (MarkedRecord.render id)))
    (hcands : ∀ x ∈ candidates, ∃ header toks rs, Reads x.2 header toks rs) :
    ∃ report, compareMain reference candidates = .ok report ∧
      ∀ σ (i : ℕ) path data header' toks', candidates[i]? = some (path, data) →
        Reads data header' toks' (tree.map (MarkedRecord.render σ)) →
        ∃ c : Comparison, report.comparisons[i]? = some c ∧ c.onlyRef = ∅ ∧ c.onlyCand = ∅ ∧
          ∀ key, key ∈ c.meaningful ↔
            isNoise key = false ∧ ∃ r, lastMarked key tree = some r ∧ r.Moved σ := by
  obtain ⟨report, hrun⟩ := exists_compareMain href hcands
  refine ⟨report, hrun, fun σ i path data header' toks' hi hcand => ?_⟩
  refine ⟨_, comparison_at hrun href hi hcand, ?_, ?_, fun key => ?_⟩
  · refine Finset.eq_empty_of_forall_notMem fun key hkey => ?_
    rw [mem_onlyRef, lastValue_render, lastValue_render, Option.map_eq_none_iff] at hkey
    obtain ⟨⟨v, hv⟩, hnone⟩ := hkey
    rw [hnone] at hv
    cases hv
  · refine Finset.eq_empty_of_forall_notMem fun key hkey => ?_
    rw [mem_onlyCand, lastValue_render, lastValue_render, Option.map_eq_none_iff] at hkey
    obtain ⟨⟨v, hv⟩, hnone⟩ := hkey
    rw [hnone] at hv
    cases hv
  · rw [mem_meaningful, lastValue_render, lastValue_render, and_comm]
    refine and_congr_right fun _ => ?_
    cases hlast : lastMarked key tree with
    | none => simp
    | some r =>
        simp only [Option.map_some, Option.some.injEq, exists_eq_left']
        rw [← not_iff_not, ← render_eq_iff]
        simp

/-- A root that names its interrupt parent, and the node with that phandle. -/
def interruptTree (n : UInt32) : DeviceTree where
  props := [("interrupt-parent".toList, word n.toNat)]
  children := .cons "intc".toList [("phandle".toList, word n.toNat)] .none .none
  wellFormed := ⟨by decide, by decide, by decide, trivial, trivial⟩

/-- Its properties, with both cells marked. -/
def interruptMarked : List MarkedRecord :=
  [⟨"/".toList, "interrupt-parent".toList, [.phandle 1]⟩,
    ⟨"/intc".toList, "phandle".toList, [.phandle 1]⟩]

/-- The records of the tree under any renumbering. -/
theorem reads_interruptTree (σ : UInt32 → UInt32)
    (hsmall : (interruptTree (σ 1)).file.length < 2 ^ 32) :
    ∃ header toks, Reads (interruptTree (σ 1)).file header toks
      (interruptMarked.map (MarkedRecord.render σ)) := by
  have hvalue : (word (σ 1).toNat).length < 2 ^ 32 := by
    rw [word_length]
    omega
  have hparent : '\x00' ∉ "interrupt-parent".toList := by decide
  have hphandle : '\x00' ∉ "phandle".toList := by decide
  have hnames : (interruptTree (σ 1)).root.Writable :=
    ⟨by decide, List.forall_mem_singleton.mpr ⟨hparent, hvalue⟩,
      ⟨by decide, List.forall_mem_singleton.mpr ⟨hphandle, hvalue⟩, trivial, trivial⟩, trivial⟩
  exact reads_file hnames hsmall

/-- Phandles 1 and 2 change places, and the interrupt parent counts as a difference. -/
theorem interruptParent_counts : Function.Injective (Equiv.swap (1 : UInt32) 2) ∧
    (interruptTree 1).root.records [] = interruptMarked.map (MarkedRecord.render id) ∧
    (interruptTree 2).root.records [] =
      interruptMarked.map (MarkedRecord.render (Equiv.swap 1 2)) ∧
    ∃ report c, compareMain (interruptTree 1).file [("a.dtb".toList, (interruptTree 2).file)] =
        .ok report ∧
      report.comparisons[0]? = some c ∧ c.meaningful ≠ ∅ := by
  obtain ⟨header, toks, href⟩ := reads_interruptTree id (by decide +kernel)
  obtain ⟨header', toks', hcand⟩ := reads_interruptTree (Equiv.swap 1 2) (by decide +kernel)
  obtain ⟨report, hrun, hc⟩ := exists_compareMain_single href hcand "a.dtb".toList
  refine ⟨(Equiv.swap 1 2).injective, rfl, rfl, report, _, hrun, hc, fun hempty => ?_⟩
  refine Finset.notMem_empty "/:interrupt-parent".toList ?_
  rw [← hempty, mem_meaningful]
  exact ⟨⟨word 1, word 2, rfl, rfl, by decide⟩, rfl⟩

/-- What is reported there. -/
theorem renumbered_spec_interruptParent : ∃ report c,
    compareMain (interruptTree 1).file [("a.dtb".toList, (interruptTree 2).file)] =
      .ok report ∧
    report.comparisons[0]? = some c ∧ c.onlyRef = ∅ ∧ c.onlyCand = ∅ ∧
    ∀ key, key ∈ c.meaningful ↔ isNoise key = false ∧
      ∃ r, lastMarked key interruptMarked = some r ∧ r.Moved (Equiv.swap 1 2) := by
  obtain ⟨header, toks, href⟩ := reads_interruptTree id (by decide +kernel)
  obtain ⟨header', toks', hcand⟩ := reads_interruptTree (Equiv.swap 1 2) (by decide +kernel)
  obtain ⟨report, hrun, hreported⟩ := renumbered_spec interruptMarked _ [("a.dtb".toList, _)] _ _
    href (List.forall_mem_singleton.mpr ⟨_, _, _, hcand⟩)
  obtain ⟨c, hc⟩ := hreported (Equiv.swap 1 2) 0 _ _ _ _ rfl hcand
  exact ⟨report, c, hrun, hc⟩

end Fdt

end Msm8998
