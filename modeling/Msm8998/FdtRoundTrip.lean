import Msm8998.FdtFormat

/-!
# Decoding Undoes Encoding

The bytes of a list of sibling nodes are a segment of a walk: whatever follows them, the
tokens of the nodes come first, leave the stack as it was, and contribute the properties of
the nodes in preorder. A whole serialisation is such a segment followed by `FDT_END`, and
grouping its properties by path gives the nodes back.

## Main results

* `segment_of_nodesBytes`: the tokens of a serialised list of nodes.
* `reads_of_serialises`: what either parser meets in a serialisation.
* `inspectParse_of_serialises`: `inspect-dtb.py` returns exactly the tree.
-/

open OrderedDict

namespace Msm8998

namespace Fdt

/-! ### Segments of a walk -/

/-- From `pos` to `next`, the tokens take the stack to `stack'`, contribute the properties
`rs`, and open `n` nodes. -/
def Segment (data strtab : Bytes) (pos next : ℕ) (stack stack' : List Str) (rs : List Record)
    (n : ℕ) : Prop :=
  ∀ toks, Walk data strtab next toks → (∀ t ∈ toks, t.isUnknown = false) →
    ∃ toks', Walk data strtab pos toks' ∧ (∀ t ∈ toks', t.isUnknown = false) ∧
      records stack toks' = (records stack' toks).map (rs ++ ·) ∧
      toks'.countP Token.isBegin = n + toks.countP Token.isBegin

section Segments

variable {data strtab : Bytes} {pos mid next : ℕ} {stack stack' stack'' : List Str}
  {rs rs' : List Record} {n n' : ℕ}

/-- No tokens. -/
theorem Segment.refl : Segment data strtab pos pos stack stack [] 0 := by
  intro toks hwalk hknown
  refine ⟨toks, hwalk, hknown, ?_, (Nat.zero_add _).symm⟩
  simp only [List.nil_append, Option.map_id']

/-- One segment after another. -/
theorem Segment.trans (h : Segment data strtab pos mid stack stack' rs n)
    (h' : Segment data strtab mid next stack' stack'' rs' n') :
    Segment data strtab pos next stack stack'' (rs ++ rs') (n + n') := by
  intro toks hwalk hknown
  obtain ⟨toks₁, hwalk₁, hknown₁, hrs₁, hcount₁⟩ := h' toks hwalk hknown
  obtain ⟨toks₂, hwalk₂, hknown₂, hrs₂, hcount₂⟩ := h toks₁ hwalk₁ hknown₁
  refine ⟨toks₂, hwalk₂, hknown₂, ?_, by omega⟩
  rw [hrs₂, hrs₁, Option.map_map]
  simp only [Function.comp_def, List.append_assoc]

/-- A single token. -/
theorem Segment.token {t : Token} (hread : readToken data strtab pos = .ok (some (t, next)))
    (hknown : t.isUnknown = false)
    (hrs : ∀ toks, records stack (t :: toks) = (records stack' toks).map (rs ++ ·)) :
    Segment data strtab pos next stack stack' rs (if t.isBegin then 1 else 0) := by
  intro toks hwalk htoks
  refine ⟨t :: toks, .step hread hwalk, List.forall_mem_cons.mpr ⟨hknown, htoks⟩, hrs toks, ?_⟩
  rw [List.countP_cons, Nat.add_comm]

/-- A word that stands for nothing. -/
theorem segment_nop {post : Bytes} (h : data.drop pos = word fdtNop ++ post) :
    Segment data strtab pos (pos + 4) stack stack [] 0 := by
  have hread : readToken data strtab pos = .ok (some (.nop, pos + 4)) := by
    rw [readToken, wordAt_word (by decide) h]
    rfl
  refine Segment.token hread rfl fun toks => ?_
  simp only [records, List.nil_append, Option.map_id']

/-- The start of a node, which is put on the stack. -/
theorem segment_beginNode {post : Bytes} {name : Str} (strtab : Bytes) (stack : List Str)
    (hpos : pos % 4 = 0)
    (hname : '\x00' ∉ name)
    (h : data.drop pos =
      word fdtBeginNode ++ cstring name ++ padding (cstring name).length ++ post) :
    Segment data strtab pos
      (pos + 4 + (cstring name).length + (padding (cstring name).length).length)
      stack (stack ++ [name]) [] 1 := by
  have hword : data.drop pos =
      word fdtBeginNode ++ (cstring name ++ padding (cstring name).length ++ post) := by
    simp only [h, List.append_assoc]
  have haligned : (pos + 4) % 4 = 0 := by omega
  have hname' := readName_cstring haligned hname (drop_after hword)
  have hread : readToken data strtab pos = .ok (some (.beginNode name,
      pos + 4 + (cstring name).length + (padding (cstring name).length).length)) := by
    rw [readToken, wordAt_word (by decide) hword]
    simp only [bind, Except.bind, hname']
    rfl
  refine Segment.token hread rfl fun toks => ?_
  simp only [records, List.nil_append, Option.map_id']

/-- The end of a node, which is taken from it. -/
theorem segment_endNode {post : Bytes} {name : Str} (h : data.drop pos = word fdtEndNode ++ post) :
    Segment data strtab pos (pos + 4) (stack ++ [name]) stack [] 0 := by
  have hread : readToken data strtab pos = .ok (some (.endNode, pos + 4)) := by
    rw [readToken, wordAt_word (by decide) h]
    rfl
  refine Segment.token hread rfl fun toks => ?_
  simp only [records, List.append_eq_nil_iff, List.cons_ne_nil, and_false, if_false,
    List.dropLast_concat, List.nil_append, Option.map_id']

/-- A property of the node on top of the stack. -/
theorem segment_prop {post value : Bytes} {nameoff : ℕ} {name : Str} (stack : List Str)
    (hpos : pos % 4 = 0)
    (hname : '\x00' ∉ name) (hstrtab : cstring name <+: strtab.drop nameoff)
    (hnameoff : nameoff < 2 ^ 32) (hvalue : value.length < 2 ^ 32)
    (h : data.drop pos = word fdtProp ++ word value.length ++ word nameoff ++ value ++
      padding value.length ++ post) :
    Segment data strtab pos (pos + 12 + value.length + (padding value.length).length) stack stack
      [⟨nodePath stack, name, value⟩] 0 := by
  have hword : data.drop pos = word fdtProp ++
      (word value.length ++ word nameoff ++ value ++ padding value.length ++ post) := by
    simp only [h, List.append_assoc]
  have haligned : (pos + 4) % 4 = 0 := by omega
  have hprop := readProp_bytes haligned hname hstrtab hnameoff hvalue (drop_after hword)
  have hread : readToken data strtab pos = .ok (some (.prop name value,
      pos + 12 + value.length + (padding value.length).length)) := by
    rw [readToken, wordAt_word (by decide) hword]
    simp only [bind, Except.bind, hprop]
    rfl
  exact Segment.token hread rfl fun toks => rfl

end Segments

/-! ### Segments of serialised nodes -/

/-- What is padded ends at a word. -/
theorem padded_mod (n : ℕ) : (n + (padding n).length) % 4 = 0 := by
  rw [padding_length]
  omega

/-- The tokens of a property list. -/
theorem segment_of_propsBytes {data strtab ps : Bytes} {props : List (Str × Bytes)}
    (h : PropsBytes strtab props ps) {pos : ℕ} {post : Bytes} (stack : List Str)
    (hpos : pos % 4 = 0) (hdrop : data.drop pos = ps ++ post) :
    ps.length % 4 = 0 ∧ Segment data strtab pos (pos + ps.length) stack stack
      (props.map fun p => ⟨nodePath stack, p.1, p.2⟩) 0 := by
  induction h generalizing pos with
  | nil => exact ⟨rfl, Segment.refl⟩
  | @nop ps bs _ ih =>
      rw [List.append_assoc] at hdrop
      have haligned : (pos + 4) % 4 = 0 := by omega
      obtain ⟨hlen, hseg⟩ := ih haligned (drop_after hdrop)
      rw [List.length_append, word_length, ← Nat.add_assoc]
      exact ⟨by omega, (segment_nop hdrop).trans hseg⟩
  | @cons name value nameoff ps bs hname hstrings hnameoff hvalue _ ih =>
      have hpad := padded_mod value.length
      have hlength : (word fdtProp ++ word value.length ++ word nameoff ++ value ++
          padding value.length).length = 12 + value.length + (padding value.length).length := by
        simp only [List.length_append, word_length]
      rw [List.append_assoc] at hdrop
      have hafter := drop_after hdrop
      rw [hlength] at hafter
      obtain ⟨hlen, hseg⟩ := ih (by omega) hafter
      rw [List.length_append, hlength]
      refine ⟨by omega, ?_⟩
      have hprop := segment_prop stack hpos hname hstrings hnameoff hvalue hdrop
      have hnext : pos + 12 + value.length + (padding value.length).length =
          pos + (12 + value.length + (padding value.length).length) := by omega
      rw [hnext] at hprop
      rw [← Nat.add_assoc]
      exact hprop.trans hseg

/-- **The tokens of sibling nodes.** -/
theorem segment_of_nodesBytes {data strtab bs : Bytes} {ns : Nodes}
    (h : NodesBytes strtab ns bs) {pos : ℕ} {post : Bytes} (stack : List Str)
    (hpos : pos % 4 = 0) (hdrop : data.drop pos = bs ++ post) :
    bs.length % 4 = 0 ∧ Segment data strtab pos (pos + bs.length) stack stack
      (ns.records stack) ns.count := by
  induction h generalizing pos post stack with
  | none => exact ⟨rfl, Segment.refl⟩
  | @nop ns bs _ ih =>
      rw [List.append_assoc] at hdrop
      have haligned : (pos + 4) % 4 = 0 := by omega
      obtain ⟨hlen, hseg⟩ := ih stack haligned (drop_after hdrop)
      rw [List.length_append, word_length, ← Nat.add_assoc]
      refine ⟨by omega, ?_⟩
      have hboth := (segment_nop hdrop).trans hseg
      rwa [List.nil_append, Nat.zero_add] at hboth
  | @cons name props children rest ps cs rs hname hprops _ _ ihc ihr =>
      have hpad := padded_mod (cstring name).length
      have hlength : (word fdtBeginNode ++ cstring name ++
          padding (cstring name).length).length =
            4 + (cstring name).length + (padding (cstring name).length).length := by
        simp only [List.length_append, word_length]
      have hbegin : data.drop pos = word fdtBeginNode ++ cstring name ++
          padding (cstring name).length ++ (ps ++ (cs ++ (word fdtEndNode ++ (rs ++ post)))) := by
        rw [hdrop]
        simp only [List.append_assoc]
      have hprops' := drop_after hbegin
      rw [hlength] at hprops'
      obtain ⟨hplen, hpseg⟩ :=
        segment_of_propsBytes hprops (stack ++ [name]) (by omega) hprops'
      have hchildren := drop_after hprops'
      obtain ⟨hclen, hcseg⟩ := ihc (stack ++ [name]) (by omega) hchildren
      have hend := drop_after hchildren
      have hrest := drop_after hend
      rw [word_length] at hrest
      obtain ⟨hrlen, hrseg⟩ := ihr stack (by omega) hrest
      have hbseg := segment_beginNode strtab stack hpos hname hbegin
      have hnext : pos + 4 + (cstring name).length + (padding (cstring name).length).length =
          pos + (4 + (cstring name).length + (padding (cstring name).length).length) := by omega
      rw [hnext] at hbseg
      have hall := hbseg.trans (hpseg.trans (hcseg.trans ((segment_endNode hend).trans hrseg)))
      simp only [List.nil_append, Nat.zero_add] at hall
      have hcount : 1 + (children.count + rest.count) = children.count + 1 + rest.count := by
        omega
      simp only [List.length_append, word_length, ← Nat.add_assoc] at hall ⊢
      refine ⟨by omega, ?_⟩
      rw [Nodes.records, Nodes.count, ← hcount, ← Nat.add_assoc]
      exact hall

/-! ### Grouping by path -/

/-- The properties of the nodes, listed node by node, are those of the nodes with
properties. -/
theorem records_grouped (ns : Nodes) (base : List Str) :
    (ns.records base).map Record.grouped =
      (ns.bindings base).flatMap fun e => e.2.map fun p => (e.1, p) := by
  induction ns generalizing base with
  | none => rfl
  | cons name props children rest ihc ihr =>
      rw [Nodes.records, Nodes.bindings, List.map_append, List.map_append, List.flatMap_append,
        List.flatMap_append, ihc, ihr, List.map_map]
      by_cases hprops : props = []
      · simp [hprops]
      · simp [hprops, Record.grouped, Function.comp_def]

/-- Only nodes with properties are bound. -/
theorem bindings_ne_nil {ns : Nodes} {base : List Str} {e : Str × List (Str × Bytes)}
    (he : e ∈ ns.bindings base) : e.2 ≠ [] := by
  induction ns generalizing base with
  | none => cases he
  | cons name props children rest ihc ihr =>
      rcases List.mem_append.mp he with he | he
      · split at he
        · cases he
        · next hprops =>
            rw [List.mem_singleton.mp he]
            exact hprops
      rcases List.mem_append.mp he with he | he
      · exact ihc he
      · exact ihr he

/-! ### The whole file -/

/-- The header is read back. -/
theorem readHeader_bytes {data : Bytes} {header : Header} (hmagic : header.magic = fdtMagic)
    (hsmall : header.totalsize < 2 ^ 32 ∧ header.offStruct < 2 ^ 32 ∧
      header.offStrings < 2 ^ 32 ∧ header.offRsvmap < 2 ^ 32 ∧ header.version < 2 ^ 32 ∧
      header.lastcomp < 2 ^ 32 ∧ header.bootcpu < 2 ^ 32 ∧ header.sizeStrings < 2 ^ 32 ∧
      header.sizeStruct < 2 ^ 32)
    (h : header.bytes <+: data) : readHeader data = .ok header := by
  obtain ⟨h₁, h₂, h₃, h₄, h₅, h₆, h₇, h₈, h₉⟩ := hsmall
  obtain ⟨post, hpost⟩ := h
  have hmagic' : header.magic < 2 ^ 32 := by
    rw [hmagic]
    decide
  have d₀ : data.drop 0 = word header.magic ++ (word header.totalsize ++
      (word header.offStruct ++ (word header.offStrings ++ (word header.offRsvmap ++
      (word header.version ++ (word header.lastcomp ++ (word header.bootcpu ++
      (word header.sizeStrings ++ (word header.sizeStruct ++ post))))))))) := by
    rw [List.drop_zero, ← hpost, Header.bytes]
    simp only [List.append_assoc]
  have d₁ := drop_after d₀
  have d₂ := drop_after d₁
  have d₃ := drop_after d₂
  have d₄ := drop_after d₃
  have d₅ := drop_after d₄
  have d₆ := drop_after d₅
  have d₇ := drop_after d₆
  have d₈ := drop_after d₇
  have d₉ := drop_after d₈
  have hunpack : unpackHeader data = .ok header := by
    have w₀ := wordAt_word hmagic' d₀
    have w₁ := wordAt_word h₁ d₁
    have w₂ := wordAt_word h₂ d₂
    have w₃ := wordAt_word h₃ d₃
    have w₄ := wordAt_word h₄ d₄
    have w₅ := wordAt_word h₅ d₅
    have w₆ := wordAt_word h₆ d₆
    have w₇ := wordAt_word h₇ d₇
    have w₈ := wordAt_word h₈ d₈
    have w₉ := wordAt_word h₉ d₉
    simp only [word_length, Nat.zero_add, Nat.reduceAdd] at w₁ w₂ w₃ w₄ w₅ w₆ w₇ w₈ w₉
    simp only [unpackHeader, w₀, w₁, w₂, w₃, w₄, w₅, w₆, w₇, w₈, w₉, bind, Except.bind, pure,
      Except.pure]
  simp only [readHeader, hunpack, hmagic, bind, Except.bind, pure, Except.pure, ne_eq,
    not_true_eq_false, if_false]

/-- **What is read** from a serialisation: the properties of the tree in preorder. -/
theorem reads_of_serialises {tree : DeviceTree} {data : Bytes} (h : Serialises tree data) :
    ∃ header toks, Reads data header toks (tree.root.records []) ∧
      (∀ t ∈ toks, t.isUnknown = false) ∧ toks.countP Token.isBegin = tree.nodeCount := by
  obtain ⟨header, tokens, strings, hs⟩ := h
  obtain ⟨post, hstruct⟩ := hs.structBlock
  obtain ⟨htotal, hrsvmap, hbootcpu⟩ := hs.small
  have hlen := congrArg List.length hstruct
  rw [List.length_append, List.length_append, word_length, List.length_drop] at hlen
  have hslen := hs.stringsBlock.length_le
  rw [List.length_drop] at hslen
  have hinside := hs.stringsInside
  rw [hs.totalsize] at htotal
  have hheader : readHeader data = .ok header := by
    refine readHeader_bytes hs.magic ⟨?_, ?_, ?_, hrsvmap, ?_, ?_, hbootcpu, ?_, ?_⟩
      hs.headerBlock
    · rwa [hs.totalsize]
    · omega
    · omega
    · rw [hs.version]; decide
    · rw [hs.lastcomp]; decide
    · rw [hs.sizeStrings]; omega
    · rw [hs.sizeStruct]; omega
  have hstrtab : header.strtab data = strings := by
    obtain ⟨rest, hrest⟩ := hs.stringsBlock
    rw [Header.strtab, hs.sizeStrings]
    exact slice_of_drop hrest.symm
  rw [List.append_assoc] at hstruct
  obtain ⟨-, hseg⟩ := segment_of_nodesBytes hs.nodes [] hs.aligned hstruct.symm
  have hend : readToken data strings (header.offStruct + tokens.length) = .ok none := by
    rw [readToken, wordAt_word (by decide) (drop_after hstruct.symm)]
    rfl
  obtain ⟨toks, hwalk, hknown, hrs, hcount⟩ := hseg [] (.stop hend) (List.forall_mem_nil _)
  have hreads : Reads data header toks (tree.root.records []) := by
    refine ⟨hheader, ?_, hrs.trans ?_⟩
    · rw [hstrtab]
      exact hwalk
    · rw [records, Option.map_some, List.append_nil]
  refine ⟨header, toks, hreads, hknown, ?_⟩
  rw [hcount, List.countP_nil, Nat.add_zero]
  rfl

/-- **Decoding undoes encoding.** On a serialisation of a tree `inspect-dtb.py` succeeds, and
returns the number of nodes and, for each node with properties and for no other path, the
list of its properties. -/
theorem inspectParse_of_serialises {tree : DeviceTree} {data : Bytes}
    (h : Serialises tree data) : ∃ r, inspectParse data = .ok r ∧ r.data = data ∧
      r.nodeCount = tree.nodeCount ∧ r.props.entries = tree.bindings := by
  obtain ⟨header, toks, hreads, hknown, hcount⟩ := reads_of_serialises h
  refine ⟨_, (inspectParse_ok_iff data _).mpr ⟨header, toks, _, hreads, hknown, rfl⟩, rfl,
    hcount, ?_⟩
  rw [records_grouped]
  exact groupAll_flatMap tree.bindings_nodup fun e he => bindings_ne_nil he

/-- A root with one property and one child, which has a property of the same name. -/
def twoNodes : DeviceTree where
  props := [(['a'], [7])]
  children := .cons ['b'] [(['a'], [])] .none .none
  wellFormed := ⟨by decide, by decide, by decide, trivial, trivial⟩

/-- Its structure block, with an `FDT_NOP` between the property and the child. -/
def twoNodesTokens : Bytes :=
  [0, 0, 0, 1, 0, 0, 0, 0, 0, 0, 0, 3, 0, 0, 0, 1, 0, 0, 0, 0, 7, 0, 0, 0, 0, 0, 0, 4,
    0, 0, 0, 1, 0x62, 0, 0, 0, 0, 0, 0, 3, 0, 0, 0, 0, 0, 0, 0, 0, 0, 0, 0, 2, 0, 0, 0, 2]

/-- The whole file, with the string block at its end. -/
def twoNodesFile : Bytes :=
  [0xD0, 0x0D, 0xFE, 0xED, 0, 0, 0, 102, 0, 0, 0, 40, 0, 0, 0, 100, 0, 0, 0, 0, 0, 0, 0, 17,
    0, 0, 0, 16, 0, 0, 0, 0, 0, 0, 0, 2, 0, 0, 0, 60] ++ twoNodesTokens ++
    [0, 0, 0, 9, 0x61, 0]

/-- The tokens of the two nodes. -/
theorem twoNodes_bytes : NodesBytes [0x61, 0] twoNodes.root twoNodesTokens := by
  have hname : cstring ['a'] <+: ([0x61, 0] : Bytes).drop 0 := by decide
  have hchildren : NodesBytes [0x61, 0] twoNodes.children _ :=
    .cons (by decide) (.cons (by decide) hname (by decide) (by decide) .nil) .none .none
  have hroot : NodesBytes [0x61, 0] twoNodes.root _ :=
    .cons (by decide) (.cons (by decide) hname (by decide) (by decide) (.nop .nil))
      hchildren .none
  exact hroot

/-- The file is a serialisation of the two nodes. -/
theorem twoNodesFile_serialises : Serialises twoNodes twoNodesFile :=
  ⟨⟨fdtMagic, 102, 40, 100, 0, 17, 16, 0, 2, 60⟩, twoNodesTokens, [0x61, 0],
    { magic := rfl
      totalsize := rfl
      version := rfl
      lastcomp := rfl
      sizeStrings := rfl
      sizeStruct := rfl
      small := by decide
      aligned := rfl
      headerBlock := by decide
      structBlock := by decide
      stringsBlock := by decide
      stringsInside := by decide
      nodes := twoNodes_bytes }⟩

/-- The file is decoded to the two nodes. -/
theorem twoNodesFile_decoded : Serialises twoNodes twoNodesFile ∧
    ∃ r, inspectParse twoNodesFile = .ok r ∧ r.data = twoNodesFile ∧
      r.nodeCount = 2 ∧
      r.props.entries = [(['/'], [(['a'], [7])]), (['/', 'b'], [(['a'], [])])] :=
  ⟨twoNodesFile_serialises, inspectParse_of_serialises twoNodesFile_serialises⟩

end Fdt

end Msm8998
