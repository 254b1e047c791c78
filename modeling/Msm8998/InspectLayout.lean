import Msm8998.InspectReport
import Msm8998.RegDecoding

/-!
# What the Inspector Says of a Tree

A device tree has many files: names may be shared or not, `FDT_NOP` may stand anywhere, the blocks
may have any order. Behind the lines on the header, what is printed depends on the tree and on the
reservations alone. In the report the panel that a display controller chooses is looked up by its
phandle.

## Main results

* `reservations_of_encoded`: decoding a reservation block undoes encoding it.
* `inspectMain_of_serialises`: what is printed of a file of a tree.
* `panelSection_resolves`: which panel is named, on a tree with unique phandles.
-/

open Fallible FullChunks OrderedDict Transcript

namespace Msm8998

namespace Fdt

/-! ### Encoding reservations -/

/-- A number of eight bytes. -/
def doubleWord (n : ℕ) : Bytes := word (n / 2 ^ 32) ++ word n

/-- One reservation. -/
def pairBytes (r : ℕ × ℕ) : Bytes := doubleWord r.1 ++ doubleWord r.2

/-- A reservation block with its end. -/
def reservationBlock (rs : List (ℕ × ℕ)) : Bytes := rs.flatMap pairBytes ++ pairBytes (0, 0)

/-- A reservation that can be written and is not taken for the end. -/
def IsReservation (r : ℕ × ℕ) : Prop := r ≠ (0, 0) ∧ r.1 < 2 ^ 64 ∧ r.2 < 2 ^ 64

instance : DecidablePred IsReservation := fun r =>
  inferInstanceAs (Decidable (r ≠ (0, 0) ∧ r.1 < 2 ^ 64 ∧ r.2 < 2 ^ 64))

/-- The file has the reservations in the block at an offset. -/
structure ReservedAs (data : Bytes) (offset : ℕ) (rs : List (ℕ × ℕ)) : Prop where
  block : reservationBlock rs <+: data.drop offset
  valid : ∀ r ∈ rs, IsReservation r

/-- A number of 64 bits is read back. -/
theorem unpackQ_doubleWord {n : ℕ} (h : n < 2 ^ 64) : unpackQ (doubleWord n) = n := by
  simp only [unpackQ, doubleWord, word, List.cons_append, List.nil_append, List.foldl_cons,
    List.foldl_nil, UInt8.toNat_ofNat']
  omega

/-- So is a pair of them. -/
theorem pairOf_pairBytes {r : ℕ × ℕ} (hr : r.1 < 2 ^ 64 ∧ r.2 < 2 ^ 64) :
    pairOf (pairBytes r) = r := by
  have hlen : (doubleWord r.1).length = 8 := rfl
  rw [pairOf, pairBytes, List.take_left' hlen, List.drop_left' hlen, unpackQ_doubleWord hr.1,
    unpackQ_doubleWord hr.2]

/-- The first pair, and what comes behind it. -/
theorem wholePairs_pairBytes {data rest : Bytes} {offset : ℕ} {r : ℕ × ℕ}
    (hr : r.1 < 2 ^ 64 ∧ r.2 < 2 ^ 64) (h : data.drop offset = pairBytes r ++ rest) :
    wholePairs data offset = r :: wholePairs data (offset + 16) ∧
      data.drop (offset + 16) = rest := by
  have hlen : (pairBytes r).length = 16 := rfl
  have hle : 16 ≤ (data.drop offset).length := by
    rw [h, List.length_append, hlen]
    omega
  constructor
  · rw [wholePairs_of_le hle, h, List.take_left' hlen, pairOf_pairBytes hr]
  · rw [← List.drop_drop, h, List.drop_left' hlen]

/-- **Decoding undoes encoding**, whatever follows the block. -/
theorem reservations_of_encoded {data : Bytes} {offset : ℕ} {rs : List (ℕ × ℕ)}
    (h : ReservedAs data offset rs) :
    reservationsAt data offset = rs ∧ Terminated data offset := by
  obtain ⟨⟨rest, hblock⟩, hvalid⟩ := h
  induction rs generalizing offset with
  | nil =>
      obtain ⟨hpairs, -⟩ := wholePairs_pairBytes (r := (0, 0)) (by decide) hblock.symm
      rw [reservationsAt, Terminated, hpairs]
      exact ⟨List.takeWhile_cons_of_neg (by simp), List.mem_cons_self⟩
  | cons r rs ih =>
      obtain ⟨⟨hne, hr⟩, hrs⟩ := List.forall_mem_cons.mp hvalid
      rw [reservationBlock, List.flatMap_cons, List.append_assoc, List.append_assoc] at hblock
      obtain ⟨hpairs, hnext⟩ := wholePairs_pairBytes hr hblock.symm
      have hrest : reservationBlock rs ++ rest = data.drop (offset + 16) := by
        rw [hnext, reservationBlock, List.append_assoc]
      obtain ⟨htail, hend⟩ := ih hrs hrest
      rw [reservationsAt] at htail ⊢
      rw [Terminated] at hend ⊢
      rw [hpairs, List.takeWhile_cons_of_pos (by simpa using hne), htail]
      exact ⟨rfl, List.mem_cons_of_mem _ hend⟩

/-- What the section says of a list of reservations. -/
def reservationList (rs : List (ℕ × ℕ)) : Run PyError Str Unit :=
  printAll ("\n== memory reservation block (pre-kernel reserves) ==".toList ::
    if rs = [] then ["  (empty)".toList] else rs.map reservationLine)

/-- The section of a list of reservations prints this list. -/
theorem reservationSection_of_encoded {data : Bytes} {offset : ℕ} {rs : List (ℕ × ℕ)}
    (h : ReservedAs data offset rs) : reservationSection data offset = reservationList rs := by
  obtain ⟨hrs, hend⟩ := reservations_of_encoded h
  rw [reservationSection_eq, hrs, if_pos hend, reservationList, printAll]
  simp only [hend, true_and]

/-- **The reservation block.** On every file and from every offset, inside of the file or not, the
section lists the pairs before the first pair of two zeros, or says that there are none; where
no pair of two zeros follows, it lists all the pairs up to the end of the file and fails. Where a
list of reservations has been written, the pairs that are listed are these. -/
theorem reservationSection_exact (data : Bytes) (offset : ℕ) :
    reservationSection data offset =
      ⟨"\n== memory reservation block (pre-kernel reserves) ==".toList ::
          if Terminated data offset ∧ reservationsAt data offset = [] then ["  (empty)".toList]
          else (reservationsAt data offset).map reservationLine,
        if Terminated data offset then .ok () else .error .structError⟩ ∧
    ∀ rs, ReservedAs data offset rs → reservationsAt data offset = rs ∧ Terminated data offset :=
  ⟨reservationSection_eq data offset, fun _ h => reservations_of_encoded h⟩

/-! ### Files of a tree -/

/-- The dictionary of a tree. -/
def DeviceTree.dict (tree : DeviceTree) : Dict Str (List (Str × Bytes)) :=
  ⟨tree.bindings, tree.bindings_nodup⟩

/-- The parser prints the header and has then got the tree. -/
theorem parseRun_of_serialises {tree : DeviceTree} {data : Bytes} {header : Header}
    (h : Serialises tree data) (hheader : readHeader data = .ok header) :
    parseRun data =
      ⟨headerLines data header, .ok ⟨data, tree.dict, header.offRsvmap, tree.nodeCount⟩⟩ := by
  obtain ⟨header', toks, hreads, hknown, hcount⟩ := reads_of_serialises h
  obtain rfl : header' = header := Except.ok.inj (hreads.header_eq.symm.trans hheader)
  have hdict : groupAll Dict.empty ((tree.root.records []).map Record.grouped) = tree.dict := by
    refine Dict.ext ?_
    rw [records_grouped]
    exact groupAll_flatMap tree.bindings_nodup fun e he => bindings_ne_nil he
  have hparse := (inspectParse_ok_iff data _).mpr ⟨header', toks, _, hreads, hknown, rfl⟩
  rw [hcount, hdict] at hparse
  exact Run.ext (parseRun_lines hheader) ((parseRun_result data).trans hparse)

/-- What `main` prints and returns once it has a tree and its reservations. -/
def treeRun (py : PyText) (args : InspectArgs) (tree : DeviceTree) (rs : List (ℕ × ℕ)) :
    Run PyError Str ℕ :=
  afterParse py tree.dict args tree.nodeCount (reservationList rs)

/-- Only the report looks at the reservations. -/
theorem afterParse_congr (py : PyText) (props : Dict Str (List (Str × Bytes)))
    {args : InspectArgs} (nodeCount : ℕ) {r s : Run PyError Str Unit}
    (h : args.Reports → r = s) :
    afterParse py props args nodeCount r = afterParse py props args nodeCount s := by
  by_cases hreports : args.Reports
  · rw [h hreports]
  · rw [afterParse, afterParse]
    cases hnode : given args.node with
    | some node => rfl
    | none =>
        cases hgrep : given args.grep with
        | some grep => rfl
        | none =>
            have hall : args.allNodes = true := by
              by_contra hall
              exact hreports ⟨hnode, hgrep, Bool.eq_false_of_not_eq_true hall⟩
            rw [if_pos hall, if_pos hall]

/-- **Layout does not matter.** Of every file of a tree, whatever its layout, `main` prints the
lines on the header of this file and behind them, under every option, a text that depends on the
tree and, in the report, on the reservations alone; so does what it returns. -/
theorem inspectMain_of_serialises {tree : DeviceTree} {data : Bytes} {header : Header}
    {rs : List (ℕ × ℕ)} (py : PyText) (args : InspectArgs) (h : Serialises tree data)
    (hheader : readHeader data = .ok header)
    (hreserved : args.Reports → ReservedAs data header.offRsvmap rs) :
    inspectMain py args data =
      (printAll (headerLines data header) >>= fun _ => treeRun py args tree rs) := by
  rw [inspectMain, parseRun_of_serialises h hheader, bind_of_ok rfl, bind_of_ok rfl]
  have hreservations : args.Reports →
      reservationSection data header.offRsvmap = reservationList rs :=
    fun hreports => reservationSection_of_encoded (hreserved hreports)
  rw [afterParse_congr py tree.dict tree.nodeCount hreservations]
  rfl

/-- The file of `twoNodes` with one reservation behind its string block. -/
def reservedFile : Bytes :=
  [0xD0, 0x0D, 0xFE, 0xED, 0, 0, 0, 134, 0, 0, 0, 40, 0, 0, 0, 100, 0, 0, 0, 102, 0, 0, 0, 17,
    0, 0, 0, 16, 0, 0, 0, 0, 0, 0, 0, 2, 0, 0, 0, 60] ++ twoNodesTokens ++
    [0, 0, 0, 9, 0x61, 0] ++ reservationBlock [(0x85800000, 0x100000)]

def reservedHeader : Header := ⟨fdtMagic, 134, 40, 100, 102, 17, 16, 0, 2, 60⟩

/-- The file is a serialisation of the two nodes. -/
theorem reservedFile_serialises : Serialises twoNodes reservedFile :=
  ⟨reservedHeader, twoNodesTokens, [0x61, 0],
    { magic := rfl
      totalsize := rfl
      version := rfl
      lastcomp := rfl
      sizeStrings := rfl
      sizeStruct := rfl
      small := by decide
      aligned := rfl
      headerBlock := by decide
      structBlock := by decide
      stringsBlock := by decide +kernel
      stringsInside := by decide +kernel
      nodes := twoNodes_bytes }⟩

/-- What its header says. -/
theorem reservedFile_header : readHeader reservedFile = .ok reservedHeader := by
  decide +kernel

/-- What it reserves. -/
theorem reservedFile_reserved :
    ReservedAs reservedFile reservedHeader.offRsvmap [(0x85800000, 0x100000)] where
  block := by decide +kernel
  valid := by decide

/-- What is printed of this file, without an option. -/
theorem inspectMain_of_reservedFile :
    inspectMain ⟨id, id⟩ ⟨none, none, false⟩ reservedFile =
      (printAll (headerLines reservedFile reservedHeader) >>=
        fun _ => treeRun ⟨id, id⟩ ⟨none, none, false⟩ twoNodes [(0x85800000, 0x100000)]) :=
  inspectMain_of_serialises _ _ reservedFile_serialises reservedFile_header
    fun _ => reservedFile_reserved

/-! ### The choice of a panel -/

/-- A property that chooses a panel, with the phandle of the panel. -/
def choice? (p : Str × Bytes) : Option (Str × ℕ) :=
  if IsPanelChoice p.1 then (valueCells p.2).head?.map fun ph => (p.1, ph) else none

/-- The choices that the display controllers make, in the order of their paths. -/
def panelChoices (props : Dict Str (List (Str × Bytes))) : List (Str × ℕ) :=
  (sortedPaths props).flatMap fun path =>
    if IsController path then (propsOf props path).flatMap fun p => (choice? p).toList else []

/-- What is printed for a choice. -/
def choiceLines (props : Dict Str (List (Str × Bytes))) (phandles : Dict ℕ Str)
    (choice : Str × ℕ) : List Str :=
  panelLines choice.1 choice.2 (panelTarget phandles choice.2)
    (panelName props (panelTarget phandles choice.2))

section Panels

variable {props : Dict Str (List (Str × Bytes))} {phandles : Dict ℕ Str}

/-- What is printed for one property of a panel controller. -/
theorem panelPass_eq (found : Bool) {p : Str × Bytes} (hp : HasCell IsPanelChoice p) :
    panelPass props phandles found p =
      ⟨(choice? p).toList.flatMap (choiceLines props phandles),
        .ok (found || !(choice? p).toList.isEmpty)⟩ := by
  rw [panelPass, choice?]
  by_cases hname : IsPanelChoice p.1
  · obtain ⟨ph, hph, hcell⟩ := unpackWord_of_le (hp hname)
    rw [if_pos hname, if_pos hname, hph, hcell, quiet_bind_ok]
    refine Run.ext ?_ (congrArg Except.ok (Bool.or_true found).symm)
    exact (List.append_nil _).trans (List.append_nil _).symm
  · rw [if_neg hname, if_neg hname]
    exact Run.ext rfl (congrArg Except.ok (Bool.or_false found).symm)

/-- **The section** on the panels, once the phandles are known. -/
theorem panelSection_eq (hphandles : phandlesOf props = .ok phandles)
    (hpanels : ∀ e ∈ props.entries, IsController e.1 → ∀ p ∈ e.2, HasCell IsPanelChoice p) :
    panelSection props =
      ⟨"\n== primary panel selection ==".toList ::
          if panelChoices props = [] then [noPanelLine]
          else (panelChoices props).flatMap (choiceLines props phandles), .ok ()⟩ := by
  have hcells : ∀ path ∈ sortedPaths props, IsController path →
      ∀ p ∈ propsOf props path, HasCell IsPanelChoice p := by
    rw [forall_sortedPaths]
    intro e he hcontroller
    rw [propsOf_of_mem he]
    exact hpanels e he hcontroller
  have hnode : ∀ found, ∀ path ∈ sortedPaths props, panelNode props phandles found path =
      ⟨(if IsController path then (propsOf props path).flatMap fun p => (choice? p).toList
        else []).flatMap (choiceLines props phandles),
        .ok (found || !(if IsController path then (propsOf props path).flatMap fun p =>
          (choice? p).toList else []).isEmpty)⟩ := by
    intro found path hpath
    rw [panelNode]
    by_cases hcontroller : IsController path
    · rw [if_neg (not_not.mpr hcontroller), if_pos hcontroller]
      have hpass : ∀ found, ∀ p ∈ propsOf props path, panelPass props phandles found p = _ :=
        fun found p hp => panelPass_eq found (hcells path hpath hcontroller p hp)
      exact foldlM_listing hpass found
    · rw [if_pos hcontroller, if_neg hcontroller]
      exact Run.ext rfl (congrArg Except.ok (Bool.or_false found).symm)
  rw [panelSection, hphandles, quiet_bind_ok, foldlM_listing hnode, print_bind, bind_of_ok rfl,
    Bool.false_or, ← panelChoices]
  cases panelChoices props with
  | nil => rfl
  | cons choice choices =>
      rw [if_neg (List.cons_ne_nil _ _)]
      refine Run.ext (congrArg (List.cons _) ?_) rfl
      exact List.append_nil _

/-- The phandles of the nodes, in the order in which they are found. -/
def phandleBindings (props : Dict Str (List (Str × Bytes))) : List (ℕ × Str) :=
  props.entries.flatMap fun e => (e.2.filterMap phandle?).map fun ph => (ph, e.1)

/-- The phandles of a node are bound to its path. -/
theorem foldl_bindPhandle (path : Str) (ps : List (Str × Bytes)) (phandles : Dict ℕ Str) :
    ps.foldl (bindPhandle path) phandles =
      setAll phandles ((ps.filterMap phandle?).map fun ph => (ph, path)) := by
  induction ps generalizing phandles with
  | nil => rfl
  | cons p ps ih =>
      rw [List.foldl_cons, ih, bindPhandle]
      cases hp : phandle? p with
      | none => rw [List.filterMap_cons_none hp]; rfl
      | some ph => rw [List.filterMap_cons_some hp]; rfl

/-- A phandle leads to the last node that has it. -/
theorem phandlesOf_get? (h : phandlesOf props = .ok phandles) (ph : ℕ) :
    phandles.get? ph =
      (lastWith? (fun b => decide (b.1 = ph)) (phandleBindings props)).map Prod.snd := by
  rw [phandlesOf_eq] at h
  split at h
  · have hfold (es : List (Str × List (Str × Bytes))) (d : Dict ℕ Str) :
        es.foldl (fun phandles e => e.2.foldl (bindPhandle e.1) phandles) d =
          setAll d (es.flatMap fun e => (e.2.filterMap phandle?).map fun ph => (ph, e.1)) := by
      induction es generalizing d with
      | nil => rfl
      | cons e es ih =>
          rw [List.foldl_cons, ih, foldl_bindPhandle, List.flatMap_cons, setAll, setAll, setAll,
            List.foldl_append]
    rw [hfold, Except.ok.injEq] at h
    rw [← h, get?_setAll, phandleBindings]
    exact Option.or_none
  · cases h

end Panels

namespace DeviceTree

/-- A node has a phandle. -/
def HasPhandle (tree : DeviceTree) (path : List Str) (ph : ℕ) : Prop :=
  ∃ p ∈ tree.propsAt path, phandle? p = some ph

/-- No two nodes share a phandle. -/
def PhandlesUnique (tree : DeviceTree) : Prop :=
  ∀ path path' ph, tree.HasPhandle path ph → tree.HasPhandle path' ph → path = path'

/-- The name of the panel that a node is. -/
def panelAt (tree : DeviceTree) (path : List Str) : Str :=
  ((lastWith? (fun p => decide (p.1 = "qcom,mdss-dsi-panel-name".toList))
    (tree.propsAt path)).map fun p => text p.2).getD []

/-- What is printed of the node that a phandle leads to. -/
def targetLines (tree : DeviceTree) (choice : Str × ℕ) : Option (List Str) → List Str
  | none => panelLines choice.1 choice.2 "<unresolved>".toList []
  | some path => panelLines choice.1 choice.2 (nodePath ([[]] ++ path)) (tree.panelAt path)

end DeviceTree

/-- The bindings are the phandles of the nodes, with their paths. -/
theorem mem_phandleBindings {tree : DeviceTree} {ph : ℕ} {key : Str} :
    (ph, key) ∈ phandleBindings tree.dict ↔
      ∃ path, tree.HasPhandle path ph ∧ key = nodePath ([[]] ++ path) := by
  rw [phandleBindings, List.mem_flatMap]
  constructor
  · rintro ⟨e, he, hmem⟩
    obtain ⟨path, -, rfl⟩ := DeviceTree.exists_of_mem_bindings he
    obtain ⟨ph', hph', heq⟩ := List.mem_map.mp hmem
    obtain ⟨p, hp, hphandle⟩ := List.mem_filterMap.mp hph'
    cases heq
    exact ⟨path, ⟨p, hp, hphandle⟩, rfl⟩
  · rintro ⟨path, ⟨p, hp, hphandle⟩, rfl⟩
    refine ⟨_, DeviceTree.mem_bindings_of_propsAt (List.ne_nil_of_mem hp), ?_⟩
    exact List.mem_map.mpr ⟨ph, List.mem_filterMap.mpr ⟨p, hp, hphandle⟩, rfl⟩

/-- A loop that keeps what the last match gives. -/
theorem foldl_lastWith {α β : Type} (P : α → Prop) [DecidablePred P] (f : α → β) (xs : List α)
    (b : β) : xs.foldl (fun b a => if P a then f a else b) b =
      ((lastWith? (fun a => decide (P a)) xs).map f).getD b := by
  induction xs using List.reverseRecOn with
  | nil => rfl
  | append_singleton xs a ih =>
      rw [List.foldl_append, List.foldl_cons, List.foldl_nil, ih, lastWith?_concat]
      by_cases ha : P a
      · rw [if_pos ha, if_pos (decide_eq_true ha)]
        rfl
      · rw [if_neg ha, if_neg (by simpa using ha)]

section Targets

variable {tree : DeviceTree}

/-- No node is called like an unresolved phandle. -/
theorem propsOf_unresolved : propsOf tree.dict "<unresolved>".toList = [] := by
  rw [propsOf]
  cases hget : tree.dict.get? "<unresolved>".toList with
  | none => rfl
  | some ps =>
      obtain ⟨path, -, heq⟩ := DeviceTree.exists_of_mem_bindings (Dict.get?_eq_some_iff.mp hget)
      obtain ⟨hkey, -⟩ := Prod.mk.inj heq
      have hslash : '<' = '/' := (List.cons.inj hkey).1
      cases hslash

/-- The name of the panel at a path of the tree. -/
theorem panelName_nodePath {path : List Str} (hpath : ∀ n ∈ path, Component n) :
    panelName tree.dict (nodePath ([[]] ++ path)) = tree.panelAt path := by
  have hprops : propsOf tree.dict (nodePath ([[]] ++ path)) = tree.propsAt path :=
    propsOf_nodePath rfl hpath
  rw [panelName, hprops]
  exact foldl_lastWith (fun p : Str × Bytes => p.1 = "qcom,mdss-dsi-panel-name".toList)
    (fun p => text p.2) _ []

/-- **Where a phandle leads**, when one node at most has it. -/
theorem choiceLines_eq {phandles : Dict ℕ Str} (hphandles : phandlesOf tree.dict = .ok phandles)
    {choice : Str × ℕ} {target : Option (List Str)}
    (htarget : ∀ path, target = some path ↔ tree.HasPhandle path choice.2) :
    choiceLines tree.dict phandles choice = tree.targetLines choice target := by
  have hget := phandlesOf_get? hphandles choice.2
  rw [choiceLines, panelTarget, hget]
  cases hlast : lastWith? (fun b => decide (b.1 = choice.2)) (phandleBindings tree.dict) with
  | none =>
      have hnone : target = none := by
        rw [Option.eq_none_iff_forall_ne_some]
        intro path hpath
        have hmem := mem_phandleBindings.mpr ⟨path, (htarget path).mp hpath, rfl⟩
        have hany := lastWith?_isSome (fun b => decide (b.1 = choice.2))
          (phandleBindings tree.dict)
        rw [hlast, eq_comm, Option.isSome_none, List.any_eq_false] at hany
        exact hany _ hmem (decide_eq_true rfl)
      rw [hnone, DeviceTree.targetLines, Option.map_none, Option.getD_none, panelName,
        propsOf_unresolved]
      rfl
  | some b =>
      obtain ⟨hmem, hb⟩ := mem_of_lastWith? hlast
      obtain ⟨ph, key⟩ := b
      obtain rfl : ph = choice.2 := of_decide_eq_true hb
      obtain ⟨path, hpath, rfl⟩ := mem_phandleBindings.mp hmem
      obtain ⟨p, hp, -⟩ := id hpath
      rw [(htarget path).mpr hpath, DeviceTree.targetLines, Option.map_some, Option.getD_some,
        panelName_nodePath (DeviceTree.components_of_propsAt (List.ne_nil_of_mem hp))]

end Targets

/-- **The panel.** On every file of a tree in which no two nodes share a phandle: if the section is
printed to its end, then each choice of a display controller is printed with the path of the node
whose phandle it is and the name of the panel there, and as unresolved exactly when no node has
this phandle. -/
theorem panelSection_resolves {tree : DeviceTree} {data : Bytes} {r : InspectResult}
    (h : Serialises tree data) (hr : inspectParse data = .ok r)
    (hsucceeds : (panelSection r.props).Succeeds) (hunique : tree.PhandlesUnique) :
    ∃ target : ℕ → Option (List Str),
      (∀ ph path, target ph = some path ↔ tree.HasPhandle path ph) ∧
      panelSection r.props =
        ⟨"\n== primary panel selection ==".toList ::
          if panelChoices r.props = [] then [noPanelLine]
          else (panelChoices r.props).flatMap fun choice =>
            tree.targetLines choice (target choice.2), .ok ()⟩ := by
  have hprops : r.props = tree.dict := by
    obtain ⟨r', hr', -, -, hentries⟩ := inspectParse_of_serialises h
    obtain rfl : r' = r := Except.ok.inj (hr'.symm.trans hr)
    exact Dict.ext hentries
  rw [hprops] at hsucceeds ⊢
  obtain ⟨hcells, hpanels⟩ := panelSection_succeeds.mp hsucceeds
  obtain ⟨phandles, hphandles⟩ := phandlesOf_succeeds.mpr hcells
  have htarget : ∀ ph, ∃ target : Option (List Str),
      ∀ path, target = some path ↔ tree.HasPhandle path ph := by
    intro ph
    by_cases hex : ∃ path, tree.HasPhandle path ph
    · obtain ⟨path, hpath⟩ := hex
      refine ⟨some path, fun path' => ?_⟩
      rw [Option.some.injEq]
      exact ⟨fun heq => heq ▸ hpath, fun hpath' => hunique _ _ ph hpath hpath'⟩
    · exact ⟨none, fun path => iff_of_false (fun h => by cases h) fun h => hex ⟨path, h⟩⟩
  choose target htarget using htarget
  refine ⟨target, htarget, ?_⟩
  have hlines : choiceLines tree.dict phandles =
      fun choice => tree.targetLines choice (target choice.2) :=
    funext fun choice => choiceLines_eq hphandles (htarget choice.2)
  rw [panelSection_eq hphandles hpanels, hlines]

/-- The uniqueness of the phandles, decided on the dictionary. -/
theorem phandlesUnique_iff {tree : DeviceTree} : tree.PhandlesUnique ↔
    ∀ b ∈ phandleBindings tree.dict, ∀ b' ∈ phandleBindings tree.dict,
      b.1 = b'.1 → b.2 = b'.2 := by
  constructor
  · rintro hunique ⟨ph, key⟩ hb ⟨ph', key'⟩ hb' rfl
    obtain ⟨path, hpath, rfl⟩ := mem_phandleBindings.mp hb
    obtain ⟨path', hpath', rfl⟩ := mem_phandleBindings.mp hb'
    rw [hunique _ _ ph hpath hpath']
  · intro h path path' ph hpath hpath'
    have hkey := h _ (mem_phandleBindings.mpr ⟨path, hpath, rfl⟩) _
      (mem_phandleBindings.mpr ⟨path', hpath', rfl⟩) rfl
    obtain ⟨p, hp, -⟩ := hpath
    obtain ⟨p', hp', -⟩ := hpath'
    exact nodePath_injective (DeviceTree.components_of_propsAt (List.ne_nil_of_mem hp))
      (DeviceTree.components_of_propsAt (List.ne_nil_of_mem hp')) hkey

/-- A tree with a display controller and two panels. -/
def panelTree : DeviceTree where
  props := []
  children :=
    .cons "mdss_dsi_ctrl0@c994000".toList [("qcom,dsi-pref-prim-pan".toList, word 2)] .none
    (.cons "panel1".toList [("phandle".toList, word 1)] .none
    (.cons "panel2".toList [("phandle".toList, word 2), ("linux,phandle".toList, word 2),
      ("qcom,mdss-dsi-panel-name".toList, utf8 "jdi".toList ++ [0])] .none .none))
  wellFormed := by decide

/-- The file of the panel tree is a serialisation of it. -/
theorem panelTree_serialises : Serialises panelTree panelTree.file :=
  serialises_file (by decide) (by decide +kernel)

/-- Its phandles are unique. -/
theorem panelTree_unique : panelTree.PhandlesUnique :=
  phandlesUnique_iff.mpr (by decide +kernel)

/-- The second panel is named. -/
theorem panelSection_resolves_second :
    ∃ r, inspectParse panelTree.file = .ok r ∧ ∃ target : ℕ → Option (List Str),
      (∀ ph path, target ph = some path ↔ panelTree.HasPhandle path ph) ∧
      panelSection r.props =
        ⟨"\n== primary panel selection ==".toList ::
          if panelChoices r.props = [] then [noPanelLine]
          else (panelChoices r.props).flatMap fun choice =>
            panelTree.targetLines choice (target choice.2), .ok ()⟩ := by
  obtain ⟨r, hr, -, -, hentries⟩ := inspectParse_of_serialises panelTree_serialises
  have hprops : r.props = panelTree.dict := Dict.ext hentries
  have hcells : ∀ e ∈ panelTree.bindings, ∀ p ∈ e.2, HasCell IsPhandle p := by decide +kernel
  have hpanels : ∀ e ∈ panelTree.bindings, IsController e.1 → ∀ p ∈ e.2,
      HasCell IsPanelChoice p := by decide +kernel
  have hsucceeds : (panelSection r.props).Succeeds := by
    rw [hprops]
    exact panelSection_succeeds.mpr ⟨hcells, hpanels⟩
  exact ⟨r, hr, panelSection_resolves panelTree_serialises hr hsucceeds panelTree_unique⟩

end Fdt

end Msm8998
