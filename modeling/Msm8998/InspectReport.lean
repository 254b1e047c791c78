import Msm8998.InspectMain

/-!
# When the Report Is Complete

The report is printed to its end when every part of the tree that it decodes can be decoded and
the reservation block has an end. Otherwise the program stops, and what it has printed stays.

## Main results

* `reservationLoop_eq`, `reservationSection_eq`: what is printed of a reservation block.
* `regs_succeeds`: when `reg` of a node can be decoded.
* `inspectMain_status`: when the program returns, and its exit status.
-/

open Fallible FullChunks OrderedDict Transcript

namespace Msm8998

namespace Fdt

/-! ### The reservation block -/

/-- An address and a length of eight bytes each. -/
def pairOf (bs : Bytes) : ℕ × ℕ := (unpackQ (bs.take 8), unpackQ (bs.drop 8))

/-- The pairs from an offset on, up to the end of the file. -/
def wholePairs (data : Bytes) (offset : ℕ) : List (ℕ × ℕ) :=
  (chunks 16 (data.drop offset)).map pairOf

/-- The pairs before the one of two zeros. -/
def reservationsAt (data : Bytes) (offset : ℕ) : List (ℕ × ℕ) :=
  (wholePairs data offset).takeWhile fun r => decide (r ≠ (0, 0))

/-- Whether there is a pair of two zeros. -/
def Terminated (data : Bytes) (offset : ℕ) : Prop := (0, 0) ∈ wholePairs data offset

instance (data : Bytes) (offset : ℕ) : Decidable (Terminated data offset) :=
  inferInstanceAs (Decidable ((0, 0) ∈ wholePairs data offset))

section Reservations

variable {data : Bytes} {cursor : ℕ}

/-- The first pair, when there is a full one. -/
theorem wholePairs_of_le (h : 16 ≤ (data.drop cursor).length) :
    wholePairs data cursor =
      pairOf ((data.drop cursor).take 16) :: wholePairs data (cursor + 16) := by
  rw [wholePairs, chunks_of_le (by decide) h, List.drop_drop, List.map_cons, wholePairs]

/-- Bytes that do not fill a pair are no pair. -/
theorem wholePairs_of_lt (h : (data.drop cursor).length < 16) : wholePairs data cursor = [] := by
  rw [wholePairs, chunks_of_lt h, List.map_nil]

/-- A full pair is unpacked. -/
theorem unpackPair_of_le (h : 16 ≤ (data.drop cursor).length) :
    unpackPair data cursor = .ok (pairOf ((data.drop cursor).take 16)) := by
  rw [unpackPair, if_neg (Nat.not_lt.mpr h), pairOf, List.take_take, List.drop_take]
  rfl

/-- What is shorter is an error. -/
theorem unpackPair_of_lt (h : (data.drop cursor).length < 16) :
    unpackPair data cursor = .error .structError := if_pos h

/-- **The loop**, from any place, with enough passes for what is left of the file. -/
theorem reservationLoop_eq {fuel : ℕ} (empty : Bool)
    (hfuel : (data.drop cursor).length < fuel * 16) :
    reservationLoop data fuel cursor empty =
      ⟨(reservationsAt data cursor).map reservationLine,
        if Terminated data cursor then .ok (empty && (reservationsAt data cursor).isEmpty)
        else .error .structError⟩ := by
  induction fuel generalizing cursor empty with
  | zero => omega
  | succ fuel ih =>
      rw [reservationLoop, reservationsAt]
      rcases Nat.lt_or_ge (data.drop cursor).length 16 with hlt | hle
      · have hend : ¬ Terminated data cursor := by
          rw [Terminated, wholePairs_of_lt hlt]
          exact List.not_mem_nil
        rw [if_neg hend, unpackPair_of_lt hlt, wholePairs_of_lt hlt]
        rfl
      have hpairs := wholePairs_of_le hle
      have hnext : (data.drop (cursor + 16)).length < fuel * 16 := by
        rw [List.length_drop] at hfuel hle ⊢
        omega
      rw [unpackPair_of_le hle, quiet_bind_ok, hpairs]
      by_cases hzero : pairOf ((data.drop cursor).take 16) = (0, 0)
      · have hend : Terminated data cursor := by
          rw [Terminated, hpairs, hzero]
          exact List.mem_cons_self
        rw [if_pos hend, hzero, if_pos ⟨rfl, rfl⟩, List.takeWhile_cons_of_neg (by simp)]
        exact Run.ext rfl (congrArg Except.ok (Bool.and_true empty).symm)
      · have hne : ¬ ((pairOf ((data.drop cursor).take 16)).1 = 0 ∧
            (pairOf ((data.drop cursor).take 16)).2 = 0) := fun h => hzero (Prod.ext h.1 h.2)
        have hend : Terminated data cursor ↔ Terminated data (cursor + 16) := by
          rw [Terminated, hpairs, List.mem_cons, or_iff_right (Ne.symm hzero), Terminated]
        rw [if_neg hne, ih false hnext, List.takeWhile_cons_of_pos (by simpa using hzero),
          print_bind]
        refine Run.ext rfl (if_congr hend.symm ?_ rfl)
        rw [Bool.false_and, List.isEmpty_cons, Bool.and_false]

end Reservations

/-- **The section** on the reservation block. -/
theorem reservationSection_eq (data : Bytes) (offset : ℕ) :
    reservationSection data offset =
      ⟨"\n== memory reservation block (pre-kernel reserves) ==".toList ::
          if Terminated data offset ∧ reservationsAt data offset = [] then ["  (empty)".toList]
          else (reservationsAt data offset).map reservationLine,
        if Terminated data offset then .ok () else .error .structError⟩ := by
  have hfuel : (data.drop offset).length < (data.length + 1) * 16 := by
    rw [List.length_drop]
    omega
  rw [reservationSection, reservationLoop_eq true hfuel, Bool.true_and]
  by_cases hend : Terminated data offset
  · rw [if_pos hend, if_pos hend]
    cases hrs : reservationsAt data offset with
    | nil =>
        rw [if_pos ⟨hend, rfl⟩]
        rfl
    | cons r rs =>
        rw [if_neg fun h => List.cons_ne_nil _ _ h.2]
        refine Run.ext (congrArg (List.cons _) ?_) rfl
        exact List.append_nil ((r :: rs).map reservationLine)
  · rw [if_neg hend, if_neg hend, if_neg fun h => hend h.1]
    rfl

/-- The section of the reservations ends without an error if the list is terminated. -/
theorem reservationSection_succeeds (data : Bytes) (offset : ℕ) :
    (reservationSection data offset).Succeeds ↔ Terminated data offset := by
  have hresult := congrArg Run.result (reservationSection_eq data offset)
  rw [Run.Succeeds, hresult]
  by_cases hend : Terminated data offset
  · exact iff_of_true ⟨(), if_pos hend⟩ hend
  · refine iff_of_false ?_ hend
    rintro ⟨u, hu⟩
    rw [if_neg hend] at hu
    cases hu

/-! ### What has to be decoded -/

section Decoding

variable (props : Dict Str (List (Str × Bytes)))

/-- The properties of the nodes that a walk to a path visits. -/
def visited (path : Str) : List (List (Str × Bytes)) :=
  (List.range ((pathParts path).length + 1)).map fun i =>
    propsOf props (joinPath ((pathParts path).take i))

/-- The counts that a walk to a path finds, where it finds any. -/
def countsAt (path : Str) : CellCounts :=
  CellCounts.override ⟨2, 1⟩ (lastSome? (countIn "#address-cells".toList) (visited props path))
    (lastSome? (countIn "#size-cells".toList) (visited props path))

/-- `reg` of a node can be decoded, if there is one: the counts on the way to the node hold a
cell each, and those that are in force are not both zero. -/
def RegDecodable (path : Str) : Prop :=
  (∃ value, ("reg".toList, value) ∈ propsOf props path) →
    (∀ ps ∈ visited props path, ∀ p ∈ ps, CountHasCell p) ∧
      (countsAt props path).ac + (countsAt props path).sc ≠ 0

/-- The value of a property holds a cell, if the property is one of a kind. -/
def HasCell (kind : Str → Prop) (p : Str × Bytes) : Prop := kind p.1 → 4 ≤ p.2.length

instance {kind : Str → Prop} [DecidablePred kind] : DecidablePred (HasCell kind) := fun p =>
  inferInstanceAs (Decidable (kind p.1 → 4 ≤ p.2.length))

/-- What the report decodes can be decoded. -/
structure Reportable : Prop where
  memory : RegDecodable props "/memory".toList
  reserved : ∀ e ∈ props.entries, "/reserved-memory".toList <+: e.1 → RegDecodable props e.1
  phandles : ∀ e ∈ props.entries, ∀ p ∈ e.2, HasCell IsPhandle p
  panels : ∀ e ∈ props.entries, IsController e.1 → ∀ p ∈ e.2, HasCell IsPanelChoice p

end Decoding

section Succeeds

variable {props : Dict Str (List (Str × Bytes))}

/-- What holds of all sorted paths holds of all nodes. -/
theorem forall_sortedPaths {P : Str → Prop} :
    (∀ path ∈ sortedPaths props, P path) ↔ ∀ e ∈ props.entries, P e.1 := by
  simp only [sortedPaths, List.mem_mergeSort, List.forall_mem_map]

/-- The properties of a node of the tree. -/
theorem propsOf_of_mem {e : Str × List (Str × Bytes)} (he : e ∈ props.entries) :
    propsOf props e.1 = e.2 := by
  rw [propsOf, Dict.get?_eq_some_iff.mpr he]
  rfl

/-- The cell counts on the way to a node, if every one that is met is a cell. -/
theorem cells_eq_ite (path : Str) :
    cells props path = if ∀ ps ∈ visited props path, ∀ p ∈ ps, CountHasCell p
      then .ok (countsAt props path) else .error .structError := by
  rw [cells, ← List.foldlM_map (f := fun i => propsOf props (joinPath ((pathParts path).take i))),
    foldlM_countProps]
  rfl

/-- Where no value can be decoded, `regs` fails at the first `reg`. -/
theorem regs_of_stuck {path : Str} {e : PyError}
    (h : ∀ value, (cells props path >>= fun counts => regPairs counts value) = .error e) :
    (∃ banks, regs props path = .ok banks) ↔
      ¬ ∃ value, ("reg".toList, value) ∈ propsOf props path := by
  have hpass : ∀ (out : List (ℕ × ℕ)) (p : Str × Bytes),
      (if p.1 ≠ "reg".toList then (return out : Except PyError (List (ℕ × ℕ)))
        else do
          let counts ← cells props path
          let pairs ← regPairs counts p.2
          return out ++ pairs) =
      if p.1 ≠ "reg".toList then .ok out else .error e := by
    intro out p
    rw [← bind_assoc, h]
    rfl
  rw [regs, foldlM_eq_ite hpass]
  by_cases hnone : ∀ p ∈ propsOf props path, p.1 ≠ "reg".toList
  · rw [if_pos hnone]
    refine iff_of_true ⟨_, rfl⟩ ?_
    rintro ⟨value, hvalue⟩
    exact hnone _ hvalue rfl
  · rw [if_neg hnone]
    push Not at hnone
    obtain ⟨⟨name, value⟩, hmem, rfl⟩ := hnone
    refine iff_of_false ?_ (not_not.mpr ⟨value, hmem⟩)
    rintro ⟨banks, hbanks⟩
    cases hbanks

/-- **When `reg` can be decoded.** -/
theorem regs_succeeds (path : Str) :
    (∃ banks, regs props path = .ok banks) ↔ RegDecodable props path := by
  have hcells : cells props path = _ := cells_eq_ite path
  by_cases hwalk : ∀ ps ∈ visited props path, ∀ p ∈ ps, CountHasCell p
  · rw [if_pos hwalk] at hcells
    by_cases hstep : (countsAt props path).ac + (countsAt props path).sc = 0
    · have hstuck : ∀ value, (cells props path >>= fun counts => regPairs counts value) =
          .error .valueError := by
        intro value
        rw [hcells, ok_bind, regPairs_eq, if_pos hstep]
      rw [regs_of_stuck hstuck]
      exact forall_congr' fun _ => iff_of_false not_false fun h => h.2 hstep
    · exact iff_of_true ⟨_, regs_of_cells hcells hstep⟩ fun _ => ⟨hwalk, hstep⟩
  · rw [if_neg hwalk] at hcells
    have hstuck : ∀ value, (cells props path >>= fun counts => regPairs counts value) =
        .error .structError := by
      intro value
      rw [hcells]
      rfl
    rw [regs_of_stuck hstuck]
    exact forall_congr' fun _ => iff_of_false not_false fun h => hwalk h.1

/-- A word can be unpacked from four bytes on. -/
theorem unpackWord_succeeds {value : Bytes} :
    (∃ n, unpackWord value = .ok n) ↔ 4 ≤ value.length := by
  constructor
  · rintro ⟨n, hn⟩
    by_contra hlt
    rw [unpackWord_of_lt (Nat.not_le.mp hlt)] at hn
    cases hn
  · intro hle
    obtain ⟨n, hn, -⟩ := unpackWord_of_le hle
    exact ⟨n, hn⟩

/-- The phandle that a property gives its node. -/
def phandle? (p : Str × Bytes) : Option ℕ :=
  if IsPhandle p.1 then (valueCells p.2).head? else none

/-- What one property does to `phandles`. -/
def bindPhandle (path : Str) (phandles : Dict ℕ Str) (p : Str × Bytes) : Dict ℕ Str :=
  ((phandle? p).map fun ph => phandles.set ph path).getD phandles

/-- A phandle is bound if it is a cell. -/
theorem collectPhandle_eq (path : Str) (phandles : Dict ℕ Str) (p : Str × Bytes) :
    collectPhandle path phandles p = if HasCell IsPhandle p
      then .ok (bindPhandle path phandles p) else .error .structError := by
  rw [collectPhandle, bindPhandle, phandle?]
  by_cases hname : IsPhandle p.1
  · rw [if_pos hname, if_pos hname]
    rcases Nat.lt_or_ge p.2.length 4 with hlt | hle
    · rw [unpackWord_of_lt hlt, if_neg fun h => Nat.not_le.mpr hlt (h hname)]
      rfl
    · obtain ⟨ph, hph, hcell⟩ := unpackWord_of_le hle
      have hhas : HasCell IsPhandle p := fun _ => hle
      rw [hph, hcell, if_pos hhas]
      rfl
  · have hhas : HasCell IsPhandle p := fun h => absurd h hname
    rw [if_neg hname, if_neg hname, if_pos hhas]
    rfl

/-- **`phandles`** is found when every phandle holds a cell. -/
theorem phandlesOf_eq (props : Dict Str (List (Str × Bytes))) :
    phandlesOf props = if ∀ e ∈ props.entries, ∀ p ∈ e.2, HasCell IsPhandle p
      then .ok (props.entries.foldl (fun phandles e => e.2.foldl (bindPhandle e.1) phandles)
        Dict.empty)
      else .error .structError := by
  have hnode (phandles : Dict ℕ Str) (e : Str × List (Str × Bytes)) :
      e.2.foldlM (collectPhandle e.1) phandles =
        if ∀ p ∈ e.2, HasCell IsPhandle p then .ok (e.2.foldl (bindPhandle e.1) phandles)
        else .error .structError := foldlM_eq_ite (collectPhandle_eq e.1) e.2 phandles
  rw [phandlesOf, foldlM_eq_ite hnode]

/-- The phandles can be collected if every one is a cell. -/
theorem phandlesOf_succeeds : (∃ phandles, phandlesOf props = .ok phandles) ↔
    ∀ e ∈ props.entries, ∀ p ∈ e.2, HasCell IsPhandle p := by
  rw [phandlesOf_eq]
  split
  · exact iff_of_true ⟨_, rfl⟩ ‹_›
  · rename_i hnot
    refine iff_of_false ?_ hnot
    rintro ⟨phandles, h⟩
    cases h

/-! ### The sections -/

/-- The section of the root prints without an error. -/
theorem rootSection_succeeds (nodeCount : ℕ) : (rootSection props nodeCount).Succeeds := by
  refine (print_succeeds _).bind fun _ => (succeeds_forM (fun p => ?_) _).bind fun _ =>
    print_succeeds _
  exact succeeds_ite (print_succeeds _) (pure_succeeds _)

/-- The section of the memory does so if its regions can be decoded. -/
theorem memorySection_succeeds :
    (memorySection props).Succeeds ↔ RegDecodable props "/memory".toList := by
  have hbanks (banks : List (ℕ × ℕ)) : (forM banks fun bank => print (bankLine bank) :
      Run PyError Str Unit).Succeeds ↔ True :=
    iff_of_true (succeeds_forM (fun _ => print_succeeds _) banks) trivial
  rw [memorySection, bind_succeeds fun _ => bind_succeeds hbanks, quiet_succeeds, regs_succeeds,
    and_iff_right (print_succeeds _), and_true]

/-- A reserved node is printed if its regions can be decoded. -/
theorem carveoutPass_succeeds (path : Str) : (carveoutPass props path).Succeeds ↔
    ("/reserved-memory".toList <+: path → RegDecodable props path) := by
  rw [carveoutPass]
  by_cases hpath : "/reserved-memory".toList <+: path
  · rw [if_neg (not_not.mpr hpath), forall_prop_of_true hpath, ← regs_succeeds, ← quiet_succeeds,
      ← and_true (quiet _).Succeeds]
    refine bind_succeeds fun regions => iff_of_true ?_ trivial
    exact succeeds_ite (succeeds_forM (fun _ => print_succeeds _) _)
      (succeeds_ite (print_succeeds _) (pure_succeeds _))
  · rw [if_pos hpath]
    exact iff_of_true (pure_succeeds _) fun h => absurd h hpath

/-- The section of the board prints without an error. -/
theorem boardSection_succeeds : (boardSection props).Succeeds := by
  refine (print_succeeds _).bind fun _ => succeeds_forM (fun p => ?_) _
  exact succeeds_ite (print_succeeds _) (pure_succeeds _)

/-- A choice of a panel is printed if it is a cell. -/
theorem panelPass_succeeds (phandles : Dict ℕ Str) (found : Bool) (p : Str × Bytes) :
    (panelPass props phandles found p).Succeeds ↔ HasCell IsPanelChoice p := by
  rw [panelPass]
  by_cases hname : IsPanelChoice p.1
  · rw [if_pos hname, HasCell, forall_prop_of_true hname, ← unpackWord_succeeds, ← quiet_succeeds,
      ← and_true (quiet _).Succeeds]
    exact bind_succeeds fun ph => iff_of_true ⟨true, rfl⟩ trivial
  · rw [if_neg hname]
    exact iff_of_true (pure_succeeds _) fun h => absurd h hname

/-- A controller is printed if all its choices are cells. -/
theorem panelNode_succeeds (phandles : Dict ℕ Str) (found : Bool) (path : Str) :
    (panelNode props phandles found path).Succeeds ↔
      (IsController path → ∀ p ∈ propsOf props path, HasCell IsPanelChoice p) := by
  rw [panelNode]
  by_cases hpath : IsController path
  · rw [if_neg (not_not.mpr hpath), forall_prop_of_true hpath,
      foldlM_succeeds (panelPass_succeeds phandles)]
  · rw [if_pos hpath]
    exact iff_of_true (pure_succeeds _) fun h => absurd h hpath

/-- The section of the panels prints if all phandles and all choices are cells. -/
theorem panelSection_succeeds : (panelSection props).Succeeds ↔
    (∀ e ∈ props.entries, ∀ p ∈ e.2, HasCell IsPhandle p) ∧
      ∀ e ∈ props.entries, IsController e.1 → ∀ p ∈ e.2, HasCell IsPanelChoice p := by
  have hend (found : Bool) :
      (if found then pure () else print noPanelLine : Run PyError Str Unit).Succeeds ↔ True :=
    iff_of_true (succeeds_ite (pure_succeeds _) (print_succeeds _)) trivial
  have hloop (phandles : Dict ℕ Str) := bind_succeeds (r :=
    (sortedPaths props).foldlM (panelNode props phandles) false) hend
  simp only [foldlM_succeeds (panelNode_succeeds _), and_true] at hloop
  have hprint (phandles : Dict ℕ Str) := bind_succeeds (r := print
    "\n== primary panel selection ==".toList) fun _ => hloop phandles
  rw [panelSection, bind_succeeds hprint, quiet_succeeds, phandlesOf_succeeds,
    and_iff_right (print_succeeds _), forall_sortedPaths]
  refine and_congr_right fun _ => forall₂_congr fun e he => ?_
  rw [propsOf_of_mem he]

/-- The section of the notable nodes prints without an error. -/
theorem notableSection_succeeds (py : PyText) : (notableSection py props).Succeeds := by
  refine (print_succeeds _).bind fun _ => ?_
  refine Run.Succeeds.bind (succeeds_foldlM (fun seen path => ?_) _ _) fun _ => pure_succeeds _
  refine succeeds_foldlM (fun seen p => ?_) _ _
  refine succeeds_ite (pure_succeeds _) (succeeds_ite (succeeds_ite (pure_succeeds _) ?_)
    (pure_succeeds _))
  exact (print_succeeds _).bind fun _ => pure_succeeds _

/-- The section of the reserved memory prints if the regions of all its nodes can be decoded. -/
theorem reservedMemorySection_succeeds : (reservedMemorySection props).Succeeds ↔
    ∀ e ∈ props.entries, "/reserved-memory".toList <+: e.1 → RegDecodable props e.1 := by
  rw [reservedMemorySection, seq_succeeds, forM_succeeds carveoutPass_succeeds,
    and_iff_right (print_succeeds _), forall_sortedPaths]

/-- **The report** is printed to its end when what it decodes can be decoded. -/
theorem report_succeeds (py : PyText) (nodeCount : ℕ) (reservations : Run PyError Str Unit) :
    (report py props nodeCount reservations).Succeeds ↔
      Reportable props ∧ reservations.Succeeds := by
  rw [report]
  simp only [seq_succeeds, memorySection_succeeds, reservedMemorySection_succeeds,
    panelSection_succeeds]
  constructor
  · rintro ⟨-, hmemory, hreserved, hreservations, -, ⟨hphandles, hpanels⟩, -⟩
    exact ⟨⟨hmemory, hreserved, hphandles, hpanels⟩, hreservations⟩
  · rintro ⟨⟨hmemory, hreserved, hphandles, hpanels⟩, hreservations⟩
    exact ⟨rootSection_succeeds nodeCount, hmemory, hreserved, hreservations,
      boardSection_succeeds, ⟨hphandles, hpanels⟩, notableSection_succeeds py, pure_succeeds 0⟩

end Succeeds

/-! ### The program -/

/-- Whether the program prints the report: no option was given. -/
def InspectArgs.Reports (args : InspectArgs) : Prop :=
  given args.node = none ∧ given args.grep = none ∧ args.allNodes = false

/-- Whether `--node` names a node of which no property is known. -/
def InspectArgs.Misses (args : InspectArgs) (props : Dict Str (List (Str × Bytes))) : Prop :=
  ∃ node, given args.node = some node ∧ props.get? node = none

section Program

variable (py : PyText) (props : Dict Str (List (Str × Bytes)))

/-- The search for a text prints without an error. -/
theorem grepRun_succeeds (grep : Str) : (grepRun py props grep).Succeeds := by
  refine (print_succeeds _).bind fun _ => ?_
  refine Run.Succeeds.bind (succeeds_forM (fun path => ?_) _) fun _ => pure_succeeds 0
  exact succeeds_ite (succeeds_forM (fun _ => print_succeeds _) _)
    (succeeds_forM (fun _ => succeeds_ite (print_succeeds _) (pure_succeeds _)) _)

/-- It returns 0. -/
theorem grepRun_returns (grep : Str) : (grepRun py props grep).Returns 0 :=
  bind_returns fun _ => bind_returns fun _ => pure_returns 0

/-- The list of all nodes prints without an error. -/
theorem allNodesRun_succeeds : (allNodesRun props).Succeeds :=
  (print_succeeds _).bind fun _ =>
    (succeeds_forM (fun _ => print_succeeds _) _).bind fun _ => pure_succeeds 0

/-- It returns 0. -/
theorem allNodesRun_returns : (allNodesRun props).Returns 0 :=
  bind_returns fun _ => bind_returns fun _ => pure_returns 0

/-- A report that ends without an error returns 0. -/
theorem report_returns (nodeCount : ℕ) (reservations : Run PyError Str Unit) :
    (report py props nodeCount reservations).Returns 0 :=
  bind_returns fun _ => bind_returns fun _ => bind_returns fun _ => bind_returns fun _ =>
    bind_returns fun _ => bind_returns fun _ => bind_returns fun _ => pure_returns 0

/-- `--node` always returns; its status says whether the node is known. -/
theorem nodeRun_result (node : Str) (status : ℕ) : (nodeRun props node).result = .ok status ↔
    status = if props.get? node = none then 1 else 0 := by
  rw [nodeRun]
  by_cases hget : props.get? node = none
  · rw [if_pos hget, if_pos hget, (bind_returns fun _ => pure_returns 1).result_iff]
    exact and_iff_right ⟨1, rfl⟩
  · rw [if_neg hget, if_neg hget, (bind_returns fun _ => pure_returns 0).result_iff]
    refine and_iff_right (Run.Succeeds.bind ?_ fun _ => pure_succeeds 0)
    exact (print_succeeds _).bind fun _ => succeeds_forM (fun _ => print_succeeds _) _

/-- What `main` returns after `parse`. -/
theorem afterParse_result (args : InspectArgs) (nodeCount : ℕ)
    (reservations : Run PyError Str Unit) (status : ℕ) :
    (afterParse py props args nodeCount reservations).result = .ok status ↔
      (args.Reports → Reportable props ∧ reservations.Succeeds) ∧
        (args.Misses props → status = 1) ∧ (¬ args.Misses props → status = 0) := by
  rw [afterParse]
  cases hnode : given args.node with
  | some node =>
      have hreports : ¬ args.Reports := fun h => by rw [h.1] at hnode; cases hnode
      have hmisses : args.Misses props ↔ props.get? node = none := by
        rw [InspectArgs.Misses, hnode]
        simp only [Option.some.injEq, exists_eq_left']
      refine (nodeRun_result props node status).trans ?_
      rw [and_iff_right fun h => absurd h hreports, hmisses]
      by_cases hget : props.get? node = none <;> simp [hget]
  | none =>
      have hmisses : ¬ args.Misses props := by
        rintro ⟨node, h, -⟩
        rw [hnode] at h
        cases h
      -- without `--node` the status is zero, and what is left to ask is that the run succeeds
      rw [and_iff_right fun h => absurd h hmisses, forall_prop_of_true hmisses]
      cases hgrep : given args.grep with
      | some grep =>
          have hreports : ¬ args.Reports := fun h => by rw [h.2.1] at hgrep; cases hgrep
          refine ((grepRun_returns py props grep).result_iff status).trans ?_
          exact and_congr_left' (iff_of_true (grepRun_succeeds py props grep)
            fun h => absurd h hreports)
      | none =>
          by_cases hall : args.allNodes = true
          · have hreports : ¬ args.Reports := fun h => by rw [h.2.2] at hall; cases hall
            simp only [if_pos hall, (allNodesRun_returns props).result_iff]
            exact and_congr_left' (iff_of_true (allNodesRun_succeeds props)
              fun h => absurd h hreports)
          · have hreports : args.Reports := ⟨hnode, hgrep, Bool.eq_false_of_not_eq_true hall⟩
            simp only [if_neg hall, (report_returns py props nodeCount _).result_iff]
            rw [report_succeeds, forall_prop_of_true hreports]

end Program

/-- **When the program returns**, and its exit status: it returns on every file that its parser
accepts, except that for the report what the report decodes has to be decodable and the
reservation block has to end; the status is one when `--node` names a node of which no property
is known, and zero otherwise. -/
theorem inspectMain_status (py : PyText) (args : InspectArgs) (data : Bytes) (status : ℕ) :
    (inspectMain py args data).result = .ok status ↔
      ∃ r, inspectParse data = .ok r ∧
        (args.Reports → Reportable r.props ∧ Terminated data r.offRsvmap) ∧
        (args.Misses r.props → status = 1) ∧ (¬ args.Misses r.props → status = 0) := by
  rw [inspectMain, bind_result, parseRun_result]
  refine exists_congr fun r => and_congr_right fun hr => ?_
  obtain ⟨-, -, -, -, -, rfl⟩ := (inspectParse_ok_iff data r).mp hr
  rw [afterParse_result, reservationSection_succeeds]

end Fdt

end Msm8998
