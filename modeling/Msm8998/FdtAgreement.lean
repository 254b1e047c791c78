import Msm8998.FdtWalk

/-!
# Where the Two Parsers Agree

`compare-dtb.py` has no branch for an unknown token and goes on four bytes further, where
`inspect-dtb.py` gives up. And it keys a property by the path of its node and its name
joined with a colon, so that properties of different nodes can share a key: then the last
one in the file wins, which need not be the last one in the order of the nodes.

## Main results

* `compare_get?`, `flatten_get?`: what each tool reports under a key.
* `parsers_agree_iff`: the files on which the two tools agree.
-/

open OrderedDict

namespace Msm8998

namespace Fdt

/-- The bindings of `inspect-dtb.py` in the order of its dictionary, under joined keys. -/
def flatten (props : Dict Str (List (Str × Bytes))) : Dict Str Bytes :=
  setAll Dict.empty (props.entries.flatMap fun e => e.2.map fun p => (joinKey e.1 p.1, p.2))

/-- The two tools agree on a file: both succeed or neither, and then the dictionary of
`compare-dtb.py` is that of `inspect-dtb.py`, flattened. -/
structure Agree (data : Bytes) : Prop where
  succeed : (∃ c, compareParse data = .ok c) ↔ ∃ i, inspectParse data = .ok i
  props : ∀ c i, compareParse data = .ok c → inspectParse data = .ok i →
    ∀ key, c.props.get? key = (flatten i.props).get? key

/-! ### What is reported under a key -/

/-- The last property with a key, in reading order. -/
def lastRecord (key : Str) (rs : List Record) : Option Record :=
  lastWith? (fun r => decide (r.key = key)) rs

/-- Among the nodes that have a property with this key, the one that came up last. -/
def lastNode (key : Str) (rs : List Record) : Option Str :=
  lastWith? (fun node => rs.any fun r => decide (r.node = node) && decide (r.key = key))
    (firstSeen (rs.map Record.node))

/-- The last property of a node with this key. -/
def lastRecordIn (node key : Str) (rs : List Record) : Option Record :=
  lastWith? (fun r => decide (r.node = node) && decide (r.key = key)) rs

/-- `compare-dtb.py` reports the last property in the file. -/
theorem compare_get? (rs : List Record) (key : Str) :
    (setAll Dict.empty (rs.map Record.keyed)).get? key = (lastRecord key rs).map Record.value := by
  rw [get?_setAll, lastWith?_map, Option.map_map]
  exact Option.or_none

/-- `inspect-dtb.py` lists the properties node by node. -/
theorem flatten_bindings (rs : List Record) :
    ((groupAll Dict.empty (rs.map Record.grouped)).entries.flatMap fun e =>
        e.2.map fun p => (joinKey e.1 p.1, p.2)) =
      (firstSeen (rs.map Record.node)).flatMap fun node =>
        (rs.filter fun r => decide (r.node = node)).map Record.keyed := by
  have hnodes : (rs.map Record.grouped).map Prod.fst = rs.map Record.node := by
    rw [List.map_map]
    rfl
  rw [groupAll_entries, hnodes, List.flatMap_map]
  refine List.flatMap_congr fun node _ => ?_
  rw [List.filter_map, List.map_map, List.map_map]
  refine List.map_congr_left fun r hr => ?_
  have hnode : r.node = node := of_decide_eq_true (List.mem_filter.mp hr).2
  rw [← hnode]
  rfl

/-- Flattened, it reports the last property in the node that came up last. -/
theorem flatten_get? (rs : List Record) (key : Str) :
    (flatten (groupAll Dict.empty (rs.map Record.grouped))).get? key =
      (lastNode key rs).bind fun node => (lastRecordIn node key rs).map Record.value := by
  have hany : ∀ node, ((rs.filter fun r => decide (r.node = node)).map Record.keyed).any
      (fun e => decide (e.1 = key)) =
      rs.any fun r => decide (r.node = node) && decide (r.key = key) := by
    intro node
    rw [List.any_map, List.any_filter]
    rfl
  rw [flatten, get?_setAll, flatten_bindings, lastWith?_flatMap]
  simp only [hany]
  rw [← lastNode]
  cases lastNode key rs with
  | none => rfl
  | some node =>
      simp only [Option.bind_some]
      rw [lastWith?_map, lastWith?_filter, Option.map_map]
      exact Option.or_none

/-! ### The files on which the tools agree -/

/-- A property is overtaken: the last one with its key in the file and the last one with
that key in the order of the nodes have different values. -/
def Overtaken (rs : List Record) : Prop :=
  ∃ key node a b, lastRecord key rs = some a ∧ lastNode key rs = some node ∧
    lastRecordIn node key rs = some b ∧ a.value ≠ b.value

/-- A key that is there is there in both orders. -/
theorem lastNode_of_lastRecord {rs : List Record} {key : Str} {a : Record}
    (h : lastRecord key rs = some a) :
    ∃ node b, lastNode key rs = some node ∧ lastRecordIn node key rs = some b := by
  obtain ⟨hmem, hkey⟩ := mem_of_lastWith? h
  have hnode : (lastNode key rs).isSome = true := by
    rw [lastNode, lastWith?_isSome, List.any_eq_true]
    refine ⟨a.node, mem_firstSeen.mpr (List.mem_map_of_mem hmem), List.any_eq_true.mpr ?_⟩
    exact ⟨a, hmem, by rw [decide_eq_true rfl, hkey, Bool.and_self]⟩
  obtain ⟨node, hnode⟩ := Option.isSome_iff_exists.mp hnode
  have hlast : (lastRecordIn node key rs).isSome = true := by
    rw [lastRecordIn, lastWith?_isSome]
    exact (mem_of_lastWith? hnode).2
  obtain ⟨b, hb⟩ := Option.isSome_iff_exists.mp hlast
  exact ⟨node, b, hnode, hb⟩

/-- A key that comes up in some node has a last property in the file. -/
theorem lastRecord_of_lastNode {rs : List Record} {key node : Str}
    (h : lastNode key rs = some node) : ∃ a, lastRecord key rs = some a := by
  obtain ⟨r, hmem, hr⟩ := List.any_eq_true.mp (mem_of_lastWith? h).2
  rw [Bool.and_eq_true] at hr
  have hsome : (lastRecord key rs).isSome = true := by
    rw [lastRecord, lastWith?_isSome, List.any_eq_true]
    exact ⟨r, hmem, hr.2⟩
  exact Option.isSome_iff_exists.mp hsome

/-- Without an overtaken property both tools report the same under every key. -/
theorem get?_eq_iff (rs : List Record) :
    (∀ key, (setAll Dict.empty (rs.map Record.keyed)).get? key =
      (flatten (groupAll Dict.empty (rs.map Record.grouped))).get? key) ↔ ¬ Overtaken rs := by
  simp only [compare_get?, flatten_get?]
  constructor
  · rintro h ⟨key, node, a, b, ha, hnode, hb, hne⟩
    have hkey := h key
    rw [ha, hnode, Option.bind_some, hb] at hkey
    exact hne (Option.some.inj hkey)
  · intro h key
    cases ha : lastRecord key rs with
    | none =>
        cases hnode : lastNode key rs with
        | none => rfl
        | some node =>
            obtain ⟨a, ha'⟩ := lastRecord_of_lastNode hnode
            rw [ha] at ha'
            cases ha'
    | some a =>
        obtain ⟨node, b, hnode, hb⟩ := lastNode_of_lastRecord ha
        rw [hnode, Option.bind_some, hb, Option.map_some, Option.map_some, Option.some.injEq]
        by_contra hne
        exact h ⟨key, node, a, b, ha, hnode, hb, hne⟩

/-- **Where the two parsers agree**: on a file whose tokens can be read up to `FDT_END` with
balanced nodes, exactly when no token is unknown and no property is overtaken; on any other
file neither tool succeeds. -/
theorem parsers_agree_iff (data : Bytes) :
    Agree data ↔ ∀ header toks rs, Reads data header toks rs →
      (∀ t ∈ toks, t.isUnknown = false) ∧ ¬ Overtaken rs := by
  constructor
  · intro h header toks rs hreads
    have hcompare := (compareParse_ok_iff data _).mpr ⟨header, toks, rs, hreads, rfl⟩
    obtain ⟨i, hi⟩ := h.succeed.mp ⟨_, hcompare⟩
    obtain ⟨header', toks', rs', hreads', hknown, rfl⟩ := (inspectParse_ok_iff data i).mp hi
    obtain ⟨rfl, rfl, rfl⟩ := hreads.unique hreads'
    exact ⟨hknown, (get?_eq_iff rs).mp (h.props _ _ hcompare hi)⟩
  · intro h
    refine ⟨⟨?_, ?_⟩, ?_⟩
    · rintro ⟨c, hc⟩
      obtain ⟨header, toks, rs, hreads, -⟩ := (compareParse_ok_iff data c).mp hc
      exact ⟨_, (inspectParse_ok_iff data _).mpr
        ⟨header, toks, rs, hreads, (h header toks rs hreads).1, rfl⟩⟩
    · rintro ⟨i, hi⟩
      obtain ⟨header, toks, rs, hreads, -, -⟩ := (inspectParse_ok_iff data i).mp hi
      exact ⟨_, (compareParse_ok_iff data _).mpr ⟨header, toks, rs, hreads, rfl⟩⟩
    · intro c i hc hi
      obtain ⟨header, toks, rs, hreads, rfl⟩ := (compareParse_ok_iff data c).mp hc
      obtain ⟨header', toks', rs', hreads', -, rfl⟩ := (inspectParse_ok_iff data i).mp hi
      obtain ⟨rfl, rfl, rfl⟩ := hreads.unique hreads'
      exact (get?_eq_iff rs).mpr (h header toks rs hreads).2

/-- A property of a node that is opened again is overtaken by one of a node in between. -/
example : Overtaken
    [⟨['/', 'a'], ['p'], [0]⟩, ⟨['/', 'a', ':', 'b'], ['c'], [1]⟩,
      ⟨['/', 'a'], ['b', ':', 'c'], [2]⟩] :=
  ⟨['/', 'a', ':', 'b', ':', 'c'], ['/', 'a', ':', 'b'], _, _, rfl, rfl, rfl, by decide⟩

/-- A header with an empty string block, and a structure block that holds the word `5` and
`FDT_END`. -/
def strayWord : Bytes :=
  [0xD0, 0x0D, 0xFE, 0xED, 0, 0, 0, 48, 0, 0, 0, 40, 0, 0, 0, 48, 0, 0, 0, 40, 0, 0, 0, 17,
    0, 0, 0, 16, 0, 0, 0, 0, 0, 0, 0, 0, 0, 0, 0, 8, 0, 0, 0, 5, 0, 0, 0, 9]

/-- `compare-dtb.py` accepts it; `inspect-dtb.py` does not. -/
theorem strayWord_disagrees :
    (∃ c, compareParse strayWord = .ok c) ∧ (∀ i, inspectParse strayWord ≠ .ok i) ∧
      ¬ Agree strayWord := by
  have hheader : readHeader strayWord = .ok ⟨fdtMagic, 48, 40, 48, 40, 17, 16, 0, 0, 8⟩ := by
    decide +kernel
  have hword : readToken strayWord [] 40 = .ok (some (.unknown 5 40, 44)) := by decide +kernel
  have hend : readToken strayWord [] 44 = .ok none := by decide +kernel
  have hreads : Reads strayWord _ [.unknown 5 40] [] := ⟨hheader, .step hword (.stop hend), rfl⟩
  have hcompare : ∃ c, compareParse strayWord = .ok c :=
    ⟨_, (compareParse_ok_iff _ _).mpr ⟨_, _, _, hreads, rfl⟩⟩
  have hinspect : ∀ i, inspectParse strayWord ≠ .ok i := by
    intro i hi
    obtain ⟨header, toks, rs, hreads', hknown, -⟩ := (inspectParse_ok_iff _ i).mp hi
    obtain ⟨-, rfl, -⟩ := hreads.unique hreads'
    cases hknown _ List.mem_cons_self
  refine ⟨hcompare, hinspect, fun h => ?_⟩
  obtain ⟨i, hi⟩ := h.succeed.mp hcompare
  exact hinspect i hi

end Fdt

end Msm8998
