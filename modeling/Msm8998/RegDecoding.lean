import Msm8998.FdtRoundTrip
import Msm8998.FdtWriter
import Msm8998.InspectRegs

/-!
# Which Cell Counts Decode `reg`

On a device tree the walk of `cells` goes from the root down to the node. A node inherits each
count from the nearest ancestor that defines it, two address cells and one size cell where none
does.

## Main results

* `propsOf_nodePath`: what the flattened dictionary says about a path of the tree.
* `cells_eq`: the walk visits the ancestors and then the node itself.
* `regs_inherited`: how `reg` is decoded at a node that defines no counts.
-/

open Fallible OrderedDict

namespace Msm8998

namespace Fdt

/-! ### Nodes of a tree -/

/-- The properties of the node at a path below the siblings' parent, none when there is no such
node. -/
def Nodes.propsAt : Nodes → List Str → List (Str × Bytes)
  | .none, _ => []
  | .cons _ _ _ _, [] => []
  | .cons name props children rest, n :: path =>
      if n = name then
        if path = [] then props else children.propsAt path
      else rest.propsAt (n :: path)

/-- The paths of the ancestors of a node, from the root down. -/
def ancestors (path : List Str) : List (List Str) := (List.range path.length).map path.take

namespace DeviceTree

/-- The properties of the node at a path, none when there is no such node. -/
def propsAt (tree : DeviceTree) (path : List Str) : List (Str × Bytes) :=
  if path = [] then tree.props else tree.children.propsAt path

/-- The count that the nearest ancestor that defines it gives. -/
def inherited (tree : DeviceTree) (name : Str) (path : List Str) : Option ℕ :=
  lastSome? (fun p => countIn name (tree.propsAt p)) (ancestors path)

/-- The counts that a node inherits. -/
def inheritedCounts (tree : DeviceTree) (path : List Str) : CellCounts :=
  ⟨(tree.inherited "#address-cells".toList path).getD 2,
    (tree.inherited "#size-cells".toList path).getD 1⟩

/-- The counts that the parent of a node defines; the root has no parent. -/
def parentCounts (tree : DeviceTree) (path : List Str) : CellCounts :=
  match (ancestors path).getLast? with
  | none => ⟨2, 1⟩
  | some parent =>
      ⟨(countIn "#address-cells".toList (tree.propsAt parent)).getD 2,
        (countIn "#size-cells".toList (tree.propsAt parent)).getD 1⟩

/-- The pairs in the `reg` property of a node under some counts. -/
def regsWith (tree : DeviceTree) (counts : CellCounts) (path : List Str) : List (ℕ × ℕ) :=
  (tree.propsAt path).flatMap fun p =>
    if p.1 = "reg".toList then splitPairs counts (valueCells p.2) else []

end DeviceTree

/-! ### Nodes and the flattened tree -/

namespace Nodes

variable {ns : Nodes} {base path : List Str}

/-- **The three places** where a node with properties can stand. -/
theorem propsAt_cases {name : Str} {props : List (Str × Bytes)} {children rest : Nodes}
    (h : (Nodes.cons name props children rest).propsAt path ≠ []) :
    (path = [name] ∧ (Nodes.cons name props children rest).propsAt path = props) ∨
    (∃ below, path = name :: below ∧ children.propsAt below ≠ [] ∧
      (Nodes.cons name props children rest).propsAt path = children.propsAt below) ∨
    (rest.propsAt path ≠ [] ∧
      (Nodes.cons name props children rest).propsAt path = rest.propsAt path) := by
  cases path with
  | nil => exact absurd rfl h
  | cons n below =>
      rw [propsAt] at h ⊢
      by_cases hn : n = name
      · rw [if_pos hn] at h ⊢
        by_cases hbelow : below = []
        · rw [if_pos hbelow, hn, hbelow]
          exact .inl ⟨rfl, rfl⟩
        · rw [if_neg hbelow] at h ⊢
          exact .inr (.inl ⟨below, by rw [hn], h, rfl⟩)
      · rw [if_neg hn] at h ⊢
        exact .inr (.inr ⟨h, rfl⟩)

/-- A node with properties stands at a path of proper components. -/
theorem components_of_propsAt (hwf : ns.WellFormed) (h : ns.propsAt path ≠ []) :
    path ≠ [] ∧ ∀ n ∈ path, Component n := by
  induction ns generalizing path with
  | none => exact absurd rfl h
  | cons name props children rest ihc ihr =>
      obtain ⟨hne, hslash, -, hchildren, hrest⟩ := hwf
      rcases propsAt_cases h with ⟨rfl, -⟩ | ⟨below, rfl, hbelow, -⟩ | ⟨hother, -⟩
      · exact ⟨List.cons_ne_nil _ _, List.forall_mem_singleton.mpr ⟨hne, hslash⟩⟩
      · exact ⟨List.cons_ne_nil _ _,
          List.forall_mem_cons.mpr ⟨⟨hne, hslash⟩, (ihc hchildren hbelow).2⟩⟩
      · exact ihr hrest hother

/-- Its properties are among the bindings. -/
theorem mem_bindings_of_propsAt (h : ns.propsAt path ≠ []) :
    (nodePath (base ++ path), ns.propsAt path) ∈ ns.bindings base := by
  induction ns generalizing base path with
  | none => exact absurd rfl h
  | cons name props children rest ihc ihr =>
      rw [bindings]
      rcases propsAt_cases h with ⟨rfl, heq⟩ | ⟨below, rfl, hbelow, heq⟩ | ⟨hother, heq⟩
      · rw [heq] at h ⊢
        rw [if_neg h]
        exact List.mem_append_left _ (List.mem_singleton_self _)
      · have hmem : (nodePath (base ++ [name] ++ below), _) ∈ _ := ihc hbelow
        rw [List.append_assoc, List.singleton_append] at hmem
        rw [heq]
        exact List.mem_append_right _ (List.mem_append_left _ hmem)
      · rw [heq]
        exact List.mem_append_right _ (List.mem_append_right _ (ihr hother))

/-- Every binding comes from a node. -/
theorem exists_of_mem_bindings (hwf : ns.WellFormed) {e : Str × List (Str × Bytes)}
    (he : e ∈ ns.bindings base) :
    ∃ n ∈ ns.names, ∃ below, e = (nodePath (base ++ n :: below), ns.propsAt (n :: below)) := by
  induction ns generalizing base with
  | none => cases he
  | cons name props children rest ihc ihr =>
      obtain ⟨-, -, hnew, hchildren, hrest⟩ := hwf
      rcases List.mem_append.mp he with he | he
      · split at he
        · cases he
        · refine ⟨name, List.mem_cons_self, [], ?_⟩
          rw [List.mem_singleton.mp he, propsAt, if_pos rfl, if_pos rfl]
      rcases List.mem_append.mp he with he | he
      · obtain ⟨n, -, below, rfl⟩ := ihc hchildren he
        refine ⟨name, List.mem_cons_self, n :: below, ?_⟩
        rw [propsAt, if_pos rfl, if_neg (List.cons_ne_nil _ _), List.append_assoc]
        rfl
      · obtain ⟨n, hn, below, rfl⟩ := ihr hrest he
        refine ⟨n, List.mem_cons_of_mem _ hn, below, ?_⟩
        have hne : n ≠ name := fun heq => hnew (heq ▸ hn)
        rw [propsAt, if_neg hne]

end Nodes

section

variable {tree : DeviceTree} {path : List Str} {props : Dict Str (List (Str × Bytes))}

/-- A path with properties has no empty part. -/
theorem DeviceTree.components_of_propsAt (h : tree.propsAt path ≠ []) :
    ∀ n ∈ path, Component n := by
  rw [propsAt] at h
  split at h
  · rename_i hroot
    rw [hroot]
    exact List.forall_mem_nil _
  · exact (Nodes.components_of_propsAt tree.wellFormed h).2

/-- It is bound to them. -/
theorem DeviceTree.mem_bindings_of_propsAt (h : tree.propsAt path ≠ []) :
    (nodePath ([[]] ++ path), tree.propsAt path) ∈ tree.bindings := by
  rw [bindings, root, Nodes.bindings]
  rw [propsAt] at h ⊢
  by_cases hroot : path = []
  · rw [if_pos hroot] at h ⊢
    rw [hroot, if_neg h]
    exact List.mem_append_left _ (List.mem_singleton_self _)
  · rw [if_neg hroot] at h ⊢
    exact List.mem_append_right _ (List.mem_append_left _ (Nodes.mem_bindings_of_propsAt h))

/-- Every binding is one of a path of the tree. -/
theorem DeviceTree.exists_of_mem_bindings {e : Str × List (Str × Bytes)}
    (he : e ∈ tree.bindings) :
    ∃ path, (∀ n ∈ path, Component n) ∧ e = (nodePath ([[]] ++ path), tree.propsAt path) := by
  have hnode : ∃ path, e = (nodePath ([[]] ++ path), tree.propsAt path) := by
    rcases List.mem_append.mp he with he | he
    · split at he
      · cases he
      · exact ⟨[], List.mem_singleton.mp he⟩
    · rw [Nodes.bindings, List.append_nil] at he
      obtain ⟨n, -, below, he⟩ := Nodes.exists_of_mem_bindings tree.wellFormed he
      exact ⟨n :: below, he⟩
  obtain ⟨path, rfl⟩ := hnode
  exact ⟨path, components_of_propsAt (bindings_ne_nil he), rfl⟩

/-- **The flattened dictionary** has the properties of a node under its path. -/
theorem propsOf_nodePath (hprops : props.entries = tree.bindings)
    (hpath : ∀ n ∈ path, Component n) :
    propsOf props (nodePath ([[]] ++ path)) = tree.propsAt path := by
  rw [propsOf]
  cases hget : props.get? (nodePath ([[]] ++ path)) with
  | some ps =>
      rw [Dict.get?_eq_some_iff, hprops] at hget
      obtain ⟨path', hpath', heq⟩ := tree.exists_of_mem_bindings hget
      obtain ⟨hkey, rfl⟩ := Prod.mk.inj heq
      rw [nodePath_injective hpath hpath' hkey]
      rfl
  | none =>
      by_contra hne
      have hmem := tree.mem_bindings_of_propsAt (Ne.symm hne)
      rw [← hprops, ← Dict.get?_eq_some_iff, hget] at hmem
      cases hmem

/-! ### The walk of `cells` -/

/-- A path is split into its names. -/
theorem pathParts_nodePath (hpath : ∀ n ∈ path, Component n) :
    pathParts (nodePath ([[]] ++ path)) = path := by
  have hslash : ∀ n ∈ [[]] ++ path, '/' ∉ n :=
    List.forall_mem_cons.mpr ⟨List.not_mem_nil, fun n hn => (hpath n hn).2⟩
  rw [pathParts, nodePath, filter_components hpath]
  cases path with
  | nil => rfl
  | cons n path =>
      have hjoin : '/' :: ['/'].intercalate (n :: path) =
          ['/'].intercalate ([[]] ++ n :: path) := by
        rw [List.singleton_append, List.intercalate_cons_cons]
        rfl
      rw [hjoin, List.splitOn_intercalate '/' hslash (List.cons_ne_nil _ _),
        filter_components hpath]

/-- And put together from them. -/
theorem joinPath_eq (hpath : ∀ n ∈ path, Component n) :
    joinPath path = nodePath ([[]] ++ path) := by
  rw [nodePath, filter_components hpath, joinPath]

/-- **The walk** visits the ancestors of the node and then the node itself. -/
theorem cells_eq (hprops : props.entries = tree.bindings) (hpath : ∀ n ∈ path, Component n) :
    cells props (nodePath ([[]] ++ path)) =
      ((ancestors path ++ [path]).map tree.propsAt).foldlM countProps ⟨2, 1⟩ := by
  have hvisit : ∀ i, propsOf props (joinPath (path.take i)) = tree.propsAt (path.take i) := by
    intro i
    have htake : ∀ n ∈ path.take i, Component n := fun n hn => hpath n (List.mem_of_mem_take hn)
    rw [joinPath_eq htake, propsOf_nodePath hprops htake]
  have hpaths : ancestors path ++ [path] = (List.range (path.length + 1)).map path.take := by
    rw [List.range_succ, List.map_append, List.map_singleton, List.take_length, ancestors]
  rw [cells, pathParts_nodePath hpath, hpaths, List.map_map, List.foldlM_map]
  simp only [hvisit, Function.comp_apply]

/-! ### What is inherited -/

/-- A count that is not given. -/
theorem countIn_eq_none {name : Str} {ps : List (Str × Bytes)} (h : ∀ p ∈ ps, p.1 ≠ name) :
    countIn name ps = none := by
  rw [countIn, lastSome?, List.findSome?_eq_none_iff]
  intro p hp
  exact if_neg (h p (List.mem_reverse.mp hp))

/-- The counts at a node that defines none are those that it inherits. -/
theorem cells_of_inherited (hprops : props.entries = tree.bindings)
    (hpath : ∀ n ∈ path, Component n)
    (hown : ∀ p ∈ tree.propsAt path, p.1 ≠ "#address-cells".toList ∧
      p.1 ≠ "#size-cells".toList) :
    cells props (nodePath ([[]] ++ path)) =
      if ∀ q ∈ ancestors path, ∀ p ∈ tree.propsAt q, CountHasCell p
        then .ok (tree.inheritedCounts path) else .error .structError := by
  have hnodes : (∀ ps ∈ (ancestors path ++ [path]).map tree.propsAt, ∀ p ∈ ps, CountHasCell p) ↔
      ∀ q ∈ ancestors path, ∀ p ∈ tree.propsAt q, CountHasCell p := by
    rw [List.forall_mem_map, List.forall_mem_append, List.forall_mem_singleton]
    exact and_iff_left fun p hp hcount => absurd hcount (not_or.mpr (hown p hp))
  have hac := countIn_eq_none fun p hp => (hown p hp).1
  have hsc := countIn_eq_none fun p hp => (hown p hp).2
  rw [cells_eq hprops hpath, foldlM_countProps, lastSome?_map, lastSome?_map, lastSome?_concat,
    lastSome?_concat, hac, hsc, Option.none_or, Option.none_or]
  exact if_congr hnodes rfl rfl

end

/-! ### How `reg` is decoded -/

/-- **Decoding `reg`.** In every serialisation of a tree, at every node that has a `reg` property
and defines no counts of its own: where the count properties of the ancestors hold a cell, and
the inherited counts are not both zero, `reg` is split by the inherited counts; where one of them
is shorter, it is not decoded. -/
theorem regs_inherited (tree : DeviceTree) (data : Bytes) (h : Serialises tree data) :
    ∃ r, inspectParse data = .ok r ∧ ∀ path,
      (∃ value, ("reg".toList, value) ∈ tree.propsAt path) →
      (∀ p ∈ tree.propsAt path, p.1 ≠ "#address-cells".toList ∧ p.1 ≠ "#size-cells".toList) →
      ((∀ q ∈ ancestors path, ∀ p ∈ tree.propsAt q, CountHasCell p) →
        (tree.inheritedCounts path).ac + (tree.inheritedCounts path).sc ≠ 0 →
        regs r.props (nodePath ([[]] ++ path)) =
          .ok (tree.regsWith (tree.inheritedCounts path) path)) ∧
      (¬ (∀ q ∈ ancestors path, ∀ p ∈ tree.propsAt q, CountHasCell p) →
        regs r.props (nodePath ([[]] ++ path)) = .error .structError) := by
  obtain ⟨r, hr, -, -, hprops⟩ := inspectParse_of_serialises h
  refine ⟨r, hr, fun path hreg hown => ?_⟩
  have hpath : ∀ n ∈ path, Component n := by
    obtain ⟨value, hvalue⟩ := hreg
    exact DeviceTree.components_of_propsAt (List.ne_nil_of_mem hvalue)
  have hnode := propsOf_nodePath hprops hpath
  have hcells := cells_of_inherited hprops hpath hown
  constructor
  · intro hcounts hstep
    rw [if_pos hcounts] at hcells
    rw [regs_of_cells hcells hstep, hnode]
    rfl
  · intro hcounts
    rw [if_neg hcounts] at hcells
    rw [← hnode] at hreg
    exact regs_of_cells_error hcells hreg

/-- A tree whose root has one address cell and one size cell. The node `soc` leaves them alone,
`bus` has `reg` and counts for its children, and in `leds` there are no cells. -/
def socTree : DeviceTree where
  props := [("#address-cells".toList, word 1), ("#size-cells".toList, word 1)]
  children :=
    .cons "soc".toList []
      (.cons "uart".toList [("reg".toList, word 1 ++ word 2 ++ word 3)] .none .none)
    (.cons "bus".toList [("#address-cells".toList, word 2), ("#size-cells".toList, word 1),
      ("reg".toList, word 1 ++ word 2 ++ word 3)] .none
    (.cons "leds".toList [("#address-cells".toList, word 0), ("#size-cells".toList, word 0)]
      (.cons "led".toList [("reg".toList, word 7)] .none .none) .none))
  wellFormed := by decide

/-- The file of the tree is a serialisation of it. -/
theorem serialises_socTree : Serialises socTree socTree.file :=
  serialises_file (by decide) (by decide +kernel)

/-- What `regs` says about the tree. -/
theorem regs_socTree {props : Dict Str (List (Str × Bytes))}
    (hprops : props.entries = socTree.bindings) :
    regs props "/soc/uart".toList = .ok [(1, 2)] ∧
    regs props "/bus".toList = .ok [(2 ^ 32 + 2, 3)] ∧
    regs props "/leds/led".toList = .error .valueError := by
  have hdict : props = ⟨socTree.bindings, socTree.bindings_nodup⟩ := Dict.ext hprops
  rw [hdict]
  exact ⟨rfl, rfl, rfl⟩

/-- Decoded with the counts of their parents the first two nodes have other pairs, and the third
has none. -/
theorem parents_socTree : ∃ r, inspectParse socTree.file = .ok r ∧
    (regs r.props "/soc/uart".toList = .ok [(1, 2)] ∧
      socTree.regsWith (socTree.parentCounts ["soc".toList, "uart".toList])
        ["soc".toList, "uart".toList] = [(2 ^ 32 + 2, 3)]) ∧
    (regs r.props "/bus".toList = .ok [(2 ^ 32 + 2, 3)] ∧
      socTree.regsWith (socTree.parentCounts ["bus".toList]) ["bus".toList] = [(1, 2)]) ∧
    regs r.props "/leds/led".toList = .error .valueError := by
  obtain ⟨r, hr, -, -, hprops⟩ := inspectParse_of_serialises serialises_socTree
  obtain ⟨huart, hbus, hled⟩ := regs_socTree hprops
  exact ⟨r, hr, ⟨huart, by decide +kernel⟩, ⟨hbus, by decide +kernel⟩, hled⟩

/-- At `uart`, which defines no counts, the counts of the root are inherited. -/
theorem regs_inherited_uart : ∃ r, inspectParse socTree.file = .ok r ∧
    regs r.props "/soc/uart".toList = .ok [(1, 2)] := by
  obtain ⟨r, hr, hregs⟩ := regs_inherited socTree _ serialises_socTree
  have huart := hregs ["soc".toList, "uart".toList] ⟨_, List.mem_singleton_self _⟩ (by decide)
  refine ⟨r, hr, (huart.1 (by decide) (by decide +kernel)).trans (congrArg _ ?_)⟩
  decide +kernel

end Fdt

end Msm8998
