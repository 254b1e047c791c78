import Msm8998.FdtRoundTrip

/-!
# Every Device Tree Has a Serialisation

A writer for the format: the header, the structure block and behind it the string block, in
which the property names stand one after another in the order of the tree, without `FDT_NOP`
and without sharing. The offset of the next name is threaded through the tree.

## Main results

* `nodesBytes_tokens`: the tokens that are written are tokens of the tree.
* `serialises_file`: what is written is a serialisation, for every tree without zero
  characters in its names that fits a file of less than 4 GiB.
-/

namespace Msm8998

namespace Fdt

/-! ### The writer -/

/-- The names of a property list, one after another. -/
def propStrings (ps : List (Str × Bytes)) : Bytes := ps.flatMap fun p => cstring p.1

/-- The tokens of a property list whose names start at an offset of the string block. -/
def propTokens (nameoff : ℕ) : List (Str × Bytes) → Bytes
  | [] => []
  | (name, value) :: ps =>
      word fdtProp ++ word value.length ++ word nameoff ++ value ++ padding value.length ++
        propTokens (nameoff + (cstring name).length) ps

namespace Nodes

/-- The property names, one after another. -/
def strings : Nodes → Bytes
  | .none => []
  | .cons _ props children rest => propStrings props ++ (children.strings ++ rest.strings)

/-- The tokens of sibling nodes whose property names start at an offset. -/
def tokens (nameoff : ℕ) : Nodes → Bytes
  | .none => []
  | .cons name props children rest =>
      word fdtBeginNode ++ cstring name ++ padding (cstring name).length ++
        propTokens nameoff props ++ children.tokens (nameoff + (propStrings props).length) ++
        word fdtEndNode ++
        rest.tokens (nameoff + (propStrings props).length + children.strings.length)

/-- No name of a node or a property has a zero character, and the values are short enough for
their length to be written. -/
def Writable : Nodes → Prop
  | .none => True
  | .cons name props children rest =>
      '\x00' ∉ name ∧ (∀ p ∈ props, '\x00' ∉ p.1 ∧ p.2.length < 2 ^ 32) ∧
        children.Writable ∧ rest.Writable

instance decidableWritable : (ns : Nodes) → Decidable ns.Writable
  | .none => isTrue trivial
  | .cons name props children rest =>
      have := children.decidableWritable
      have := rest.decidableWritable
      inferInstanceAs (Decidable ('\x00' ∉ name ∧
        (∀ p ∈ props, '\x00' ∉ p.1 ∧ p.2.length < 2 ^ 32) ∧ children.Writable ∧ rest.Writable))

end Nodes

namespace DeviceTree

/-- The header of the file that is written. -/
def header (tree : DeviceTree) : Header where
  magic := fdtMagic
  totalsize := 40 + (tree.root.tokens 0).length + 4 + tree.root.strings.length
  offStruct := 40
  offStrings := 40 + (tree.root.tokens 0).length + 4
  offRsvmap := 0
  version := 17
  lastcomp := 16
  bootcpu := 0
  sizeStrings := tree.root.strings.length
  sizeStruct := (tree.root.tokens 0).length + 4

/-- The file that is written. -/
def file (tree : DeviceTree) : Bytes :=
  tree.header.bytes ++ (tree.root.tokens 0 ++ word fdtEnd) ++ tree.root.strings

end DeviceTree

/-! ### What is written is a serialisation -/

/-- The tokens of a property list, for any string block that holds its names at the offset. -/
theorem propsBytes_propTokens {ps : List (Str × Bytes)} {strings pre post : Bytes}
    (hps : ∀ p ∈ ps, '\x00' ∉ p.1 ∧ p.2.length < 2 ^ 32)
    (hstrings : strings = pre ++ (propStrings ps ++ post)) (hsmall : strings.length < 2 ^ 32) :
    PropsBytes strings ps (propTokens pre.length ps) := by
  induction ps generalizing pre with
  | nil => exact .nil
  | cons p ps ih =>
      obtain ⟨name, value⟩ := p
      obtain ⟨⟨hname, hvalue⟩, hps⟩ := List.forall_mem_cons.mp hps
      have hnext : strings = (pre ++ cstring name) ++ (propStrings ps ++ post) := by
        rw [hstrings, propStrings, List.flatMap_cons]
        simp only [List.append_assoc]
        rfl
      have hfound : cstring name <+: strings.drop pre.length := by
        rw [hnext, List.append_assoc, List.drop_left]
        exact List.prefix_append _ _
      have hoff : pre.length < 2 ^ 32 := by
        rw [hnext] at hsmall
        simp only [List.length_append] at hsmall
        omega
      have hrest := ih hps hnext
      rw [List.length_append] at hrest
      exact .cons hname hfound hoff hvalue hrest

/-- **The tokens of sibling nodes.** -/
theorem nodesBytes_tokens {ns : Nodes} {strings pre post : Bytes} (hns : ns.Writable)
    (hstrings : strings = pre ++ (ns.strings ++ post)) (hsmall : strings.length < 2 ^ 32) :
    NodesBytes strings ns (ns.tokens pre.length) := by
  induction ns generalizing pre post with
  | none => exact .none
  | cons name props children rest ihc ihr =>
      obtain ⟨hname, hprops, hchildren, hrest⟩ := hns
      rw [Nodes.strings, List.append_assoc, List.append_assoc] at hstrings
      have hc : strings = (pre ++ propStrings props) ++
          (children.strings ++ (rest.strings ++ post)) := by
        rw [hstrings, List.append_assoc]
      have hr : strings = (pre ++ propStrings props ++ children.strings) ++
          (rest.strings ++ post) := by
        rw [hc]
        simp only [List.append_assoc]
      have hcbytes := ihc hchildren hc
      have hrbytes := ihr hrest hr
      rw [List.length_append] at hcbytes
      rw [List.length_append, List.length_append] at hrbytes
      exact .cons hname (propsBytes_propTokens hprops hstrings hsmall) hcbytes hrbytes

/-- A header is ten words long. -/
theorem header_bytes_length (header : Header) : header.bytes.length = 40 := rfl

/-- **The file** is a serialisation of the tree. -/
theorem serialises_file {tree : DeviceTree} (hnames : tree.root.Writable)
    (hsmall : tree.file.length < 2 ^ 32) : Serialises tree tree.file := by
  have hlength : tree.file.length = tree.header.totalsize := by
    simp only [DeviceTree.file, DeviceTree.header, List.length_append, header_bytes_length,
      word_length, Nat.add_assoc]
  have hstruct : tree.file.drop 40 = tree.root.tokens 0 ++ word fdtEnd ++ tree.root.strings := by
    rw [DeviceTree.file, List.append_assoc, List.drop_left' (header_bytes_length _)]
  have hstrings : tree.file.drop tree.header.offStrings = tree.root.strings := by
    rw [DeviceTree.file, List.drop_left']
    simp only [DeviceTree.header, List.length_append, header_bytes_length, word_length,
      Nat.add_assoc]
  have htotal := hsmall
  rw [hlength, DeviceTree.header] at htotal
  dsimp only at htotal
  refine ⟨tree.header, tree.root.tokens 0, tree.root.strings, ?_⟩
  constructor
  case magic | version | lastcomp | sizeStrings | sizeStruct => rfl
  case aligned => exact Nat.mod_eq_zero_of_dvd ⟨10, rfl⟩
  case totalsize => exact hlength.symm
  case small =>
    rw [← hlength]
    exact ⟨hsmall, Nat.two_pow_pos 32, Nat.two_pow_pos 32⟩
  case headerBlock =>
    rw [DeviceTree.file, List.append_assoc]
    exact List.prefix_append _ _
  case structBlock =>
    exact ⟨_, hstruct.symm⟩
  case stringsBlock =>
    exact ⟨[], (List.append_nil _).trans hstrings.symm⟩
  case stringsInside =>
    rw [hlength]
    exact Nat.le_add_right _ _
  case nodes =>
    have hstart : tree.root.strings = [] ++ (tree.root.strings ++ []) := by
      rw [List.nil_append, List.append_nil]
    exact nodesBytes_tokens hnames hstart (by omega)

/-- What is read from it are the properties of the tree. -/
theorem reads_file {tree : DeviceTree} (hnames : tree.root.Writable)
    (hsmall : tree.file.length < 2 ^ 32) :
    ∃ header toks, Reads tree.file header toks (tree.root.records []) := by
  obtain ⟨header, toks, hreads, -⟩ := reads_of_serialises (serialises_file hnames hsmall)
  exact ⟨header, toks, hreads⟩

end Fdt

end Msm8998
