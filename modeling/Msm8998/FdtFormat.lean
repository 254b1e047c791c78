import Msm8998.FdtWalk

/-!
# Device Trees and Their Serialisations

A device tree, and the flattened form of it that version 17 of the format allows: a header,
a string block in which every property name can be found, and a structure block of tokens,
each padded to four bytes, with `FDT_NOP` anywhere between two of them. Where the blocks
lie, which names share a suffix and where the `FDT_NOP`s stand is left to the writer, so a
tree has many serialisations.

## Main results

* `wordAt_word`, `readName_cstring`, `readProp_bytes`: each piece is read back as written.
* `DeviceTree.bindings_nodup`: no two nodes of a tree share a path.
-/

open OrderedDict

namespace Msm8998

namespace Fdt

/-! ### Trees -/

/-- Sibling nodes in order, each with its properties and its children. -/
inductive Nodes
  | none
  | cons (name : Str) (props : List (Str × Bytes)) (children rest : Nodes)

namespace Nodes

/-- The names of the siblings. -/
def names : Nodes → List Str
  | .none => []
  | .cons name _ _ rest => name :: rest.names

/-- Every name is a proper path component and differs from those of its siblings. -/
def WellFormed : Nodes → Prop
  | .none => True
  | .cons name _ children rest =>
      name ≠ [] ∧ '/' ∉ name ∧ name ∉ rest.names ∧ children.WellFormed ∧ rest.WellFormed

instance decidableWellFormed : (ns : Nodes) → Decidable ns.WellFormed
  | .none => isTrue trivial
  | .cons name _ children rest =>
      have := children.decidableWellFormed
      have := rest.decidableWellFormed
      inferInstanceAs (Decidable (name ≠ [] ∧ '/' ∉ name ∧ name ∉ rest.names ∧
        children.WellFormed ∧ rest.WellFormed))

/-- How many nodes there are. -/
def count : Nodes → ℕ
  | .none => 0
  | .cons _ _ children rest => children.count + 1 + rest.count

/-- The names from the root down to each node, in preorder, below the node at `base`. -/
def chains (base : List Str) : Nodes → List (List Str)
  | .none => []
  | .cons name _ children rest =>
      (base ++ [name]) :: (children.chains (base ++ [name]) ++ rest.chains base)

/-- The properties with their paths, in preorder. -/
def records (base : List Str) : Nodes → List Record
  | .none => []
  | .cons name props children rest =>
      props.map (fun p => ⟨nodePath (base ++ [name]), p.1, p.2⟩) ++
        (children.records (base ++ [name]) ++ rest.records base)

/-- The path and the properties of every node that has properties, in preorder. -/
def bindings (base : List Str) : Nodes → List (Str × List (Str × Bytes))
  | .none => []
  | .cons name props children rest =>
      (if props = [] then [] else [(nodePath (base ++ [name]), props)]) ++
        (children.bindings (base ++ [name]) ++ rest.bindings base)

end Nodes

/-- A device tree: the properties of the root and the nodes below it. -/
structure DeviceTree where
  props : List (Str × Bytes)
  children : Nodes
  wellFormed : children.WellFormed

namespace DeviceTree

/-- The root, whose name is empty, as a list of one node. -/
def root (tree : DeviceTree) : Nodes := .cons [] tree.props tree.children .none

/-- How many nodes the tree has, the root among them. -/
def nodeCount (tree : DeviceTree) : ℕ := tree.root.count

/-- The path and the properties of every node that has properties, in preorder. -/
def bindings (tree : DeviceTree) : List (Str × List (Str × Bytes)) := tree.root.bindings []

end DeviceTree

/-! ### Serialisations -/

/-- A big-endian word. -/
def word (n : ℕ) : Bytes :=
  [UInt8.ofNat (n / 2 ^ 24), UInt8.ofNat (n / 2 ^ 16), UInt8.ofNat (n / 2 ^ 8), UInt8.ofNat n]

/-- The zeros that fill `n` bytes up to a multiple of four. -/
def padding (n : ℕ) : Bytes := List.replicate ((4 - n % 4) % 4) 0

/-- The UTF-8 form of a string. -/
def utf8 (s : Str) : Bytes := s.flatMap String.utf8EncodeChar

/-- The UTF-8 form of a string with the zero that ends it. -/
def cstring (s : Str) : Bytes := utf8 s ++ [0]

/-- The tokens of a property list; `strings` is the string block. -/
inductive PropsBytes (strings : Bytes) : List (Str × Bytes) → Bytes → Prop
  | nil : PropsBytes strings [] []
  | nop {ps : List (Str × Bytes)} {bs : Bytes} (h : PropsBytes strings ps bs) :
      PropsBytes strings ps (word fdtNop ++ bs)
  | cons {name : Str} {value : Bytes} {nameoff : ℕ} {ps : List (Str × Bytes)} {bs : Bytes}
      (hname : '\x00' ∉ name) (hstrings : cstring name <+: strings.drop nameoff)
      (hnameoff : nameoff < 2 ^ 32) (hvalue : value.length < 2 ^ 32)
      (h : PropsBytes strings ps bs) :
      PropsBytes strings ((name, value) :: ps)
        (word fdtProp ++ word value.length ++ word nameoff ++ value ++ padding value.length ++ bs)

/-- The tokens of sibling nodes. -/
inductive NodesBytes (strings : Bytes) : Nodes → Bytes → Prop
  | none : NodesBytes strings .none []
  | nop {ns : Nodes} {bs : Bytes} (h : NodesBytes strings ns bs) :
      NodesBytes strings ns (word fdtNop ++ bs)
  | cons {name : Str} {props : List (Str × Bytes)} {children rest : Nodes} {ps cs rs : Bytes}
      (hname : '\x00' ∉ name) (hprops : PropsBytes strings props ps)
      (hchildren : NodesBytes strings children cs) (hrest : NodesBytes strings rest rs) :
      NodesBytes strings (.cons name props children rest)
        (word fdtBeginNode ++ cstring name ++ padding (cstring name).length ++ ps ++ cs ++
          word fdtEndNode ++ rs)

/-- The ten words of a header. -/
def Header.bytes (header : Header) : Bytes :=
  word header.magic ++ word header.totalsize ++ word header.offStruct ++
    word header.offStrings ++ word header.offRsvmap ++ word header.version ++
    word header.lastcomp ++ word header.bootcpu ++ word header.sizeStrings ++
    word header.sizeStruct

/-- `data` is the tree under `header`, with `tokens` before `FDT_END` in its structure block
and `strings` as its string block. -/
structure SerialisedAs (tree : DeviceTree) (data : Bytes) (header : Header)
    (tokens strings : Bytes) : Prop where
  magic : header.magic = fdtMagic
  totalsize : header.totalsize = data.length
  version : header.version = 17
  lastcomp : header.lastcomp = 16
  sizeStrings : header.sizeStrings = strings.length
  sizeStruct : header.sizeStruct = tokens.length + 4
  small : header.totalsize < 2 ^ 32 ∧ header.offRsvmap < 2 ^ 32 ∧ header.bootcpu < 2 ^ 32
  aligned : header.offStruct % 4 = 0
  headerBlock : header.bytes <+: data
  structBlock : tokens ++ word fdtEnd <+: data.drop header.offStruct
  stringsBlock : strings <+: data.drop header.offStrings
  stringsInside : header.offStrings ≤ data.length
  nodes : NodesBytes strings tree.root tokens

/-- `data` is a version 17 serialisation of the tree. -/
def Serialises (tree : DeviceTree) (data : Bytes) : Prop :=
  ∃ header tokens strings, SerialisedAs tree data header tokens strings

/-! ### Reading back the pieces -/

@[simp] theorem word_length (n : ℕ) : (word n).length = 4 := rfl

/-- The padding fills the last word. -/
theorem padding_length (n : ℕ) : (padding n).length = (4 - n % 4) % 4 := List.length_replicate

@[simp] theorem cstring_length (s : Str) : (cstring s).length = (utf8 s).length + 1 := by
  rw [cstring, List.length_append, List.length_singleton]

/-- What follows a piece at the offset after it. -/
theorem drop_after {data a b : Bytes} {pos : ℕ} (h : data.drop pos = a ++ b) :
    data.drop (pos + a.length) = b := by
  rw [← List.drop_drop, h, List.drop_left]

/-- A piece that stands at an offset is the slice from there. -/
theorem slice_of_drop {data a b : Bytes} {pos : ℕ} (h : data.drop pos = a ++ b) :
    slice data pos (pos + a.length) = a := by
  rw [slice, h, Nat.add_sub_cancel_left, List.take_left]

/-- **A word is read back.** -/
theorem wordAt_word {data post : Bytes} {pos n : ℕ} (hn : n < 2 ^ 32)
    (h : data.drop pos = word n ++ post) : wordAt data pos = .ok n := by
  simp only [wordAt, h, word, List.cons_append, List.nil_append, UInt8.toNat_ofNat',
    Except.ok.injEq]
  omega

/-- Only the zero character has a zero byte. -/
theorem zero_mem_utf8EncodeChar {c : Char} (h : 0 ∈ String.utf8EncodeChar c) : c = '\x00' := by
  have hzero : ∀ n : ℕ, 0 = UInt8.ofNat n → n % 256 = 0 := by
    intro n hn
    have htoNat := congrArg UInt8.toNat hn
    rw [UInt8.toNat_ofNat'] at htoNat
    exact htoNat.symm
  unfold String.utf8EncodeChar at h
  dsimp only at h
  split at h
  · have hz := hzero _ (List.mem_singleton.mp h)
    refine Char.ext (UInt32.toNat_inj.mp ?_)
    exact Nat.eq_zero_of_dvd_of_lt (Nat.dvd_of_mod_eq_zero hz) (by omega)
  split at h
  · simp only [List.mem_cons, List.not_mem_nil, or_false] at h
    rcases h with h | h <;> have hz := hzero _ h <;> omega
  split at h
  · simp only [List.mem_cons, List.not_mem_nil, or_false] at h
    rcases h with h | h | h <;> have hz := hzero _ h <;> omega
  · simp only [List.mem_cons, List.not_mem_nil, or_false] at h
    rcases h with h | h | h | h <;> have hz := hzero _ h <;> omega

/-- A text without the zero character has no zero byte. -/
theorem zero_not_mem_utf8 {s : Str} (h : '\x00' ∉ s) : (0 : UInt8) ∉ utf8 s := by
  intro hmem
  obtain ⟨c, hc, hzero⟩ := List.mem_flatMap.mp hmem
  exact h (zero_mem_utf8EncodeChar hzero ▸ hc)

/-- An encoded text is decoded to itself. -/
theorem utf8Decode?_utf8 (s : Str) : utf8Decode? (utf8 s) = some s := by
  have hencode : (utf8 s).toByteArray = s.utf8Encode := rfl
  rw [utf8Decode?, hencode, List.utf8Decode?_utf8Encode]
  rfl

/-- The zero that ends a string is found. -/
theorem indexNul_cstring {data post : Bytes} {pos : ℕ} {s : Str} (hs : '\x00' ∉ s)
    (h : data.drop pos = cstring s ++ post) :
    indexNul data pos = .ok (pos + (utf8 s).length) := by
  have hfind : (data.drop pos).findIdx? (· = 0) = some (utf8 s).length := by
    rw [h, cstring, List.append_assoc, List.findIdx?_append]
    have hnone : (utf8 s).findIdx? (fun b => decide (b = 0)) = none := by
      refine List.findIdx?_eq_none_iff.mpr fun b hb => ?_
      exact decide_eq_false fun he => zero_not_mem_utf8 hs (he ▸ hb)
    rw [hnone]
    simp [List.findIdx?_cons]
  simp only [indexNul, hfind]

/-- The bytes of a string up to its end. -/
theorem slice_cstring {data post : Bytes} {pos : ℕ} {s : Str}
    (h : data.drop pos = cstring s ++ post) :
    slice data pos (pos + (utf8 s).length) = utf8 s := by
  rw [cstring, List.append_assoc] at h
  exact slice_of_drop h

/-- Rounding up from an aligned place skips the padding. -/
theorem clearLow_padding {pos : ℕ} (hpos : pos % 4 = 0) (n : ℕ) :
    clearLow (pos + n + 3) = pos + n + (padding n).length := by
  rw [padding_length, clearLow]
  omega

/-- **A node name is read back.** -/
theorem readName_cstring {data post : Bytes} {pos : ℕ} {name : Str} (hpos : pos % 4 = 0)
    (hname : '\x00' ∉ name)
    (h : data.drop pos = cstring name ++ padding (cstring name).length ++ post) :
    readName data pos =
      .ok (name, pos + (cstring name).length + (padding (cstring name).length).length) := by
  rw [List.append_assoc] at h
  have hindex := indexNul_cstring hname h
  have hdecode : decodeReplace (slice data pos (pos + (utf8 name).length)) = name := by
    rw [slice_cstring h, decodeReplace, utf8Decode?_utf8]
  have hnext := clearLow_padding hpos (cstring name).length
  rw [readName, hindex]
  simp only [bind, Except.bind, pure, Except.pure, hdecode, Except.ok.injEq, Prod.mk.injEq,
    true_and]
  rw [← hnext, cstring_length]
  rfl

/-- **A property is read back.** -/
theorem readProp_bytes {data strtab post value : Bytes} {pos nameoff : ℕ} {name : Str}
    (hpos : pos % 4 = 0) (hname : '\x00' ∉ name) (hstrtab : cstring name <+: strtab.drop nameoff)
    (hnameoff : nameoff < 2 ^ 32) (hvalue : value.length < 2 ^ 32)
    (h : data.drop pos =
      word value.length ++ word nameoff ++ value ++ padding value.length ++ post) :
    readProp data strtab pos =
      .ok (name, value, pos + 8 + value.length + (padding value.length).length) := by
  simp only [List.append_assoc] at h
  have hlength := wordAt_word hvalue h
  have hafter := drop_after h
  have hoff := wordAt_word hnameoff hafter
  have hafter' := drop_after hafter
  rw [word_length, Nat.add_assoc] at hafter'
  have hslice := slice_of_drop hafter'
  obtain ⟨rest, hrest⟩ := hstrtab
  have hindex := indexNul_cstring hname hrest.symm
  have hdecode : decode (slice strtab nameoff (nameoff + (utf8 name).length)) = .ok name := by
    rw [slice_cstring hrest.symm, decode, utf8Decode?_utf8]
  have haligned : (pos + 8) % 4 = 0 := by omega
  have hnext := clearLow_padding haligned value.length
  rw [word_length] at hoff
  simp only [readProp, hlength, hoff, hindex, hdecode, bind, Except.bind, pure, Except.pure,
    Except.ok.injEq, Prod.mk.injEq, true_and]
  exact ⟨hslice, hnext⟩

/-! ### Paths -/

/-- A proper path component. -/
def Component (name : Str) : Prop := name ≠ [] ∧ '/' ∉ name

/-- No component of a path is dropped as empty. -/
theorem filter_components {names : List Str} (h : ∀ n ∈ names, Component n) :
    ([[]] ++ names).filter (fun n => decide (n ≠ [])) = names := by
  rw [List.singleton_append, List.filter_cons_of_neg (by simp)]
  exact List.filter_eq_self.mpr fun n hn => decide_eq_true (h n hn).1

/-- Paths of proper components say which components they have. -/
theorem nodePath_injective {names names' : List Str} (h : ∀ n ∈ names, Component n)
    (h' : ∀ n ∈ names', Component n) (heq : nodePath ([[]] ++ names) = nodePath ([[]] ++ names')) :
    names = names' := by
  have hsplit : ∀ ns : List Str, (∀ n ∈ ns, Component n) → ns ≠ [] →
      (['/'].intercalate ns).splitOn '/' = ns :=
    fun ns hns hne => List.splitOn_intercalate '/' (fun n hn => (hns n hn).2) hne
  have hempty : ∀ ns : List Str, (∀ n ∈ ns, Component n) → ['/'].intercalate ns = [] →
      ns = [] := by
    intro ns hns hnil
    cases ns with
    | nil => rfl
    | cons n ns =>
        cases ns with
        | nil =>
            rw [List.intercalate_singleton] at hnil
            exact absurd hnil (hns n List.mem_cons_self).1
        | cons m ns =>
            rw [List.intercalate_cons_cons, List.append_assoc] at hnil
            exact absurd (List.append_eq_nil_iff.mp hnil).1 (hns n List.mem_cons_self).1
  simp only [nodePath, filter_components h, filter_components h', List.cons.injEq, true_and] at heq
  by_cases hne : names = []
  · subst hne
    exact (hempty names' h' heq.symm).symm
  by_cases hne' : names' = []
  · subst hne'
    exact hempty names h heq
  · rw [← hsplit names h hne, heq, hsplit names' h' hne']

namespace Nodes

/-- A stack starts with one of the siblings. -/
theorem prefix_of_mem_chains {ns : Nodes} {base s : List Str} (h : s ∈ ns.chains base) :
    ∃ n ∈ ns.names, base ++ [n] <+: s := by
  induction ns generalizing base with
  | none => cases h
  | cons name props children rest ihc ihr =>
      rcases List.mem_cons.mp h with rfl | h
      · exact ⟨name, List.mem_cons_self, List.prefix_rfl⟩
      rcases List.mem_append.mp h with h | h
      · obtain ⟨n, -, hn⟩ := ihc h
        exact ⟨name, List.mem_cons_self, (List.prefix_append _ _).trans hn⟩
      · obtain ⟨n, hmem, hn⟩ := ihr h
        exact ⟨n, List.mem_cons_of_mem _ hmem, hn⟩

/-- Every node is reached in one way. -/
theorem chains_nodup {ns : Nodes} (h : ns.WellFormed) (base : List Str) :
    (ns.chains base).Nodup := by
  induction ns generalizing base with
  | none => exact List.nodup_nil
  | cons name props children rest ihc ihr =>
      obtain ⟨-, -, hnew, hchildren, hrest⟩ := h
      have hother : ∀ s ∈ rest.chains base, ¬ base ++ [name] <+: s := by
        intro s hs hprefix
        obtain ⟨n, hmem, hn⟩ := prefix_of_mem_chains hs
        have heq := List.prefix_of_prefix_length_le hprefix hn (by simp)
        have hname := List.append_cancel_left (heq.eq_of_length (by simp))
        exact hnew ((List.cons.inj hname).1 ▸ hmem)
      refine List.nodup_cons.mpr ⟨fun hmem => ?_, (ihc hchildren _).append (ihr hrest _) ?_⟩
      · rcases List.mem_append.mp hmem with hmem | hmem
        · obtain ⟨n, -, hn⟩ := prefix_of_mem_chains hmem
          have hlen := hn.length_le
          simp at hlen
        · exact hother _ hmem List.prefix_rfl
      · intro s hs hs'
        obtain ⟨n, -, hn⟩ := prefix_of_mem_chains hs
        exact hother s hs' ((List.prefix_append _ _).trans hn)

/-- The names on a stack are proper components. -/
theorem components_of_mem_chains {ns : Nodes} (h : ns.WellFormed) {base s : List Str}
    (hs : s ∈ ns.chains base) : ∃ names, s = base ++ names ∧ ∀ n ∈ names, Component n := by
  induction ns generalizing base with
  | none => cases hs
  | cons name props children rest ihc ihr =>
      obtain ⟨hne, hslash, -, hchildren, hrest⟩ := h
      rcases List.mem_cons.mp hs with rfl | hs
      · refine ⟨[name], rfl, fun n hn => ?_⟩
        rw [List.mem_singleton.mp hn]
        exact ⟨hne, hslash⟩
      rcases List.mem_append.mp hs with hs | hs
      · obtain ⟨names, rfl, hnames⟩ := ihc hchildren hs
        refine ⟨name :: names, by simp, fun n hn => ?_⟩
        rcases List.mem_cons.mp hn with rfl | hn
        · exact ⟨hne, hslash⟩
        · exact hnames n hn
      · exact ihr hrest hs

/-- The paths with properties are among all paths, in the same order. -/
theorem bindings_sublist (ns : Nodes) (base : List Str) :
    ((ns.bindings base).map Prod.fst).Sublist ((ns.chains base).map nodePath) := by
  induction ns generalizing base with
  | none => exact List.Sublist.slnil
  | cons name props children rest ihc ihr =>
      rw [bindings, chains, List.map_append, List.map_append, List.map_cons, List.map_append]
      have hrest := (ihc (base ++ [name])).append (ihr base)
      split
      · exact hrest.cons _
      · exact hrest.cons_cons _

end Nodes

/-- **No two nodes of a tree share a path.** -/
theorem DeviceTree.bindings_nodup (tree : DeviceTree) : (tree.bindings.map Prod.fst).Nodup := by
  refine (Nodes.bindings_sublist tree.root []).nodup ?_
  have hchains : tree.root.chains [] = [[]] :: tree.children.chains [[]] := by
    simp [DeviceTree.root, Nodes.chains]
  have hform : ∀ s ∈ tree.root.chains [], ∃ names, s = [[]] ++ names ∧
      ∀ n ∈ names, Component n := by
    intro s hs
    rw [hchains] at hs
    rcases List.mem_cons.mp hs with rfl | hs
    · exact ⟨[], rfl, List.forall_mem_nil _⟩
    · exact Nodes.components_of_mem_chains tree.wellFormed hs
  have hnodup : (tree.root.chains []).Nodup := by
    rw [hchains]
    refine List.nodup_cons.mpr ⟨fun hmem => ?_, Nodes.chains_nodup tree.wellFormed _⟩
    obtain ⟨n, -, hn⟩ := Nodes.prefix_of_mem_chains hmem
    have hlen := hn.length_le
    simp at hlen
  refine hnodup.map_on fun s hs t ht heq => ?_
  obtain ⟨names, rfl, hnames⟩ := hform s hs
  obtain ⟨names', rfl, hnames'⟩ := hform t ht
  rw [nodePath_injective hnames hnames' heq]

end Fdt

end Msm8998
