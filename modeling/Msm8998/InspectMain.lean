import Msm8998.CompareVerdict
import Msm8998.InspectRegs
import Msm8998.MkbootimgArgs
import Msm8998.Transcript

/-!
# What the Inspector Prints

This module models `main` of `inspect-dtb.py` with everything it prints: the header, one node, the
matches of a search, the list of the nodes, or the report. A line of the transcript is the text of
one call of `print`.

The two operations on a `str` that need the tables of Unicode, `lower` and `repr`, are fields of
`PyText`. How `argparse` reads the command line and how the output is encoded are left out.

## Main results

* `parseRun_result`, `parseRun_lines`: the parser that prints is the parser that does not, and
  what it prints is the header.
-/

open Fallible OrderedDict Transcript

namespace Msm8998

namespace Fdt

open BootImage (pyDecimal pyHex)

/-! ### Texts -/

/-- What depends on the tables of Unicode. -/
structure PyText where
  lower : Str → Str
  repr : Str → Str

/-- `"%-ns" % s`. -/
def ljust (n : ℕ) (s : Str) : Str := s ++ List.replicate (n - s.length) ' '

/-- `"%X" % n`. -/
def pyHexUpper (n : ℕ) : Str := (Nat.toDigits 16 n).map Char.toUpper

/-- `"0x%016X" % n`. -/
def pyHex16 (n : ℕ) : Str :=
  "0x".toList ++ List.replicate (16 - (pyHexUpper n).length) '0' ++ pyHexUpper n

/-- `bs.hex()`. -/
def bytesHex (bs : Bytes) : Str :=
  bs.flatMap fun b => [Nat.digitChar (b.toNat / 16), Nat.digitChar (b.toNat % 16)]

/-- `s.strip("/")`. -/
def stripSlashes (s : Str) : Str :=
  ((s.dropWhile fun c => decide (c = '/')).reverse.dropWhile fun c => decide (c = '/')).reverse

/-- `s.replace("\0", " | ")`. -/
def replaceNul (s : Str) : Str := s.flatMap fun c => if c = '\x00' then " | ".toList else [c]

/-- `a <= b`, by code points. -/
def pyLe (a b : Str) : Bool := !(b.lex a fun c d => decide (c.toNat < d.toNat))

/-- `text`. -/
def text (value : Bytes) : Str := decodeReplace (rstripNul value)

/-- The text of a value all of whose characters are printable, without the zeros at its end. -/
def printable? (value : Bytes) : Option Str :=
  (utf8Decode? (rstripNul value)).filter fun decoded =>
    decide (decoded ≠ []) && decoded.all fun c => decide (31 < c.toNat ∧ c.toNat < 127)

/-- `render`. -/
def render (value : Bytes) : Str :=
  if value = [] then "(boolean)".toList
  else match printable? value with
    | some decoded => '\"' :: decoded ++ ['\"']
    | none =>
        if value.length % 4 = 0 ∧ (unpackWords value).length ≤ 8 then
          [' '].intercalate ((unpackWords value).map fun w => '<' :: pyDecimal w ++ ['>'])
        else
          pyDecimal value.length ++ " bytes: ".toList ++ bytesHex (value.take 24) ++
            if value.length > 24 then "...".toList else []

/-- `INTERESTING`. -/
def interesting : List Str :=
  ["nokia".toList, "fih".toList, "msm8998".toList, "synaptics".toList, "goodix".toList,
    "atmel".toList, "touch".toList, "panel".toList, "dsi".toList, "st,".toList,
    "qcom,mdss".toList, "battery".toList]

/-! ### The header -/

/-- What `parse` prints. -/
def headerLines (data : Bytes) (header : Header) : List Str :=
  ["== header ==".toList,
    "  file size    : ".toList ++ pyDecimal data.length ++ " (header totalsize=".toList ++
      pyDecimal header.totalsize ++ ")".toList,
    "  version      : ".toList ++ pyDecimal header.version ++ " (last compatible ".toList ++
      pyDecimal header.lastcomp ++ ")".toList,
    "  struct block : @".toList ++ pyHex header.offStruct ++ " +".toList ++
      pyHex header.sizeStruct,
    "  strings      : @".toList ++ pyHex header.offStrings ++ " +".toList ++
      pyHex header.sizeStrings,
    "  rsvmap       : @".toList ++ pyHex header.offRsvmap] ++
  if header.totalsize ≠ data.length then
    ["  NOTE         : file is ".toList ++ pyDecimal data.length ++
      " bytes but header says ".toList ++ pyDecimal header.totalsize]
  else []

/-- `parse`, with what it prints. -/
def parseRun (data : Bytes) : Run PyError Str InspectResult := do
  let header ← quiet (readHeader data)
  printAll (headerLines data header)
  let s ← quiet (whileTrue (inspectStep data (header.strtab data)) (data.length + 1)
    ⟨header.offStruct, [], Dict.empty, 0⟩)
  return ⟨data, s.props, header.offRsvmap, s.nodeCount⟩

/-! ### The sections of the report -/

section Sections

variable (py : PyText) (props : Dict Str (List (Str × Bytes)))

/-- `sorted(props)`. -/
def sortedPaths : List Str := (props.entries.map Prod.fst).mergeSort pyLe

/-- `== root ==`. -/
def rootSection (nodeCount : ℕ) : Run PyError Str Unit := do
  print "\n== root ==".toList
  forM (propsOf props ['/']) fun p =>
    if p.1 = "model".toList ∨ p.1 = "compatible".toList then
      print ("  ".toList ++ ljust 12 p.1 ++ " : ".toList ++ text p.2)
    else pure ()
  print ("  node count   : ".toList ++ pyDecimal nodeCount)

/-- What is printed for one bank of memory. -/
def bankLine (bank : ℕ × ℕ) : Str :=
  "  ".toList ++ pyHex16 bank.1 ++ " .. ".toList ++ pyHex16 (bank.1 + bank.2) ++ "  (".toList ++
    pyDecimal (bank.2 >>> 20) ++ " MiB)".toList

/-- `== /memory ==`. -/
def memorySection : Run PyError Str Unit := do
  print "\n== /memory ==".toList
  let banks ← quiet (regs props "/memory".toList)
  forM banks fun bank => print (bankLine bank)

/-- `flags` of a node. -/
def carveoutFlags (ps : List (Str × Bytes)) : List Str :=
  ps.filterMap fun p =>
    if p.1 = "status".toList then some ("status=".toList ++ text p.2)
    else if p.1 = "compatible".toList then some ("compatible=".toList ++ text p.2)
    else if p.1 = "no-map".toList ∨ p.1 = "reusable".toList ∨ p.1 = "shared-dma-pool".toList then
      some p.1
    else none

/-- What is printed for one region of a node. -/
def carveoutLine (path : Str) (flags : List Str) (region : ℕ × ℕ) : Str :=
  "  ".toList ++ ljust 44 path ++ " ".toList ++ pyHex16 region.1 ++ " +0x".toList ++
    ljust 9 (pyHexUpper region.2) ++ " ".toList ++ [' '].intercalate flags

/-- One pass of the loop of `== /reserved-memory ==`. -/
def carveoutPass (path : Str) : Run PyError Str Unit :=
  if ¬ "/reserved-memory".toList <+: path then pure ()
  else do
    let flags := carveoutFlags (propsOf props path)
    let regions ← quiet (regs props path)
    if regions ≠ [] then
      forM regions fun region => print (carveoutLine path flags region)
    else if flags ≠ [] then
      print ("  ".toList ++ ljust 44 path ++ " ".toList ++ [' '].intercalate flags)
    else pure ()

/-- `== /reserved-memory ==`. -/
def reservedMemorySection : Run PyError Str Unit := do
  print "\n== /reserved-memory ==".toList
  forM (sortedPaths props) (carveoutPass props)

/-- `== board identification ==`. -/
def boardSection : Run PyError Str Unit := do
  print "\n== board identification ==".toList
  forM (propsOf props ['/']) fun p =>
    if "qcom,".toList <+: p.1 ∧ "id".toList <:+ p.1 ∧ p.2 ≠ [] then
      print ("  ".toList ++ ljust 14 p.1 ++ " ".toList ++
        [' '].intercalate ((unpackWords p.2).map fun w =>
          pyDecimal w ++ "(".toList ++ pyHex w ++ ")".toList))
    else pure ()

/-- One property of a node on the way to `phandles`. -/
def collectPhandle (path : Str) (phandles : Dict ℕ Str) (p : Str × Bytes) :
    Except PyError (Dict ℕ Str) :=
  if IsPhandle p.1 then do
    let ph ← unpackWord p.2
    return phandles.set ph path
  else return phandles

/-- `phandles`. -/
def phandlesOf : Except PyError (Dict ℕ Str) :=
  props.entries.foldlM (fun phandles e => e.2.foldlM (collectPhandle e.1) phandles) Dict.empty

/-- `panel`, when the loop over the properties of the target has ended. -/
def panelName (target : Str) : Str :=
  (propsOf props target).foldl
    (fun panel p => if p.1 = "qcom,mdss-dsi-panel-name".toList then text p.2 else panel) []

/-- `phandles.get(ph, "<unresolved>")`. -/
def panelTarget (phandles : Dict ℕ Str) (ph : ℕ) : Str :=
  (phandles.get? ph).getD "<unresolved>".toList

/-- `path.endswith("mdss_dsi_ctrl0@c994000")`. -/
def IsController (path : Str) : Prop := "mdss_dsi_ctrl0@c994000".toList <:+ path

instance : DecidablePred IsController := fun path =>
  inferInstanceAs (Decidable ("mdss_dsi_ctrl0@c994000".toList <:+ path))

/-- `"prim-pan" in name`. -/
def IsPanelChoice (name : Str) : Prop := "prim-pan".toList <:+: name

instance : DecidablePred IsPanelChoice := fun name =>
  inferInstanceAs (Decidable ("prim-pan".toList <:+: name))

/-- What is printed for the choice of a panel. -/
def panelLines (name : Str) (ph : ℕ) (target panel : Str) : List Str :=
  ["  ".toList ++ name ++ " = phandle ".toList ++ pyDecimal ph ++ " -> ".toList ++ target,
    "      panel: ".toList ++ panel]

/-- One property of a display controller. -/
def panelPass (phandles : Dict ℕ Str) (found : Bool) (p : Str × Bytes) :
    Run PyError Str Bool :=
  if IsPanelChoice p.1 then do
    let ph ← quiet (unpackWord p.2)
    let target := panelTarget phandles ph
    printAll (panelLines p.1 ph target (panelName props target))
    return true
  else return found

/-- One node on the way through `== primary panel selection ==`. -/
def panelNode (phandles : Dict ℕ Str) (found : Bool) (path : Str) : Run PyError Str Bool :=
  if ¬ IsController path then return found
  else (propsOf props path).foldlM (panelPass props phandles) found

/-- The line that is printed when no panel has been found. -/
def noPanelLine : Str := "  (no qcom,dsi-pref-prim-pan on mdss_dsi_ctrl0)".toList

/-- `== primary panel selection ==`. -/
def panelSection : Run PyError Str Unit := do
  let phandles ← quiet (phandlesOf props)
  print "\n== primary panel selection ==".toList
  let found ← (sortedPaths props).foldlM (panelNode props phandles) false
  if found then pure () else print noPanelLine

/-- One property on the way through `== notable properties ==`. -/
def notablePass (path : Str) (seen : List Str) (p : Str × Bytes) : Run PyError Str (List Str) :=
  if p.1 ∉ ["compatible".toList, "status".toList, "label".toList,
      "qcom,mdss-dsi-panel-name".toList] then
    pure seen
  else
    let decoded := text p.2
    if interesting.any fun key => decide (key <:+: py.lower decoded) then
      let line := "  ".toList ++ ljust 46 path ++ " ".toList ++ p.1 ++ " = ".toList ++
        replaceNul decoded
      if line ∈ seen then pure seen
      else do
        print line
        return seen ++ [line]
    else pure seen

/-- `== notable properties ==`. -/
def notableSection : Run PyError Str Unit := do
  print "\n== notable properties ==".toList
  let _ ← (sortedPaths props).foldlM
    (fun seen path => (propsOf props path).foldlM (notablePass py path) seen) []
  return ()

end Sections

/-! ### The memory reservation block -/

/-- A big-endian number, as `struct` reads `Q`. -/
def unpackQ (bs : Bytes) : ℕ := bs.foldl (fun n b => n * 256 + b.toNat) 0

/-- `struct.unpack_from(">QQ", data, cursor)`. -/
def unpackPair (data : Bytes) (cursor : ℕ) : Except PyError (ℕ × ℕ) :=
  let rest := data.drop cursor
  if rest.length < 16 then .error .structError
  else .ok (unpackQ (rest.take 8), unpackQ ((rest.drop 8).take 8))

/-- What is printed for one reservation. -/
def reservationLine (r : ℕ × ℕ) : Str :=
  "  ".toList ++ pyHex16 r.1 ++ " +0x".toList ++ pyHexUpper r.2

/-- The loop over the block; its variables are `cursor` and `empty`. -/
def reservationLoop (data : Bytes) : ℕ → ℕ → Bool → Run PyError Str Bool
  | 0, _, _ => quiet (.error .outOfFuel)
  | fuel + 1, cursor, empty => do
      let r ← quiet (unpackPair data cursor)
      if r.1 = 0 ∧ r.2 = 0 then return empty
      else do
        print (reservationLine r)
        reservationLoop data fuel (cursor + 16) false

/-- `== memory reservation block (pre-kernel reserves) ==`. -/
def reservationSection (data : Bytes) (offRsvmap : ℕ) : Run PyError Str Unit := do
  print "\n== memory reservation block (pre-kernel reserves) ==".toList
  let empty ← reservationLoop data (data.length + 1) offRsvmap true
  if empty then print "  (empty)".toList else pure ()

/-! ### The program -/

/-- The command line. -/
structure InspectArgs where
  node : Option Str
  grep : Option Str
  allNodes : Bool

/-- An option that counts as true: one that was given and is not empty. -/
def given (option : Option Str) : Option Str := option.filter fun s => decide (s ≠ [])

section Main

variable (py : PyText) (props : Dict Str (List (Str × Bytes)))

/-- `dump_node`. -/
def dumpNode (path : Str) : Run PyError Str Unit := do
  print ("\n== ".toList ++ path ++ " ==".toList)
  forM (propsOf props path) fun p =>
    print ("  ".toList ++ ljust 34 p.1 ++ " = ".toList ++ render p.2)

/-- `--node`. -/
def nodeRun (node : Str) : Run PyError Str ℕ :=
  if props.get? node = none then do
    printAll ["\nno such node: ".toList ++ node,
      "hint: --grep ".toList ++ ((stripSlashes node).splitOn '/').getLastD []]
    return 1
  else do
    dumpNode props node
    return 0

/-- `--grep`. -/
def grepRun (grep : Str) : Run PyError Str ℕ := do
  let needle := py.lower grep
  print ("\n== nodes/properties matching ".toList ++ py.repr grep ++ " ==".toList)
  let shown (path : Str) (p : Str × Bytes) : Run PyError Str Unit :=
    print ("  ".toList ++ ljust 46 path ++ " ".toList ++ p.1 ++ " = ".toList ++ render p.2)
  forM (sortedPaths props) fun path =>
    if needle <:+: py.lower path then forM (propsOf props path) (shown path)
    else forM (propsOf props path) fun p =>
      if needle <:+: py.lower p.1 ∨ needle <:+: py.lower (text p.2) then shown path p
      else pure ()
  return 0

/-- `--all-nodes`. -/
def allNodesRun : Run PyError Str ℕ := do
  print ("\n== all nodes (".toList ++ pyDecimal props.entries.length ++ ") ==".toList)
  forM (sortedPaths props) fun path => print ("  ".toList ++ path)
  return 0

/-- The report that is printed without an option; what it reads from the file itself, the
reservation block, is a run of its own. -/
def report (nodeCount : ℕ) (reservations : Run PyError Str Unit) : Run PyError Str ℕ := do
  rootSection props nodeCount
  memorySection props
  reservedMemorySection props
  reservations
  boardSection props
  panelSection props
  notableSection py props
  return 0

/-- `main` after `parse`. -/
def afterParse (args : InspectArgs) (nodeCount : ℕ) (reservations : Run PyError Str Unit) :
    Run PyError Str ℕ :=
  match given args.node with
  | some node => nodeRun props node
  | none =>
    match given args.grep with
    | some grep => grepRun py props grep
    | none =>
        if args.allNodes then allNodesRun props
        else report py props nodeCount reservations

end Main

/-- `main` of `inspect-dtb.py`, on the contents of a file. -/
def inspectMain (py : PyText) (args : InspectArgs) (data : Bytes) : Run PyError Str ℕ := do
  let result ← parseRun data
  afterParse py result.props args result.nodeCount
    (reservationSection result.data result.offRsvmap)

/-- **The parser that prints** is the parser that does not. -/
theorem parseRun_result (data : Bytes) : (parseRun data).result = inspectParse data := by
  rw [parseRun, inspectParse]
  cases readHeader data with
  | error e => rfl
  | ok header =>
      rw [quiet_bind_ok, ok_bind]
      cases whileTrue (inspectStep data (header.strtab data)) (data.length + 1)
        ⟨header.offStruct, [], Dict.empty, 0⟩ with
      | error e => rfl
      | ok s => rfl

/-- The header is printed before the tokens are read, also when one of them is bad. -/
theorem parseRun_lines {data : Bytes} {header : Header} (h : readHeader data = .ok header) :
    (parseRun data).lines = headerLines data header := by
  rw [parseRun, h, quiet_bind_ok]
  cases whileTrue (inspectStep data (header.strtab data)) (data.length + 1)
    ⟨header.offStruct, [], Dict.empty, 0⟩ with
  | error e => exact List.append_nil _
  | ok s => exact List.append_nil _

end Fdt

end Msm8998
