import Msm8998.Fallible
import Msm8998.OrderedDict

/-!
# The Two Device Tree Parsers

This module models `parse` of `inspect-dtb.py` and `parse` of `compare-dtb.py`: two copies
of one loop over the token stream of a flattened device tree, which were edited apart.

A Python `str` is the list of its code points, and a `dict` is an insertion-ordered
dictionary. A `while True` loop carries fuel; every pass moves four bytes forward, so the
length of the file is enough. What `inspect-dtb.py` prints from the header is left out.
-/

open Fallible OrderedDict

namespace Msm8998

namespace Fdt

abbrev Bytes := List UInt8
abbrev Str := List Char

/-- How a run of a parser ends other than by returning. -/
inductive PyError
  | structError | valueError | indexError | unicodeDecodeError
  | notFdt (magic : ℕ) | badToken (token offset : ℕ) | outOfFuel
deriving Repr, DecidableEq

/-! ### Bytes and strings -/

/-- `struct.unpack_from(">I", data, pos)`. -/
def wordAt (data : Bytes) (pos : ℕ) : Except PyError ℕ :=
  match data.drop pos with
  | a :: b :: c :: d :: _ =>
      .ok (a.toNat * 2 ^ 24 + b.toNat * 2 ^ 16 + c.toNat * 2 ^ 8 + d.toNat)
  | _ => .error .structError

/-- `data.index(b"\0", start)`. -/
def indexNul (data : Bytes) (start : ℕ) : Except PyError ℕ :=
  match (data.drop start).findIdx? (· = 0) with
  | some i => .ok (start + i)
  | none => .error .valueError

/-- `data[start:stop]`. -/
def slice (data : Bytes) (start stop : ℕ) : Bytes := (data.drop start).take (stop - start)

/-- `n & ~3`. -/
def clearLow (n : ℕ) : ℕ := n / 4 * 4

/-- A multi-byte sequence under way: how many bytes are missing, the range of the next one,
and the bits so far. -/
structure Pending where
  missing : ℕ
  low : UInt8
  high : UInt8
  bits : ℕ

/-- The character that stands for what could not be decoded. -/
def replacement : Char := Char.ofNat 0xFFFD

/-- The first byte of a sequence: the characters it decides, and what it opens. -/
def leadByte (b : UInt8) : Str × Option Pending :=
  if b < 0x80 then ([Char.ofNat b.toNat], none)
  else if b < 0xC2 then ([replacement], none)
  else if b < 0xE0 then ([], some ⟨1, 0x80, 0xBF, b.toNat % 32⟩)
  else if b = 0xE0 then ([], some ⟨2, 0xA0, 0xBF, 0⟩)
  else if b = 0xED then ([], some ⟨2, 0x80, 0x9F, 13⟩)
  else if b < 0xF0 then ([], some ⟨2, 0x80, 0xBF, b.toNat % 16⟩)
  else if b = 0xF0 then ([], some ⟨3, 0x90, 0xBF, 0⟩)
  else if b < 0xF4 then ([], some ⟨3, 0x80, 0xBF, b.toNat % 8⟩)
  else if b = 0xF4 then ([], some ⟨3, 0x80, 0x8F, 4⟩)
  else ([replacement], none)

/-- Decode, with one replacement character for each longest malformed piece. -/
def replaceMalformed : Option Pending → Bytes → Str
  | none, [] => []
  | some _, [] => [replacement]
  | none, b :: bs => (leadByte b).1 ++ replaceMalformed (leadByte b).2 bs
  | some p, b :: bs =>
      if p.low ≤ b ∧ b ≤ p.high then
        let bits := p.bits * 64 + b.toNat % 64
        if p.missing = 1 then Char.ofNat bits :: replaceMalformed none bs
        else replaceMalformed (some ⟨p.missing - 1, 0x80, 0xBF, bits⟩) bs
      else replacement :: ((leadByte b).1 ++ replaceMalformed (leadByte b).2 bs)

/-- `bs.decode()` of well-formed UTF-8. -/
def utf8Decode? (bs : Bytes) : Option Str := bs.toByteArray.utf8Decode?.map Array.toList

/-- `bs.decode()`. -/
def decode (bs : Bytes) : Except PyError Str :=
  match utf8Decode? bs with
  | some s => .ok s
  | none => .error .unicodeDecodeError

/-- `bs.decode("utf-8", "replace")`. -/
def decodeReplace (bs : Bytes) : Str :=
  match utf8Decode? bs with
  | some s => s
  | none => replaceMalformed none bs

/-! ### What both parsers read -/

def fdtBeginNode : ℕ := 1
def fdtEndNode : ℕ := 2
def fdtProp : ℕ := 3
def fdtNop : ℕ := 4
def fdtEnd : ℕ := 9
def fdtMagic : ℕ := 0xD00DFEED

/-- The ten words of the header. -/
structure Header where
  magic : ℕ
  totalsize : ℕ
  offStruct : ℕ
  offStrings : ℕ
  offRsvmap : ℕ
  version : ℕ
  lastcomp : ℕ
  bootcpu : ℕ
  sizeStrings : ℕ
  sizeStruct : ℕ
deriving Repr, DecidableEq

/-- `struct.unpack(">10I", data[:40])`. -/
def unpackHeader (data : Bytes) : Except PyError Header := do
  let magic ← wordAt data 0
  let totalsize ← wordAt data 4
  let offStruct ← wordAt data 8
  let offStrings ← wordAt data 12
  let offRsvmap ← wordAt data 16
  let version ← wordAt data 20
  let lastcomp ← wordAt data 24
  let bootcpu ← wordAt data 28
  let sizeStrings ← wordAt data 32
  let sizeStruct ← wordAt data 36
  return ⟨magic, totalsize, offStruct, offStrings, offRsvmap, version, lastcomp, bootcpu,
    sizeStrings, sizeStruct⟩

/-- The header, if the magic number is right. -/
def readHeader (data : Bytes) : Except PyError Header := do
  let header ← unpackHeader data
  if header.magic ≠ fdtMagic then throw (.notFdt header.magic)
  return header

/-- `strtab`. -/
def Header.strtab (header : Header) (data : Bytes) : Bytes :=
  slice data header.offStrings (header.offStrings + header.sizeStrings)

/-- The name after `FDT_BEGIN_NODE`, and where the next token is. -/
def readName (data : Bytes) (pos : ℕ) : Except PyError (Str × ℕ) := do
  let stop ← indexNul data pos
  return (decodeReplace (slice data pos stop), clearLow (stop + 4))

/-- The name and the value after `FDT_PROP`, and where the next token is. -/
def readProp (data strtab : Bytes) (pos : ℕ) : Except PyError (Str × Bytes × ℕ) := do
  let length ← wordAt data pos
  let nameoff ← wordAt data (pos + 4)
  let pos := pos + 8
  let value := slice data pos (pos + length)
  let stop ← indexNul strtab nameoff
  let name ← decode (slice strtab nameoff stop)
  return (name, value, clearLow (pos + length + 3))

/-- `struct.unpack(">%dI" % (len(value) // 4), value[:len(value) // 4 * 4])`. -/
def unpackWords : Bytes → List ℕ
  | a :: b :: c :: d :: rest =>
      (a.toNat * 2 ^ 24 + b.toNat * 2 ^ 16 + c.toNat * 2 ^ 8 + d.toNat) :: unpackWords rest
  | _ => []

/-- `"/" + "/".join(n for n in stack if n)`. -/
def nodePath (stack : List Str) : Str :=
  '/' :: ['/'].intercalate (stack.filter fun n => decide (n ≠ []))

/-- `node + ":" + name`. -/
def joinKey (node name : Str) : Str := node ++ ':' :: name

/-- What one pass of a `while True` loop does. -/
inductive Step (σ : Type)
  | next (s : σ)
  | stop (s : σ)

/-- A `while True` loop. -/
def whileTrue {σ : Type} (step : σ → Except PyError (Step σ)) : ℕ → σ → Except PyError σ
  | 0, _ => .error .outOfFuel
  | fuel + 1, s =>
      match step s with
      | .error e => .error e
      | .ok (.stop s') => .ok s'
      | .ok (.next s') => whileTrue step fuel s'

/-! ### `inspect-dtb.py` -/

/-- The variables of the loop. -/
structure Inspect where
  pos : ℕ
  stack : List Str
  props : Dict Str (List (Str × Bytes))
  nodeCount : ℕ

/-- One pass of the loop of `inspect-dtb.py`. -/
def inspectStep (data strtab : Bytes) (s : Inspect) : Except PyError (Step Inspect) := do
  let token ← wordAt data s.pos
  let pos := s.pos + 4
  if token = fdtBeginNode then
    let (name, pos) ← readName data pos
    return .next { s with pos, stack := s.stack ++ [name], nodeCount := s.nodeCount + 1 }
  else if token = fdtEndNode then
    if s.stack = [] then throw .indexError
    return .next { s with pos, stack := s.stack.dropLast }
  else if token = fdtProp then
    let (name, value, pos) ← readProp data strtab pos
    return .next { s with pos, props := s.props.push (nodePath s.stack) (name, value) }
  else if token = fdtNop then
    return .next { s with pos }
  else if token = fdtEnd then
    return .stop { s with pos }
  else
    throw (.badToken token (pos - 4))

/-- What `parse` of `inspect-dtb.py` returns. -/
structure InspectResult where
  data : Bytes
  props : Dict Str (List (Str × Bytes))
  offRsvmap : ℕ
  nodeCount : ℕ

/-- `parse` of `inspect-dtb.py`. -/
def inspectParse (data : Bytes) : Except PyError InspectResult := do
  let header ← readHeader data
  let s ← whileTrue (inspectStep data (header.strtab data)) (data.length + 1)
    ⟨header.offStruct, [], Dict.empty, 0⟩
  return ⟨data, s.props, header.offRsvmap, s.nodeCount⟩

/-! ### `compare-dtb.py` -/

/-- The variables of the loop. -/
structure Compare where
  pos : ℕ
  stack : List Str
  props : Dict Str Bytes

/-- One pass of the loop of `compare-dtb.py`; it has no branch for any other token. -/
def compareStep (data strtab : Bytes) (s : Compare) : Except PyError (Step Compare) := do
  let token ← wordAt data s.pos
  let pos := s.pos + 4
  if token = fdtBeginNode then
    let (name, pos) ← readName data pos
    return .next { s with pos, stack := s.stack ++ [name] }
  else if token = fdtEndNode then
    if s.stack = [] then throw .indexError
    return .next { s with pos, stack := s.stack.dropLast }
  else if token = fdtProp then
    let (name, value, pos) ← readProp data strtab pos
    return .next { s with pos, props := s.props.set (joinKey (nodePath s.stack) name) value }
  else if token = fdtNop then
    return .next { s with pos }
  else if token = fdtEnd then
    return .stop { s with pos }
  else
    return .next { s with pos }

/-- What `parse` of `compare-dtb.py` returns. -/
structure CompareResult where
  data : Bytes
  props : Dict Str Bytes

/-- `parse` of `compare-dtb.py`. -/
def compareParse (data : Bytes) : Except PyError CompareResult := do
  let header ← readHeader data
  let s ← whileTrue (compareStep data (header.strtab data)) (data.length + 1)
    ⟨header.offStruct, [], Dict.empty⟩
  return ⟨data, s.props⟩

end Fdt

end Msm8998
