import Mathlib.Data.List.DropRight
import Msm8998.MkbootimgArgs
import Msm8998.Sections

/-!
# Writing a Vendor Boot Image

This module models the second file that `mkbootimg.py` can write: the options of the vendor
ramdisks, the builder of their table, the header and the sections. A command line is a list of
options with their values, as in `MkbootimgArgs`, and what the main parser does not know is left
to `parse_vendor_ramdisk_args`.

## Main results

* `addEntry_sound`: what every entry that is added keeps true of the table;
* `parseVendorRamdiskArgs_sound`: the table of every command line.
-/

open Fallible

namespace Msm8998

namespace BootImage

open Fdt (Bytes Str)

/-! ### Constants -/

/-- `VENDOR_BOOT_MAGIC`, the text "VNDRBOOT". -/
def vendorBootMagic : Bytes := [86, 78, 68, 82, 66, 79, 79, 84]

def vendorBootNameSize : ℕ := bootNameSize
def vendorBootArgsSize : ℕ := 2048
def vendorBootImageHeaderV3Size : ℕ := 2112
def vendorBootImageHeaderV4Size : ℕ := 2128

def vendorRamdiskTypeNone : ℤ := 0
def vendorRamdiskTypePlatform : ℤ := 1
def vendorRamdiskTypeRecovery : ℤ := 2
def vendorRamdiskTypeDlkm : ℤ := 3
def vendorRamdiskNameSize : ℕ := 32
def vendorRamdiskTableEntryBoardIdSize : ℕ := 16
def vendorRamdiskTableEntryV4Size : ℕ := 108

/-- `VENDOR_RAMDISK_NAME_BLOCKLIST`: the name "default". -/
def vendorRamdiskNameBlocklist : List Bytes := [[100, 101, 102, 97, 117, 108, 116]]

/-! ### Errors -/

/-- How writing the vendor boot image ends other than by returning. The two errors about a name
print the name after their text. -/
inductive VendorError
  | tool (error : ToolError)
  | bannedName (message : String) (name : Bytes)
  | duplicatedName (message : String) (name : Bytes)
  | unrecognizedArguments (message : String)
  | overflowError
deriving Repr, DecidableEq

/-- An error that the whole program shares. -/
def ofTool {α : Type} : Except ToolError α → Except VendorError α
  | .ok a => .ok a
  | .error e => .error (.tool e)

/-- A success of the tool is one here. -/
theorem ofTool_eq_ok {α : Type} {x : Except ToolError α} {a : α} :
    ofTool x = .ok a ↔ x = .ok a := by
  cases x with
  | ok b => simp [ofTool]
  | error e => simp [ofTool]

/-! ### The table of vendor ramdisks -/

/-- `VendorRamdiskTableEntry`. A path is the contents of the file there. -/
structure VendorRamdiskTableEntry where
  ramdisk : Bytes
  ramdiskSize : ℕ
  ramdiskOffset : ℕ
  ramdiskType : ℤ
  ramdiskName : Bytes
  boardId : List ℤ
deriving Repr, DecidableEq

/-- `VendorRamdiskTableBuilder`. The names are a set. -/
structure VendorRamdiskTableBuilder where
  entries : List VendorRamdiskTableEntry := []
  ramdiskTotalSize : ℕ := 0
  ramdiskNames : List Bytes := []
deriving Repr, DecidableEq

/-- `ramdisk_name.rstrip(b'\\x00')`. -/
def strippedName (name : Bytes) : Bytes := name.rdropWhile fun b => b = 0

/-- The `board_id` array: `array.array('I', …)` takes numbers of 32 bits. -/
def boardIdArray (boardId : Option (List ℤ)) : Except VendorError (List ℤ) :=
  match boardId with
  | none => .ok (List.replicate vendorRamdiskTableEntryBoardIdSize 0)
  | some ids => if ∀ v ∈ ids, Fits 4 v then .ok ids else .error .overflowError

/-- `VendorRamdiskTableBuilder.add_entry`. -/
def addEntry (builder : VendorRamdiskTableBuilder) (ramdisk : Bytes) (ramdiskType : ℤ)
    (ramdiskName : Bytes) (boardId : Option (List ℤ)) :
    Except VendorError VendorRamdiskTableBuilder :=
  if strippedName ramdiskName ∈ vendorRamdiskNameBlocklist then
    .error (.bannedName "Banned vendor ramdisk name: " (strippedName ramdiskName))
  else if strippedName ramdiskName ∈ builder.ramdiskNames then
    .error (.duplicatedName "Duplicated vendor ramdisk name: " (strippedName ramdiskName))
  else do
    let boardId ← boardIdArray boardId
    if boardId.length ≠ vendorRamdiskTableEntryBoardIdSize then
      .error (.tool (.valueError ("board_id size must be " ++
        toString vendorRamdiskTableEntryBoardIdSize)))
    else
      return {
        entries := builder.entries ++ [⟨ramdisk, ramdisk.length, builder.ramdiskTotalSize,
          ramdiskType, ramdiskName, boardId⟩]
        ramdiskTotalSize := builder.ramdiskTotalSize + ramdisk.length
        ramdiskNames := strippedName ramdiskName :: builder.ramdiskNames }

/-- `write_ramdisks_padded`. -/
def writeRamdisksPadded (builder : VendorRamdiskTableBuilder) (out : Bytes) (alignment : ℕ) :
    Bytes :=
  padFile (builder.entries.foldl (fun out e => out ++ e.ramdisk) out) alignment

/-- The bytes of one entry. -/
def writeEntry (e : VendorRamdiskTableEntry) : Except ToolError Bytes := do
  let head ← packAll (words [e.ramdiskSize, e.ramdiskOffset, e.ramdiskType])
  return head ++ packBytes vendorRamdiskNameSize e.ramdiskName ++ encodeAll (words e.boardId)

/-- `write_entries_padded`. -/
def writeEntriesPadded (builder : VendorRamdiskTableBuilder) (out : Bytes) (alignment : ℕ) :
    Except ToolError Bytes := do
  let table ← builder.entries.mapM writeEntry
  return padFile (out ++ table.flatten) alignment

/-! ### The options of the vendor ramdisks -/

/-- The options that only `parse_vendor_ramdisk_args` knows, and others. -/
inductive VendorOpt
  | ramdiskType | ramdiskName | boardId (i : Fin 16) | vendorRamdiskFragment
  | unknown (text : Str)
deriving Repr, DecidableEq

/-- What one group of options sets. -/
structure RamdiskArgs where
  ramdiskType : ℤ := vendorRamdiskTypeNone
  ramdiskName : Option Bytes := none
  boardId : List ℤ := List.replicate vendorRamdiskTableEntryBoardIdSize 0
  vendorRamdiskFragment : Option Bytes := none

/-- `str.lower`, as far as letters of the names of the types come from it: beyond ASCII, only
the Kelvin sign does. -/
def lowerChar (c : Char) : Char := if c.toNat = 0x212A then 'k' else c.toLower

section Options

variable (unicodeDigit : Char → Option (Fin 10))

/-- `parse_vendor_ramdisk_type`. -/
def parseVendorRamdiskType (x : Str) : Except ToolError ℤ :=
  let lower := x.map lowerChar
  if lower = "none".toList then .ok vendorRamdiskTypeNone
  else if lower = "platform".toList then .ok vendorRamdiskTypePlatform
  else if lower = "recovery".toList then .ok vendorRamdiskTypeRecovery
  else if lower = "dlkm".toList then .ok vendorRamdiskTypeDlkm
  else parseInt unicodeDigit x

/-- A value of `type=parse_vendor_ramdisk_type`. -/
def ramdiskTypeValue : Value → Except ToolError ℤ
  | .text x => typed (parseVendorRamdiskType unicodeDigit x)
  | .file _ => .error .parserError

/-- Take in one option of a group. -/
def applyVendorOption (args : RamdiskArgs) (o : VendorOpt × Value) :
    Except ToolError RamdiskArgs :=
  match o.1 with
  | .ramdiskType => do return { args with ramdiskType := ← ramdiskTypeValue unicodeDigit o.2 }
  | .ramdiskName => do
      return { args with ramdiskName := some (← asciizValue vendorRamdiskNameSize o.2) }
  | .boardId i => do
      return { args with boardId := args.boardId.set i (← intValue unicodeDigit o.2) }
  | .vendorRamdiskFragment => do
      return { args with vendorRamdiskFragment := some (← fileValue o.2) }
  | .unknown _ => .ok args

/-- The groups of options that end with `--vendor_ramdisk_fragment`, and what is left. -/
def splitGroups : List (VendorOpt × Value) →
    List (List (VendorOpt × Value)) × List (VendorOpt × Value)
  | [] => ([], [])
  | o :: argsList =>
      if o.1 = .vendorRamdiskFragment then
        ([o] :: (splitGroups argsList).1, (splitGroups argsList).2)
      else
        match splitGroups argsList with
        | ([], rest) => ([], o :: rest)
        | (group :: groups, rest) => ((o :: group) :: groups, rest)

/-- The options of a group that its parser does not know. -/
def extraArgs (group : List (VendorOpt × Value)) : List (VendorOpt × Value) :=
  group.filter fun o => match o.1 with
    | .unknown _ => true
    | _ => false

/-- One pass of the loop over the groups. The name and the fragment are required options. -/
def addGroup (builder : VendorRamdiskTableBuilder) (group : List (VendorOpt × Value)) :
    Except VendorError VendorRamdiskTableBuilder := do
  let args ← ofTool (group.foldlM (applyVendorOption unicodeDigit) {})
  match args.ramdiskName, args.vendorRamdiskFragment with
  | some name, some fragment => addEntry builder fragment args.ramdiskType name (some args.boardId)
  | _, _ => .error (.tool .parserError)

/-- The table before the loop over the groups, with the ramdisk of `--vendor_ramdisk`. -/
def firstBuilder : Option Bytes → Except VendorError VendorRamdiskTableBuilder
  | some ramdisk => addEntry {} ramdisk vendorRamdiskTypePlatform [] none
  | none => .ok {}

/-- `parse_vendor_ramdisk_args`: the table, and the options that were not parsed. -/
def parseVendorRamdiskArgs (vendorRamdisk : Option Bytes)
    (argsList : List (VendorOpt × Value)) :
    Except VendorError (VendorRamdiskTableBuilder × List (VendorOpt × Value)) := do
  let builder ← firstBuilder vendorRamdisk
  let builder ← (splitGroups argsList).1.foldlM (addGroup unicodeDigit) builder
  return (builder, (splitGroups argsList).1.flatMap extraArgs ++ (splitGroups argsList).2)

end Options

/-! ### The file -/

/-- The result of `parse_cmdline` with the options of the vendor boot image, and the options that
the main parser leaves over. -/
structure VendorArgs extends Args where
  vendorCmdline : Bytes := [0]
  vendorRamdisk : Option Bytes := none
  vendorBootconfig : Option Bytes := none
  argsList : List (VendorOpt × Value) := []

namespace VendorArgs

/-- The size of the vendor ramdisk section. -/
def vendorRamdiskSize (args : VendorArgs) (builder : VendorRamdiskTableBuilder) : ℕ :=
  if args.headerVersion > 3 then builder.ramdiskTotalSize else filesize args.vendorRamdisk

/-- The size of the header. -/
def vendorBootHeaderSize (args : VendorArgs) : ℕ :=
  if args.headerVersion > 3 then vendorBootImageHeaderV4Size else vendorBootImageHeaderV3Size

/-- The words in front of the command line. -/
def frontWords (args : VendorArgs) (builder : VendorRamdiskTableBuilder) : List ℤ :=
  [args.headerVersion, args.pagesize.1, args.base + args.kernelOffset,
    args.base + args.ramdiskOffset, args.vendorRamdiskSize builder]

/-- The fields behind the product name. -/
def sizeFields (args : VendorArgs) : List (ℕ × ℤ) :=
  [(4, args.vendorBootHeaderSize), (4, filesize args.dtb), (8, args.base + args.dtbOffset)]

/-- Sizes of the table of vendor ramdisks and of the boot configuration, in version 4. -/
def tableWords (args : VendorArgs) (builder : VendorRamdiskTableBuilder) : List ℤ :=
  if args.headerVersion > 3 then
    [(builder.entries.length * vendorRamdiskTableEntryV4Size : ℕ), builder.entries.length,
      vendorRamdiskTableEntryV4Size, filesize args.vendorBootconfig]
  else []

end VendorArgs

/-- `write_vendor_boot_header`. -/
def writeVendorBootHeader (args : VendorArgs) (builder : VendorRamdiskTableBuilder) :
    Except ToolError Bytes :=
  if filesize args.dtb = 0 then .error (.valueError "DTB image must not be empty.")
  else do
    let front ← packAll (words (args.frontWords builder))
    let tags ← packAll (words [args.base + args.tagsOffset])
    let sizes ← packAll args.sizeFields
    let table ← packAll (words (args.tableWords builder))
    return padFile
      (vendorBootMagic ++ front ++ packBytes vendorBootArgsSize args.vendorCmdline ++ tags
        ++ packBytes vendorBootNameSize args.board ++ sizes ++ table)
      args.pagesize

/-- `write_vendor_boot_data`. -/
def writeVendorBootData (args : VendorArgs) (builder : VendorRamdiskTableBuilder)
    (out : Bytes) : Except ToolError Bytes :=
  if args.headerVersion > 3 then do
    let out := writeRamdisksPadded builder out args.pagesize
    let out := writePaddedFile out args.dtb args.pagesize
    let out ← writeEntriesPadded builder out args.pagesize
    return writePaddedFile out args.vendorBootconfig args.pagesize
  else
    let out := writePaddedFile out args.vendorRamdisk args.pagesize
    .ok (writePaddedFile out args.dtb args.pagesize)

/-- The end of `parse_cmdline` with `--vendor_boot`: the table, and the options that are left. -/
def VendorArgs.parsed (unicodeDigit : Char → Option (Fin 10)) (args : VendorArgs) :
    Except VendorError (VendorRamdiskTableBuilder × List (VendorOpt × Value)) :=
  if args.headerVersion > 3 then
    parseVendorRamdiskArgs unicodeDigit args.vendorRamdisk args.argsList
  else .ok ({}, args.argsList)

/-- `main` with `--vendor_boot`: the vendor boot image. -/
def mkvendorboot (unicodeDigit : Char → Option (Fin 10)) (args : VendorArgs) :
    Except VendorError Bytes := do
  let (builder, extra) ← args.parsed unicodeDigit
  if extra ≠ [] then .error (.unrecognizedArguments "Unrecognized arguments: ")
  else if args.headerVersion ≠ 3 ∧ args.headerVersion ≠ 4 then
    .error (.tool (.valueError "--vendor_boot not compatible with given header version"))
  else if args.headerVersion = 3 ∧ args.vendorRamdisk = none then
    .error (.tool (.valueError "--vendor_ramdisk missing or invalid"))
  else do
    let header ← ofTool (writeVendorBootHeader args builder)
    ofTool (writeVendorBootData args builder header)

/-! ### What keeps true of the table -/

/-- Position and length of a ramdisk, as its entry records them. -/
def VendorRamdiskTableEntry.span (e : VendorRamdiskTableEntry) : ℕ × ℕ :=
  (e.ramdiskOffset, e.ramdiskSize)

/-- **The table is sound**: every entry records where its ramdisk is in the section, names are
distinct without their terminators and fit their field, none of them is blocked, and every board
id has its sixteen words of 32 bits. -/
structure VendorRamdiskTableBuilder.Sound (builder : VendorRamdiskTableBuilder) : Prop where
  sizes : ∀ e ∈ builder.entries, e.ramdiskSize = e.ramdisk.length
  laid : Sections.Laid 0 (builder.entries.map VendorRamdiskTableEntry.span)
  total : builder.ramdiskTotalSize = (builder.entries.map (·.ramdiskSize)).sum
  names : builder.ramdiskNames = (builder.entries.map fun e => strippedName e.ramdiskName).reverse
  nodup : builder.ramdiskNames.Nodup
  allowed : ∀ name ∈ builder.ramdiskNames, name ∉ vendorRamdiskNameBlocklist
  short : ∀ e ∈ builder.entries, e.ramdiskName.length ≤ vendorRamdiskNameSize
  boardIds : ∀ e ∈ builder.entries, e.boardId.length = vendorRamdiskTableEntryBoardIdSize ∧
    ∀ v ∈ e.boardId, Fits 4 v

/-- The table starts sound. -/
theorem sound_empty : VendorRamdiskTableBuilder.Sound {} where
  sizes := by simp
  laid := trivial
  total := rfl
  names := rfl
  nodup := List.nodup_nil
  allowed := by simp
  short := by simp
  boardIds := by simp

/-- What the conversion of a board id accepts. -/
theorem boardIdArray_fits {boardId : Option (List ℤ)} {ids : List ℤ}
    (h : boardIdArray boardId = .ok ids) : ∀ v ∈ ids, Fits 4 v := by
  cases boardId with
  | none =>
      cases h
      intro v hv
      rw [List.eq_of_mem_replicate hv]
      decide
  | some ids' =>
      rw [boardIdArray] at h
      split at h
      · rename_i hfits
        cases h
        exact hfits
      · cases h

/-- The entry that a successful call appends. -/
theorem addEntry_eq_ok {builder builder' : VendorRamdiskTableBuilder} {ramdisk name : Bytes}
    {type : ℤ} {boardId : Option (List ℤ)}
    (h : addEntry builder ramdisk type name boardId = .ok builder') :
    strippedName name ∉ vendorRamdiskNameBlocklist ∧
      strippedName name ∉ builder.ramdiskNames ∧
      ∃ ids, boardIdArray boardId = .ok ids ∧
        ids.length = vendorRamdiskTableEntryBoardIdSize ∧
        builder' = ⟨builder.entries ++ [⟨ramdisk, ramdisk.length, builder.ramdiskTotalSize, type,
          name, ids⟩], builder.ramdiskTotalSize + ramdisk.length,
          strippedName name :: builder.ramdiskNames⟩ := by
  rw [addEntry] at h
  split at h
  · cases h
  rename_i hallowed
  split at h
  · cases h
  rename_i hnew
  obtain ⟨ids, hids, h⟩ := bind_eq_ok.mp h
  split at h
  · cases h
  · rename_i hlen
    cases h
    exact ⟨hallowed, hnew, ids, hids, not_not.mp hlen, rfl⟩

/-- **Every entry that is added** keeps the table sound. -/
theorem addEntry_sound {builder builder' : VendorRamdiskTableBuilder} {ramdisk name : Bytes}
    {type : ℤ} {boardId : Option (List ℤ)} (hsound : builder.Sound)
    (hshort : name.length ≤ vendorRamdiskNameSize)
    (h : addEntry builder ramdisk type name boardId = .ok builder') : builder'.Sound := by
  obtain ⟨hallowed, hnew, ids, hids, hlen, rfl⟩ := addEntry_eq_ok h
  refine ⟨?_, ?_, ?_, ?_, ?_, ?_, ?_, ?_⟩
  · simp only [List.forall_mem_append, List.forall_mem_singleton]
    exact ⟨hsound.sizes, trivial⟩
  · rw [List.map_append, List.map_singleton]
    refine Sections.laid_append.mpr ⟨hsound.laid, ?_⟩
    rw [VendorRamdiskTableEntry.span, hsound.total, List.map_map, Nat.zero_add]
    rfl
  · rw [hsound.total, List.map_append, List.sum_append, List.map_singleton, List.sum_singleton]
  · rw [hsound.names, List.map_append, List.reverse_append, List.map_singleton,
      List.reverse_singleton, List.singleton_append]
  · exact List.nodup_cons.mpr ⟨hnew, hsound.nodup⟩
  · exact List.forall_mem_cons.mpr ⟨hallowed, hsound.allowed⟩
  · simp only [List.forall_mem_append, List.forall_mem_singleton]
    exact ⟨hsound.short, hshort⟩
  · simp only [List.forall_mem_append, List.forall_mem_singleton]
    exact ⟨hsound.boardIds, hlen, boardIdArray_fits hids⟩

section Groups

variable {unicodeDigit : Char → Option (Fin 10)}

/-- A group that is taken in adds one entry. -/
theorem addGroup_eq_ok {builder builder' : VendorRamdiskTableBuilder}
    {group : List (VendorOpt × Value)} (h : addGroup unicodeDigit builder group = .ok builder') :
    ∃ args name fragment, group.foldlM (applyVendorOption unicodeDigit) {} = .ok args ∧
      args.ramdiskName = some name ∧ args.vendorRamdiskFragment = some fragment ∧
      addEntry builder fragment args.ramdiskType name (some args.boardId) = .ok builder' := by
  obtain ⟨args, hargs, h⟩ := bind_eq_ok.mp h
  refine ⟨args, ?_⟩
  rw [ofTool_eq_ok] at hargs
  cases hname : args.ramdiskName with
  | none => rw [hname] at h; cases h
  | some name =>
      cases hfragment : args.vendorRamdiskFragment with
      | none => rw [hname, hfragment] at h; cases h
      | some fragment =>
          rw [hname, hfragment] at h
          exact ⟨name, fragment, hargs, rfl, rfl, h⟩

/-- What the option for the name accepts fits the field of the name. -/
theorem asciizValue_length {n : ℕ} {value : Value} {bs : Bytes}
    (h : asciizValue n value = .ok bs) : bs.length ≤ n := by
  cases value with
  | file contents => cases h
  | text x =>
      rw [asciizValue, asciizBytes] at h
      split at h
      · cases h
      · rename_i hlen
        cases h
        exact not_lt.mp hlen

/-- What one option does. -/
theorem applyVendorOption_cases {args args' : RamdiskArgs} {o : VendorOpt × Value}
    (h : applyVendorOption unicodeDigit args o = .ok args') :
    (∃ n, o.1 = .ramdiskType ∧ ramdiskTypeValue unicodeDigit o.2 = .ok n ∧
        args' = { args with ramdiskType := n }) ∨
      (∃ bs, o.1 = .ramdiskName ∧ asciizValue vendorRamdiskNameSize o.2 = .ok bs ∧
        args' = { args with ramdiskName := some bs }) ∨
      (∃ i n, o.1 = .boardId i ∧ intValue unicodeDigit o.2 = .ok n ∧
        args' = { args with boardId := args.boardId.set i n }) ∨
      (∃ bs, o.1 = .vendorRamdiskFragment ∧ fileValue o.2 = .ok bs ∧
        args' = { args with vendorRamdiskFragment := some bs }) ∨
      ∃ text, o.1 = .unknown text ∧ args' = args := by
  obtain ⟨opt, v⟩ := o
  cases opt with
  | ramdiskType =>
      obtain ⟨n, hn, h⟩ := bind_eq_ok.mp h
      cases h
      exact .inl ⟨n, rfl, hn, rfl⟩
  | ramdiskName =>
      obtain ⟨bs, hbs, h⟩ := bind_eq_ok.mp h
      cases h
      exact .inr (.inl ⟨bs, rfl, hbs, rfl⟩)
  | boardId i =>
      obtain ⟨n, hn, h⟩ := bind_eq_ok.mp h
      cases h
      exact .inr (.inr (.inl ⟨i, n, rfl, hn, rfl⟩))
  | vendorRamdiskFragment =>
      obtain ⟨bs, hbs, h⟩ := bind_eq_ok.mp h
      cases h
      exact .inr (.inr (.inr (.inl ⟨bs, rfl, hbs, rfl⟩)))
  | unknown text =>
      cases h
      exact .inr (.inr (.inr (.inr ⟨text, rfl, rfl⟩)))

/-- One option keeps the name of its group within the field. -/
theorem applyVendorOption_short {args args' : RamdiskArgs} {o : VendorOpt × Value}
    (hshort : ∀ name, args.ramdiskName = some name → name.length ≤ vendorRamdiskNameSize)
    (h : applyVendorOption unicodeDigit args o = .ok args') :
    ∀ name, args'.ramdiskName = some name → name.length ≤ vendorRamdiskNameSize := by
  rcases applyVendorOption_cases h with ⟨n, -, -, rfl⟩ | ⟨bs, -, hbs, rfl⟩ | ⟨i, n, -, -, rfl⟩ |
    ⟨bs, -, -, rfl⟩ | ⟨text, -, rfl⟩
  case inr.inl =>
    intro name hname
    obtain rfl := Option.some.inj hname
    exact asciizValue_length hbs
  all_goals exact hshort

/-- A group keeps its name within the field, by induction on the options. -/
theorem foldlM_applyVendorOption_short {group : List (VendorOpt × Value)} :
    ∀ {args args' : RamdiskArgs},
      (∀ name, args.ramdiskName = some name → name.length ≤ vendorRamdiskNameSize) →
      group.foldlM (applyVendorOption unicodeDigit) args = .ok args' →
      ∀ name, args'.ramdiskName = some name → name.length ≤ vendorRamdiskNameSize := by
  induction group with
  | nil =>
      intro args args' hshort h
      cases h
      exact hshort
  | cons o group ih =>
      intro args args' hshort h
      rw [List.foldlM_cons] at h
      obtain ⟨args₁, ho, h⟩ := bind_eq_ok.mp h
      exact ih (applyVendorOption_short hshort ho) h

/-- The run over the groups keeps the table sound, by induction on the groups. -/
theorem foldlM_addGroup_sound {groups : List (List (VendorOpt × Value))} :
    ∀ {builder builder' : VendorRamdiskTableBuilder}, builder.Sound →
      groups.foldlM (addGroup unicodeDigit) builder = .ok builder' → builder'.Sound := by
  induction groups with
  | nil =>
      intro builder builder' hsound h
      cases h
      exact hsound
  | cons group groups ih =>
      intro builder builder' hsound h
      rw [List.foldlM_cons] at h
      obtain ⟨builder₁, hgroup, h⟩ := bind_eq_ok.mp h
      obtain ⟨args, name, fragment, hargs, hname, -, hadd⟩ := addGroup_eq_ok hgroup
      have hshort := foldlM_applyVendorOption_short (by simp) hargs name hname
      exact ih (addEntry_sound hsound hshort hadd) h

/-- **The table of every command line is sound.** -/
theorem parseVendorRamdiskArgs_sound {vendorRamdisk : Option Bytes}
    {argsList extra : List (VendorOpt × Value)} {builder : VendorRamdiskTableBuilder}
    (h : parseVendorRamdiskArgs unicodeDigit vendorRamdisk argsList = .ok (builder, extra)) :
    builder.Sound := by
  rw [parseVendorRamdiskArgs] at h
  obtain ⟨first, hfirst, h⟩ := bind_eq_ok.mp h
  obtain ⟨last, hlast, h⟩ := bind_eq_ok.mp h
  cases h
  refine foldlM_addGroup_sound ?_ hlast
  cases vendorRamdisk with
  | none =>
      cases hfirst
      exact sound_empty
  | some ramdisk => exact addEntry_sound sound_empty (Nat.zero_le _) hfirst

end Groups

end BootImage

end Msm8998
