import Msm8998.VendorBoot

/-!
# Reading a Vendor Boot Image

A reader of the vendor boot image that knows the format and nothing else: it takes the header's
fields at their offsets, finds the sections by counting pages, and cuts every ramdisk out of the
ramdisk section as the table says. What `mkbootimg.py` writes is read back as its table of vendor
ramdisks has it; that this is what the command line asks for is the subject of `VendorRamdisks`.

The reader is an abstract statement of the format. There is none in the repository.

## Main results

* `mkvendorboot_eq`: the file that is written, section by section;
* `readVendorBoot_contents`: what is read back, in terms of the table;
* `fragments_of_mkvendorboot`: the names in the table, and how the ramdisks fill their section.
-/

open Fallible LittleEndian Sections

namespace Msm8998

namespace BootImage

open Fdt (Bytes)

/-! ### The written file -/

namespace VendorArgs

/-- The header up to its padding. -/
def header (args : VendorArgs) (builder : VendorRamdiskTableBuilder) : Bytes :=
  vendorBootMagic ++ encodeAll (words (args.frontWords builder))
    ++ packBytes vendorBootArgsSize args.vendorCmdline
    ++ encodeAll (words [args.base + args.tagsOffset])
    ++ packBytes vendorBootNameSize args.board ++ encodeAll args.sizeFields
    ++ encodeAll (words (args.tableWords builder))

/-- Every number in the header fits its field, there is a dtb, and in version 3 a ramdisk. -/
structure Writable (args : VendorArgs) (builder : VendorRamdiskTableBuilder) : Prop where
  version : args.headerVersion = 3 ∨ args.headerVersion = 4
  dtb : 0 < filesize args.dtb
  ramdisk : args.headerVersion = 3 → args.vendorRamdisk ≠ none
  front : ∀ v ∈ args.frontWords builder, Fits 4 v
  tags : Fits 4 (args.base + args.tagsOffset)
  sizes : ∀ f ∈ args.sizeFields, Fits f.1 f.2
  table : ∀ v ∈ args.tableWords builder, Fits 4 v
  entries : args.headerVersion = 4 →
    ∀ e ∈ builder.entries, Fits 4 e.ramdiskSize ∧ Fits 4 e.ramdiskOffset ∧ Fits 4 e.ramdiskType

end VendorArgs

/-- The bytes of one entry of the table. -/
def encodedEntry (e : VendorRamdiskTableEntry) : Bytes :=
  encodeAll (words [e.ramdiskSize, e.ramdiskOffset, e.ramdiskType])
    ++ packBytes vendorRamdiskNameSize e.ramdiskName ++ encodeAll (words e.boardId)

/-- The sections behind the header. -/
def VendorArgs.sections (args : VendorArgs) (builder : VendorRamdiskTableBuilder) : List Bytes :=
  if args.headerVersion > 3 then
    [builder.entries.flatMap (·.ramdisk), args.dtb.getD [], builder.entries.flatMap encodedEntry,
      args.vendorBootconfig.getD []]
  else [args.vendorRamdisk.getD [], args.dtb.getD []]

section Writer

variable {args : VendorArgs} {builder : VendorRamdiskTableBuilder} {out bs : Bytes} {p : ℕ}

/-- When an entry is written, and what it is. -/
theorem writeEntry_eq_ok {e : VendorRamdiskTableEntry} :
    writeEntry e = .ok bs ↔
      (Fits 4 e.ramdiskSize ∧ Fits 4 e.ramdiskOffset ∧ Fits 4 e.ramdiskType) ∧
        bs = encodedEntry e := by
  have hfits : (∀ f ∈ words [(e.ramdiskSize : ℤ), e.ramdiskOffset, e.ramdiskType], Fits f.1 f.2) ↔
      Fits 4 e.ramdiskSize ∧ Fits 4 e.ramdiskOffset ∧ Fits 4 e.ramdiskType := by
    rw [forall_mem_words]
    simp
  rw [writeEntry, bind_eq_ok, ← hfits]
  constructor
  · rintro ⟨head, hhead, h⟩
    cases h
    obtain ⟨hwords, rfl⟩ := packAll_eq_ok.mp hhead
    exact ⟨hwords, rfl⟩
  · rintro ⟨hwords, rfl⟩
    exact ⟨_, packAll_eq_ok.mpr ⟨hwords, rfl⟩, rfl⟩

/-- The entries of the table, one after the other. -/
theorem mapM_writeEntry {entries : List VendorRamdiskTableEntry} {table : List Bytes}
    (h : entries.mapM writeEntry = .ok table) :
    (∀ e ∈ entries,
      Fits 4 e.ramdiskSize ∧ Fits 4 e.ramdiskOffset ∧ Fits 4 e.ramdiskType) ∧
      table = entries.map encodedEntry := by
  induction entries generalizing table with
  | nil =>
      cases h
      exact ⟨by simp, rfl⟩
  | cons e entries ih =>
      rw [List.mapM_cons, bind_eq_ok] at h
      obtain ⟨bs, hbs, h⟩ := h
      obtain ⟨rest, hrest, h⟩ := bind_eq_ok.mp h
      cases h
      obtain ⟨hfits, rfl⟩ := writeEntry_eq_ok.mp hbs
      obtain ⟨hall, rfl⟩ := ih hrest
      exact ⟨List.forall_mem_cons.mpr ⟨hfits, hall⟩, rfl⟩

/-- The ramdisks are written behind each other. -/
theorem foldl_append_ramdisk (entries : List VendorRamdiskTableEntry) (out : Bytes) :
    entries.foldl (fun out e => out ++ e.ramdisk) out = out ++ entries.flatMap (·.ramdisk) := by
  induction entries generalizing out with
  | nil => simp
  | cons e entries ih => rw [List.foldl_cons, ih, List.flatMap_cons, List.append_assoc]

/-- A section that is padded leaves the file at a page boundary. -/
theorem dvd_append_padFile (hp : p.isPowerOfTwo) (hout : p ∣ out.length) (bs : Bytes) :
    p ∣ (out ++ padFile bs p).length := by
  rw [List.length_append]
  exact Nat.dvd_add hout (dvd_padFile_length hp)

/-- The sections that `write_vendor_boot_data` appends. -/
theorem writeVendorBootData_eq_ok (hout : args.pagesize.1 ∣ out.length)
    (h : writeVendorBootData args builder out = .ok bs) :
    (args.headerVersion > 3 → ∀ e ∈ builder.entries,
      Fits 4 e.ramdiskSize ∧ Fits 4 e.ramdiskOffset ∧ Fits 4 e.ramdiskType) ∧
      bs = out ++ (args.sections builder).flatMap fun xs => padFile xs args.pagesize := by
  have hp := pagesize_isPowerOfTwo args.toArgs
  rw [writeVendorBootData] at h
  rw [VendorArgs.sections]
  by_cases hv : args.headerVersion > 3
  · rw [if_pos hv] at h ⊢
    have h₁ := dvd_append_padFile hp hout (builder.entries.flatMap (·.ramdisk))
    have h₂ := dvd_append_padFile hp h₁ (args.dtb.getD [])
    have h₃ := dvd_append_padFile hp h₂ (builder.entries.flatMap encodedEntry)
    simp only [writeRamdisksPadded, foldl_append_ramdisk, padFile_append hp hout,
      writePaddedFile_eq hp h₁, writeEntriesPadded] at h
    obtain ⟨written, hwritten, h⟩ := bind_eq_ok.mp h
    obtain ⟨table, htable, hwritten⟩ := bind_eq_ok.mp hwritten
    obtain ⟨hfits, rfl⟩ := mapM_writeEntry htable
    cases hwritten
    cases h
    refine ⟨fun _ => hfits, ?_⟩
    rw [← List.flatMap_def, padFile_append hp h₂, writePaddedFile_eq hp h₃]
    simp only [List.flatMap_cons, List.flatMap_nil, List.append_nil, List.append_assoc]
  · rw [if_neg hv] at h ⊢
    have h₁ := dvd_append_padFile hp hout (args.vendorRamdisk.getD [])
    simp only [writePaddedFile_eq hp hout, writePaddedFile_eq hp h₁] at h
    cases h
    refine ⟨fun h' => absurd h' hv, ?_⟩
    simp only [List.flatMap_cons, List.flatMap_nil, List.append_nil, List.append_assoc]

/-- When the header is written, and what it is. -/
theorem writeVendorBootHeader_eq_ok (h : writeVendorBootHeader args builder = .ok bs) :
    0 < filesize args.dtb ∧ (∀ v ∈ args.frontWords builder, Fits 4 v) ∧
      Fits 4 (args.base + args.tagsOffset) ∧ (∀ f ∈ args.sizeFields, Fits f.1 f.2) ∧
      (∀ v ∈ args.tableWords builder, Fits 4 v) ∧
      bs = padFile (args.header builder) args.pagesize := by
  rw [writeVendorBootHeader] at h
  split at h
  · cases h
  rename_i hdtb
  obtain ⟨front, hfront, h⟩ := bind_eq_ok.mp h
  obtain ⟨tags, htags, h⟩ := bind_eq_ok.mp h
  obtain ⟨sizes, hsizes, h⟩ := bind_eq_ok.mp h
  obtain ⟨table, htable, h⟩ := bind_eq_ok.mp h
  cases h
  obtain ⟨hfitsFront, rfl⟩ := packAll_eq_ok.mp hfront
  obtain ⟨hfitsTags, rfl⟩ := packAll_eq_ok.mp htags
  obtain ⟨hfitsSizes, rfl⟩ := packAll_eq_ok.mp hsizes
  obtain ⟨hfitsTable, rfl⟩ := packAll_eq_ok.mp htable
  exact ⟨Nat.pos_of_ne_zero hdtb, forall_mem_words.mp hfitsFront,
    hfitsTags (4, _) (List.mem_singleton.mpr rfl), hfitsSizes,
    forall_mem_words.mp hfitsTable, rfl⟩

/-- **The file that is written**: the header and every section in pages of their own. -/
theorem mkvendorboot_eq {unicodeDigit : Char → Option (Fin 10)} {image : Bytes}
    (h : mkvendorboot unicodeDigit args = .ok image) :
    ∃ builder, (args.headerVersion = 4 →
        parseVendorRamdiskArgs unicodeDigit args.vendorRamdisk args.argsList = .ok (builder, [])) ∧
      args.Writable builder ∧ image = padFile (args.header builder) args.pagesize ++
        (args.sections builder).flatMap fun xs => padFile xs args.pagesize := by
  rw [mkvendorboot] at h
  obtain ⟨⟨builder, extra⟩, hparse, h⟩ := bind_eq_ok.mp h
  dsimp only at h
  split at h
  · cases h
  rename_i hextra
  obtain rfl := not_not.mp hextra
  split at h
  · cases h
  rename_i hversion
  split at h
  · cases h
  rename_i hramdisk
  obtain ⟨header, hheader, h⟩ := bind_eq_ok.mp h
  obtain ⟨hdtb, hfront, htags, hsizes, htable, rfl⟩ :=
    writeVendorBootHeader_eq_ok (ofTool_eq_ok.mp hheader)
  obtain ⟨hentries, rfl⟩ := writeVendorBootData_eq_ok
    (dvd_padFile_length (pagesize_isPowerOfTwo args.toArgs)) (ofTool_eq_ok.mp h)
  refine ⟨builder, fun hv => ?_,
    ⟨by omega, hdtb, fun h3 hnone => hramdisk ⟨h3, hnone⟩, hfront, htags, hsizes, htable,
      fun hv => hentries (by omega)⟩, rfl⟩
  rw [VendorArgs.parsed, if_pos (by omega)] at hparse
  exact hparse

end Writer

/-! ### The reader -/

/-- The header of a vendor boot image, as a reader takes it in. -/
structure VendorBootHeader where
  headerVersion : ℕ
  pagesize : ℕ
  kernelAddr : ℕ
  ramdiskAddr : ℕ
  ramdiskSize : ℕ
  cmdline : Bytes
  tagsAddr : ℕ
  board : Bytes
  headerSize : ℕ
  dtbSize : ℕ
  dtbAddr : ℕ
  tableSize : ℕ
  entryNum : ℕ
  entrySize : ℕ
  bootconfigSize : ℕ
deriving Repr, DecidableEq

/-- One ramdisk of the table. -/
structure RamdiskFragment where
  type : ℕ
  name : Bytes
  boardId : List ℕ
  contents : Bytes
deriving Repr, DecidableEq

/-- What a vendor boot image holds. -/
structure VendorBootImage where
  header : VendorBootHeader
  ramdisk : Bytes
  dtb : Bytes
  fragments : List RamdiskFragment
  bootconfig : Bytes
deriving Repr, DecidableEq

/-- Read the header's fields at their offsets. -/
def readVendorBootHeader (image : Bytes) : Option VendorBootHeader := do
  let magic ← cut image 0 8
  let front ← readWords 4 5 image 8
  let cmdline ← cut image 28 2048
  let tags ← readWords 4 1 image 2076
  let board ← cut image 2080 16
  let sizes ← readWords 4 2 image 2096
  let dtbAddr ← readWords 8 1 image 2104
  let table ← if front.getD 0 0 > 3 then readWords 4 4 image 2112 else some [0, 0, 0, 0]
  if magic = vendorBootMagic then
    some ⟨front.getD 0 0, front.getD 1 0, front.getD 2 0, front.getD 3 0, front.getD 4 0, cmdline,
      tags.getD 0 0, board, sizes.getD 0 0, sizes.getD 1 0, dtbAddr.getD 0 0, table.getD 0 0,
      table.getD 1 0, table.getD 2 0, table.getD 3 0⟩
  else none

/-- Read one entry of the table, and cut its ramdisk out of the section. -/
def readFragment (ramdisks record : Bytes) : Option RamdiskFragment := do
  let words ← readWords 4 3 record 0
  let name ← cut record 12 32
  let boardId ← readWords 4 16 record 44
  let contents ← cut ramdisks (words.getD 1 0) (words.getD 0 0)
  return ⟨words.getD 2 0, name, boardId, contents⟩

/-- The space of a section of a given size. -/
def VendorBootHeader.stride (h : VendorBootHeader) (size : ℕ) : ℕ :=
  h.pagesize * getNumberOfPages size h.pagesize

/-- Read the table. -/
def readFragments (h : VendorBootHeader) (ramdisks table : Bytes) :
    Option (List RamdiskFragment) :=
  (cutAll (fun n => n) table 0 (List.replicate h.entryNum h.entrySize)).bind fun records =>
    records.mapM (readFragment ramdisks)

/-- Read a vendor boot image. -/
def readVendorBoot (image : Bytes) : Option VendorBootImage :=
  (readVendorBootHeader image).bind fun h =>
    if h.headerVersion > 3 then
      match cutAll h.stride image (h.stride h.headerSize)
          [h.ramdiskSize, h.dtbSize, h.tableSize, h.bootconfigSize] with
      | some [ramdisk, dtb, table, bootconfig] =>
          (readFragments h ramdisk table).map fun fragments =>
            ⟨h, ramdisk, dtb, fragments, bootconfig⟩
      | _ => none
    else
      match cutAll h.stride image (h.stride h.headerSize) [h.ramdiskSize, h.dtbSize] with
      | some [ramdisk, dtb] => some ⟨h, ramdisk, dtb, [], []⟩
      | _ => none

/-! ### What is read back -/

/-- The header that the arguments stand for. -/
def VendorArgs.given (args : VendorArgs) (builder : VendorRamdiskTableBuilder) :
    VendorBootHeader where
  headerVersion := args.headerVersion.toNat
  pagesize := args.pagesize
  kernelAddr := (args.base + args.kernelOffset).toNat
  ramdiskAddr := (args.base + args.ramdiskOffset).toNat
  ramdiskSize := args.vendorRamdiskSize builder
  cmdline := packBytes vendorBootArgsSize args.vendorCmdline
  tagsAddr := (args.base + args.tagsOffset).toNat
  board := packBytes vendorBootNameSize args.board
  headerSize := args.vendorBootHeaderSize
  dtbSize := filesize args.dtb
  dtbAddr := (args.base + args.dtbOffset).toNat
  tableSize := if args.headerVersion > 3 then
    builder.entries.length * vendorRamdiskTableEntryV4Size else 0
  entryNum := if args.headerVersion > 3 then builder.entries.length else 0
  entrySize := if args.headerVersion > 3 then vendorRamdiskTableEntryV4Size else 0
  bootconfigSize := if args.headerVersion > 3 then filesize args.vendorBootconfig else 0

/-- The ramdisk that an entry stands for. -/
def VendorRamdiskTableEntry.given (e : VendorRamdiskTableEntry) : RamdiskFragment :=
  ⟨e.ramdiskType.toNat, packBytes vendorRamdiskNameSize e.ramdiskName, e.boardId.map Int.toNat,
    e.ramdisk⟩

section Reader

variable {args : VendorArgs} {builder : VendorRamdiskTableBuilder} {image rest : Bytes}

/-- Numbers that fit are read back. -/
theorem readWords_encodeAll {vs : List ℤ} (hfits : ∀ v ∈ vs, Fits 4 v) {data : Bytes}
    {pos k : ℕ} (pre post : Bytes) (h : data = pre ++ (encodeAll (words vs) ++ post))
    (hpos : pos = pre.length) (hk : k = vs.length) :
    readWords 4 k data pos = some (vs.map Int.toNat) := by
  rw [encodeAll_words] at h
  rw [hk, ← List.length_map Int.toNat]
  refine readWords_append (by omega) (fun n hn => ?_) h hpos
  obtain ⟨v, hv, rfl⟩ := List.mem_map.mp hn
  exact (hfits v hv).2

/-- The parts of the header. -/
def VendorArgs.headerParts (args : VendorArgs) (builder : VendorRamdiskTableBuilder) :
    List Bytes :=
  [vendorBootMagic, encodeAll (words (args.frontWords builder)),
    packBytes vendorBootArgsSize args.vendorCmdline,
    encodeAll (words [args.base + args.tagsOffset]),
    packBytes vendorBootNameSize args.board,
    encodeAll (words [(args.vendorBootHeaderSize : ℤ), filesize args.dtb]),
    split 8 (args.base + args.dtbOffset).toNat, encodeAll (words (args.tableWords builder))]

/-- The header is its parts in order. -/
theorem header_eq_flatten (args : VendorArgs) (builder : VendorRamdiskTableBuilder) :
    args.header builder = (args.headerParts builder).flatten := by
  simp [VendorArgs.header, VendorArgs.headerParts, VendorArgs.sizeFields, encodeAll, words]

/-- The lengths of its parts. -/
theorem headerParts_lengths (args : VendorArgs) (builder : VendorRamdiskTableBuilder) :
    (args.headerParts builder).map List.length =
      [8, 20, 2048, 4, 16, 8, 8, if args.headerVersion > 3 then 16 else 0] := by
  have htable : (encodeAll (words (args.tableWords builder))).length =
      if args.headerVersion > 3 then 16 else 0 := by
    rw [encodeAll_length, VendorArgs.tableWords]
    split <;> rfl
  simp only [VendorArgs.headerParts, List.map_cons, List.map_nil, packBytes_length,
    encodeAll_length, split_length, htable, encodeAll_length]
  rfl

/-- The header is as long as it says. -/
theorem header_length (args : VendorArgs) (builder : VendorRamdiskTableBuilder) :
    (args.header builder).length = args.vendorBootHeaderSize := by
  rw [header_eq_flatten, List.length_flatten, headerParts_lengths, VendorArgs.vendorBootHeaderSize]
  split <;> rfl

/-- Where a part of the header starts. -/
def VendorArgs.partOffset (args : VendorArgs) (i : ℕ) : ℕ :=
  ([8, 20, 2048, 4, 16, 8, 8, if args.headerVersion > 3 then 16 else 0].take i).sum

/-- A part of the header is where the parts before it end. -/
theorem exists_header_part (himage : image = args.header builder ++ rest) {i : ℕ} {xs : Bytes}
    (hi : (args.headerParts builder)[i]? = some xs) : ∃ pre post,
      image = pre ++ (xs ++ post) ∧ args.partOffset i = pre.length := by
  obtain ⟨pre, post, heq, hlen⟩ := exists_flatten_eq hi
  refine ⟨pre, post ++ rest, ?_, by rw [hlen, headerParts_lengths, VendorArgs.partOffset]⟩
  rw [himage, header_eq_flatten, heq]
  simp only [List.append_assoc]

/-- A part stands at its offset. -/
theorem cut_header_part (himage : image = args.header builder ++ rest) {i : ℕ} {xs : Bytes}
    (hi : (args.headerParts builder)[i]? = some xs) :
    cut image (args.partOffset i) xs.length = some xs := by
  obtain ⟨pre, post, heq, hpos⟩ := exists_header_part himage hi
  exact cut_append pre post heq hpos

/-- A part that is made of words can be read back. -/
theorem readWords_header_part (himage : image = args.header builder ++ rest) {i : ℕ}
    {vs : List ℤ} (hi : (args.headerParts builder)[i]? = some (encodeAll (words vs)))
    (hfits : ∀ v ∈ vs, Fits 4 v) :
    readWords 4 vs.length image (args.partOffset i) = some (vs.map Int.toNat) := by
  obtain ⟨pre, post, heq, hpos⟩ := exists_header_part himage hi
  exact readWords_encodeAll hfits pre post heq hpos rfl

/-- **The header is read back.** -/
theorem readVendorBootHeader_header (hw : args.Writable builder)
    (himage : image = args.header builder ++ rest) :
    readVendorBootHeader image = some (args.given builder) := by
  have hmagic : cut image 0 8 = some vendorBootMagic := @cut_header_part _ _ _ _ himage 0 _ rfl
  have hfront : readWords 4 5 image 8 = some ((args.frontWords builder).map Int.toNat) :=
    @readWords_header_part _ _ _ _ himage 1 _ rfl hw.front
  have hcmdline := @cut_header_part _ _ _ _ himage 2 _ rfl
  have htags : readWords 4 1 image 2076 = some [(args.base + args.tagsOffset).toNat] :=
    @readWords_header_part _ _ _ _ himage 3 _ rfl (List.forall_mem_singleton.mpr hw.tags)
  have hboard := @cut_header_part _ _ _ _ himage 4 _ rfl
  have hfields := hw.sizes
  simp only [VendorArgs.sizeFields, List.forall_mem_cons] at hfields
  have hsizes : readWords 4 2 image 2096 = some [args.vendorBootHeaderSize, filesize args.dtb] := by
    refine @readWords_header_part _ _ _ _ himage 5 [(args.vendorBootHeaderSize : ℤ), _] rfl ?_
    simp only [List.forall_mem_cons]
    exact ⟨hfields.1, hfields.2.1, by simp⟩
  have hdtb : readWords 8 1 image 2104 = some [(args.base + args.dtbOffset).toNat] := by
    obtain ⟨pre, post, heq, hpos⟩ := @exists_header_part _ _ _ _ himage 6 _ rfl
    have heq' : image =
        pre ++ ([(args.base + args.dtbOffset).toNat].flatMap (split 8) ++ post) := by
      rw [heq, List.flatMap_singleton]
    exact readWords_append (by omega) (List.forall_mem_singleton.mpr hfields.2.2.1.2) heq' hpos
  rw [packBytes_length] at hcmdline hboard
  have hcmdline' : cut image 28 2048 = some (packBytes vendorBootArgsSize args.vendorCmdline) :=
    hcmdline
  have hboard' : cut image 2080 16 = some (packBytes vendorBootNameSize args.board) := hboard
  have hversion : ((args.frontWords builder).map Int.toNat).getD 0 0 = args.headerVersion.toNat :=
    rfl
  rw [readVendorBootHeader, hmagic, hfront, hcmdline', htags, hboard', hsizes, hdtb]
  dsimp only [bind, Option.bind]
  rw [hversion]
  by_cases hv : args.headerVersion > 3
  · have htable : readWords 4 4 image 2112 = some ((args.tableWords builder).map Int.toNat) := by
      have h := @readWords_header_part _ _ _ _ himage 7 _ rfl hw.table
      rw [VendorArgs.tableWords, if_pos hv] at h ⊢
      exact h
    rw [if_pos (by omega), htable, VendorArgs.tableWords, if_pos hv, VendorArgs.given]
    simp only [if_pos hv]
    rfl
  · rw [if_neg (by omega), VendorArgs.given]
    simp only [if_neg hv]
    rfl

/-! ### The ramdisks -/

/-- The parts of an entry. -/
theorem encodedEntry_parts {e : VendorRamdiskTableEntry}
    (hids : e.boardId.length = vendorRamdiskTableEntryBoardIdSize) :
    encodedEntry e = [encodeAll (words [e.ramdiskSize, e.ramdiskOffset, e.ramdiskType]),
        packBytes vendorRamdiskNameSize e.ramdiskName, encodeAll (words e.boardId)].flatten ∧
      [encodeAll (words [(e.ramdiskSize : ℤ), e.ramdiskOffset, e.ramdiskType]),
        packBytes vendorRamdiskNameSize e.ramdiskName,
        encodeAll (words e.boardId)].map List.length = [12, 32, 64] := by
  refine ⟨by simp [encodedEntry], ?_⟩
  have hboard : (encodeAll (words e.boardId)).length = 64 := by
    rw [encodeAll_words, flatMap_split_length, List.length_map, hids]
    rfl
  simp only [List.map_cons, List.map_nil, packBytes_length, hboard, encodeAll_length]
  rfl

/-- An entry of the table is as long as the format says. -/
theorem encodedEntry_length {e : VendorRamdiskTableEntry}
    (hids : e.boardId.length = vendorRamdiskTableEntryBoardIdSize) :
    (encodedEntry e).length = vendorRamdiskTableEntryV4Size := by
  obtain ⟨heq, hlens⟩ := encodedEntry_parts hids
  rw [heq, List.length_flatten, hlens]
  rfl

/-- **An entry is read back**, with the ramdisk that it points to. -/
theorem readFragment_encodedEntry {e : VendorRamdiskTableEntry} {ramdisks : Bytes}
    (hfits : Fits 4 e.ramdiskSize ∧ Fits 4 e.ramdiskOffset ∧ Fits 4 e.ramdiskType)
    (hids : e.boardId.length = vendorRamdiskTableEntryBoardIdSize ∧ ∀ v ∈ e.boardId, Fits 4 v)
    (hcut : cut ramdisks e.ramdiskOffset e.ramdiskSize = some e.ramdisk) :
    readFragment ramdisks (encodedEntry e) = some e.given := by
  obtain ⟨heq, hlens⟩ := encodedEntry_parts hids.1
  have hpart : ∀ {i : ℕ} {xs : Bytes}, [encodeAll (words [(e.ramdiskSize : ℤ), e.ramdiskOffset,
      e.ramdiskType]), packBytes vendorRamdiskNameSize e.ramdiskName,
      encodeAll (words e.boardId)][i]? = some xs → ∃ pre post,
        encodedEntry e = pre ++ (xs ++ post) ∧ ([12, 32, 64].take i).sum = pre.length := by
    intro i xs hi
    obtain ⟨pre, post, hflat, hlen⟩ := exists_flatten_eq hi
    exact ⟨pre, post, heq.trans hflat, by rw [hlen, hlens]⟩
  obtain ⟨pre₀, post₀, heq₀, hpos₀⟩ := @hpart 0 _ rfl
  obtain ⟨pre₁, post₁, heq₁, hpos₁⟩ := @hpart 1 _ rfl
  obtain ⟨pre₂, post₂, heq₂, hpos₂⟩ := @hpart 2 _ rfl
  have hwords : readWords 4 3 (encodedEntry e) 0 =
      some [e.ramdiskSize, e.ramdiskOffset, e.ramdiskType.toNat] := by
    refine readWords_encodeAll ?_ pre₀ post₀ heq₀ hpos₀ rfl
    simp only [List.forall_mem_cons]
    exact ⟨hfits.1, hfits.2.1, hfits.2.2, by simp⟩
  have hname := cut_append pre₁ post₁ heq₁ hpos₁
  rw [packBytes_length] at hname
  have hname' : cut (encodedEntry e) 12 32 =
    some (packBytes vendorRamdiskNameSize e.ramdiskName) := hname
  have hboard : readWords 4 16 (encodedEntry e) 44 = some (e.boardId.map Int.toNat) :=
    readWords_encodeAll hids.2 pre₂ post₂ heq₂ hpos₂ hids.1.symm
  rw [readFragment, hwords, hname', hboard]
  have hcut' : cut ramdisks ([e.ramdiskSize, e.ramdiskOffset, e.ramdiskType.toNat].getD 1 0)
    ([e.ramdiskSize, e.ramdiskOffset, e.ramdiskType.toNat].getD 0 0) = some e.ramdisk := hcut
  dsimp only [bind, Option.bind]
  rw [hcut']
  rfl

/-- A traversal that succeeds on every element. -/
theorem mapM_eq_some {α β : Type} {f : α → Option β} {g : α → β} {xs : List α}
    (h : ∀ x ∈ xs, f x = some (g x)) : xs.mapM f = some (xs.map g) := by
  induction xs with
  | nil => rfl
  | cons x xs ih =>
      obtain ⟨hx, hxs⟩ := List.forall_mem_cons.mp h
      rw [List.mapM_cons, hx, ih hxs]
      rfl

/-- The ramdisk section has the recorded size. -/
theorem VendorRamdiskTableBuilder.Sound.section_length (hsound : builder.Sound) :
    (builder.entries.flatMap (·.ramdisk)).length = builder.ramdiskTotalSize := by
  rw [hsound.total, List.length_flatMap]
  exact congrArg List.sum (List.map_congr_left fun e he => (hsound.sizes e he).symm)

/-- **The table is read back**: every entry, with its ramdisk. -/
theorem readFragments_eq (hsound : builder.Sound) (hv : args.headerVersion > 3)
    (hfits : ∀ e ∈ builder.entries,
      Fits 4 e.ramdiskSize ∧ Fits 4 e.ramdiskOffset ∧ Fits 4 e.ramdiskType) :
    readFragments (args.given builder) (builder.entries.flatMap (·.ramdisk))
        (builder.entries.flatMap encodedEntry) =
      some (builder.entries.map VendorRamdiskTableEntry.given) := by
  have hlens : List.replicate (args.given builder).entryNum (args.given builder).entrySize =
      (builder.entries.map encodedEntry).map List.length := by
    simp only [VendorArgs.given, if_pos hv, List.map_map]
    refine (List.eq_replicate_iff.mpr ⟨List.length_map _, fun n hn => ?_⟩).symm
    obtain ⟨e, he, rfl⟩ := List.mem_map.mp hn
    exact encodedEntry_length (hsound.boardIds e he).1
  have hrecords : cutAll (fun n => n) (builder.entries.flatMap encodedEntry) 0
      ((builder.entries.map encodedEntry).map List.length) =
        some (builder.entries.map encodedEntry) := by
    refine cutAll_of_append id (fun xs => ⟨[], (List.append_nil xs).symm⟩) (fun xs => rfl) [] []
      ?_ rfl
    rw [List.append_nil, List.nil_append, List.flatMap_map]
    rfl
  rw [readFragments, hlens, hrecords, Option.bind_some, List.mapM_map]
  refine mapM_eq_some fun e he => readFragment_encodedEntry (hfits e he) (hsound.boardIds e he) ?_
  refine cut_of_laid (·.ramdisk) VendorRamdiskTableEntry.span [] [] hsound.sizes hsound.laid ?_
    e he
  rw [List.append_nil, List.nil_append]

/-- The table is as long as its entries. -/
theorem table_length (hsound : builder.Sound) : (builder.entries.flatMap encodedEntry).length =
    builder.entries.length * vendorRamdiskTableEntryV4Size := by
  rw [List.length_flatMap, List.map_congr_left fun e he =>
    encodedEntry_length (hsound.boardIds e he).1, List.map_const', List.sum_replicate_nat]

/-! ### The round trip -/

/-- The image that the arguments stand for. -/
def VendorArgs.contents (args : VendorArgs) (builder : VendorRamdiskTableBuilder) :
    VendorBootImage :=
  if args.headerVersion > 3 then
    ⟨args.given builder, builder.entries.flatMap (·.ramdisk), args.dtb.getD [],
      builder.entries.map VendorRamdiskTableEntry.given, args.vendorBootconfig.getD []⟩
  else ⟨args.given builder, args.vendorRamdisk.getD [], args.dtb.getD [], [], []⟩

/-- The sections are cut out of the file by their sizes. -/
theorem cutAll_sections (himage : image = padFile (args.header builder) args.pagesize ++
      (args.sections builder).flatMap fun xs => padFile xs args.pagesize) :
    cutAll (args.given builder).stride image
        ((args.given builder).stride (args.given builder).headerSize)
        ((args.sections builder).map List.length) = some (args.sections builder) := by
  have hp := pagesize_isPowerOfTwo args.toArgs
  refine cutAll_of_append (fun xs => padFile xs args.pagesize)
    (fun xs => padFile_eq_append xs args.pagesize) (fun xs => padFile_length hp) []
    (padFile (args.header builder) args.pagesize) ?_ ?_
  · rw [himage, List.append_nil]
  · rw [padFile_length hp, header_length]
    rfl

/-- **The reader finds what the writer was given.** -/
theorem readVendorBoot_image (hw : args.Writable builder)
    (hsound : args.headerVersion = 4 → builder.Sound)
    (himage : image = padFile (args.header builder) args.pagesize ++
      (args.sections builder).flatMap fun xs => padFile xs args.pagesize) :
    readVendorBoot image = some (args.contents builder) := by
  have hheader : readVendorBootHeader image = some (args.given builder) := by
    obtain ⟨zeros, hzeros⟩ := padFile_eq_append (args.header builder) args.pagesize
    rw [hzeros, List.append_assoc] at himage
    exact readVendorBootHeader_header hw himage
  have hcut := cutAll_sections himage
  have hversion : (args.given builder).headerVersion = args.headerVersion.toNat := rfl
  have hv := hw.version
  rw [readVendorBoot, hheader, Option.bind_some, hversion, VendorArgs.contents]
  rw [VendorArgs.sections] at hcut
  by_cases h4 : args.headerVersion > 3
  · have hs := hsound (by omega)
    have hsizes : [builder.entries.flatMap (·.ramdisk), args.dtb.getD [],
        builder.entries.flatMap encodedEntry, args.vendorBootconfig.getD []].map List.length =
        [(args.given builder).ramdiskSize, (args.given builder).dtbSize,
          (args.given builder).tableSize, (args.given builder).bootconfigSize] := by
      simp only [List.map_cons, List.map_nil, hs.section_length, table_length hs,
        VendorArgs.given, VendorArgs.vendorRamdiskSize, if_pos h4, filesize_eq]
    rw [if_pos h4, hsizes] at hcut
    rw [if_pos (by omega), if_pos h4, hcut]
    dsimp only
    rw [readFragments_eq hs h4 (hw.entries (by omega))]
    rfl
  · have hsizes : [args.vendorRamdisk.getD [], args.dtb.getD []].map List.length =
        [(args.given builder).ramdiskSize, (args.given builder).dtbSize] := by
      simp only [List.map_cons, List.map_nil, VendorArgs.given, VendorArgs.vendorRamdiskSize,
        if_neg h4, filesize_eq]
    rw [if_neg h4, hsizes] at hcut
    rw [if_neg (by omega), if_neg h4, hcut]

/-- **What is read back** of every file that is written: the header, the device tree and, in
version 4, the ramdisks of the table. -/
theorem readVendorBoot_contents {unicodeDigit : Char → Option (Fin 10)}
    (h : mkvendorboot unicodeDigit args = .ok image) :
    ∃ builder, (args.headerVersion = 4 →
        parseVendorRamdiskArgs unicodeDigit args.vendorRamdisk args.argsList = .ok (builder, [])) ∧
      args.Writable builder ∧ readVendorBoot image = some (args.contents builder) := by
  obtain ⟨builder, hparse, hw, himage⟩ := mkvendorboot_eq h
  exact ⟨builder, hparse, hw, readVendorBoot_image hw
    (fun hv => parseVendorRamdiskArgs_sound (hparse hv)) himage⟩

/-- Cutting a name to its field, or filling the field with zeros, keeps the name. -/
theorem strippedName_packBytes {name : Bytes} {n : ℕ} (h : name.length ≤ n) :
    strippedName (packBytes n name) = strippedName name := by
  have hpack : packBytes n name = name ++ List.replicate (n - name.length) 0 := by
    rw [packBytes, List.take_append, List.take_of_length_le h, List.take_replicate,
      Nat.min_eq_left (Nat.sub_le n _)]
  rw [hpack, strippedName, strippedName]
  generalize n - name.length = k
  induction k with
  | zero => rw [List.replicate_zero, List.append_nil]
  | succ k ih =>
      rw [List.replicate_succ', ← List.append_assoc, List.rdropWhile_concat_pos _ _ _ (by decide),
        ih]

/-- **The names in a table** that is written are distinct up to their terminators, none of them
is blocked, and the ramdisks fill the section in the order of the table. -/
theorem fragments_of_mkvendorboot {unicodeDigit : Char → Option (Fin 10)}
    {contents : VendorBootImage} (hv : args.headerVersion = 4)
    (h : mkvendorboot unicodeDigit args = .ok image)
    (hread : readVendorBoot image = some contents) :
    (contents.fragments.map fun f => strippedName f.name).Nodup ∧
      (∀ f ∈ contents.fragments, strippedName f.name ∉ vendorRamdiskNameBlocklist) ∧
      contents.ramdisk = contents.fragments.flatMap (·.contents) := by
  obtain ⟨builder, hparse, hw, himage⟩ := mkvendorboot_eq h
  have hsound := parseVendorRamdiskArgs_sound (hparse hv)
  have heq := readVendorBoot_image hw (fun _ => hsound) himage
  rw [hread, Option.some.injEq, VendorArgs.contents, if_pos (by omega)] at heq
  have hnames : builder.entries.map (fun e => strippedName e.given.name) =
      builder.entries.map fun e => strippedName e.ramdiskName :=
    List.map_congr_left fun e he => strippedName_packBytes (hsound.short e he)
  subst heq
  dsimp only
  refine ⟨?_, ?_, ?_⟩
  · rw [List.map_map]
    change (builder.entries.map fun e => strippedName e.given.name).Nodup
    rw [hnames, ← List.nodup_reverse, ← hsound.names]
    exact hsound.nodup
  · intro f hf
    obtain ⟨e, he, rfl⟩ := List.mem_map.mp hf
    refine hsound.allowed _ ?_
    rw [hsound.names, List.mem_reverse]
    have hmem : strippedName e.given.name ∈ builder.entries.map fun e =>
        strippedName e.given.name := List.mem_map_of_mem he
    rw [hnames] at hmem
    exact hmem
  · rw [List.flatMap_map]
    rfl

end Reader

/-! ### A vendor boot image with two ramdisks -/

/-- The platform ramdisk, and one for recovery named "r". -/
def twoRamdisks : VendorArgs where
  headerVersion := 4
  dtb := some [1]
  vendorRamdisk := some [2, 3]
  argsList := [(.ramdiskType, .text ['r', 'e', 'c', 'o', 'v', 'e', 'r', 'y']),
    (.ramdiskName, .text ['r']), (.vendorRamdiskFragment, .file [4])]

/-- The file that is written for them. -/
def twoRamdisksImage : Bytes :=
  match mkvendorboot (fun _ => none) twoRamdisks with
  | .ok image => image
  | .error _ => []

/-- The image with two ramdisks is written. -/
theorem mkvendorboot_twoRamdisks :
    mkvendorboot (fun _ => none) twoRamdisks = .ok twoRamdisksImage := rfl

/-- What is read back. -/
def twoRamdisksContents : VendorBootImage :=
  twoRamdisks.contents ⟨[⟨[2, 3], 2, 0, 1, [], List.replicate 16 0⟩,
    ⟨[4], 1, 2, 2, [114, 0], List.replicate 16 0⟩], 3, [[114], []]⟩

/-- What the reader finds in it. -/
theorem readVendorBoot_twoRamdisksImage :
    readVendorBoot twoRamdisksImage = some twoRamdisksContents := by
  obtain ⟨builder, hparse, -, hread⟩ := readVendorBoot_contents mkvendorboot_twoRamdisks
  rw [hread, twoRamdisksContents, ← (Prod.mk.inj (Except.ok.inj (hparse rfl))).1]
  rfl

/-- The names and the contents of its ramdisks. -/
theorem fragments_of_twoRamdisks :
    (twoRamdisksContents.fragments.map fun f => strippedName f.name).Nodup ∧
      (∀ f ∈ twoRamdisksContents.fragments,
        strippedName f.name ∉ vendorRamdiskNameBlocklist) ∧
      twoRamdisksContents.ramdisk = twoRamdisksContents.fragments.flatMap (·.contents) :=
  fragments_of_mkvendorboot rfl mkvendorboot_twoRamdisks readVendorBoot_twoRamdisksImage

end BootImage

end Msm8998
