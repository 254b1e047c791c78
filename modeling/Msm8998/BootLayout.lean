import Msm8998.FdtFormat
import Msm8998.FieldText
import Msm8998.MkbootimgArgs
import Msm8998.RemuxExtract
import Msm8998.Sections

/-!
# Reading a Boot Image

A reader of the boot image that knows the format and nothing else: it takes the version from its
place in every header, then the fields of that version, joins the two parts of the kernel command
line, and finds the sections by counting pages; the recovery image it takes from where the header
says that it is. What `mkbootimg.py` writes for a command line is read back as it was given.

The reader is an abstract statement of the format. There is none in the repository.

## Main results

* `mkbootimg_signed`: the file of versions 3 and 4, with its signature;
* `parseCmdline_texts`: what the parser makes of the texts on the command line;
* `readBoot_mkbootimg`: the round trip.
-/

open Fallible LittleEndian Sections

namespace Msm8998

namespace BootImage

open Fdt (Bytes Str utf8 zero_not_mem_utf8)

/-! ### The signature -/

/-- Whether an image of version 4 is signed. -/
def Args.HasKey (args : Args) : Prop :=
  args.gkiSigningKey.getD [] ≠ [] ∧ args.gkiSigningAlgorithm.getD [] ≠ []

/-- The signature at the end of an image: none before version 4, zeros without a key, and
otherwise what `avbtool` leaves when it is run on the image up to there. -/
inductive Args.SignedBy (avbtool : Args → Bytes → Except ToolError Bytes) (args : Args)
    (image : Bytes) : Bytes → Prop
  | unsigned (hv : args.headerVersion < 4) : SignedBy avbtool args image []
  | zeros (hv : args.headerVersion = 4) (hkey : ¬ args.HasKey) :
      SignedBy avbtool args image (List.replicate bootImageV4SignatureSize 0)
  | signed {front signature : Bytes} (hv : args.headerVersion = 4) (hkey : args.HasKey)
      (himage : image = front ++ padFile signature bootImageHeaderV3Pagesize)
      (hsignature : avbtool args front = .ok signature)
      (hlength : signature.length ≤ bootImageV4SignatureSize) :
      SignedBy avbtool args image signature

section Writer

variable {sha1 : Bytes → Bytes} {avbtool : Args → Bytes → Except ToolError Bytes}
variable {args : Args} {front image : Bytes}

/-- Files in pages of their own leave the image at a page boundary. -/
theorem dvd_padAll_length {p : ℕ} (hp : p.isPowerOfTwo) (files : List (Option Bytes)) :
    p ∣ (padAll files p).length := by
  induction files with
  | nil => exact Nat.dvd_zero p
  | cons file files ih =>
      rw [padAll_cons, List.length_append]
      exact Nat.dvd_add (dvd_padFile_length hp) ih

/-- The signature that is appended. -/
theorem addBootImageSignature_signed (hv : args.headerVersion = 4)
    (hfront : bootImageHeaderV3Pagesize ∣ front.length)
    (h : addBootImageSignature avbtool args front bootImageHeaderV3Pagesize = .ok image) :
    ∃ signature, args.SignedBy avbtool image signature ∧
      image = front ++ padFile signature bootImageHeaderV3Pagesize := by
  have hp := v3Pagesize_isPowerOfTwo
  rw [addBootImageSignature] at h
  split at h
  · rename_i hnone
    cases h
    refine ⟨_, .zeros hv fun hkey => ?_, padFile_append hp hfront⟩
    rcases hnone with hnone | hnone
    · exact hkey.1 hnone
    · exact hkey.2 hnone
  · rename_i hkey
    obtain ⟨signature, hsignature, h⟩ := bind_eq_ok.mp h
    split at h
    · cases h
    · rename_i hlength
      cases h
      have himage : writePaddedFile front (some signature) bootImageHeaderV3Pagesize =
        front ++ padFile signature bootImageHeaderV3Pagesize := padFile_append hp hfront
      exact ⟨signature, .signed hv (not_or.mp hkey) himage hsignature (Nat.not_lt.mp hlength),
        himage⟩

/-- **The file of versions 3 and 4**: the header page, the files, and the signature. -/
theorem mkbootimg_signed (hv : args.headerVersion > 2)
    (h : mkbootimg sha1 avbtool args = .ok image) :
    (args.headerVersion = 3 ∨ args.headerVersion = 4) ∧ args.second = none ∧
      (∀ v ∈ args.v3Words, Fits 4 v) ∧ ∃ signature, args.SignedBy avbtool image signature ∧
        image = padFile args.v3Header bootImageHeaderV3Pagesize
          ++ padAll args.files bootImageHeaderV3Pagesize
          ++ padFile signature bootImageHeaderV3Pagesize := by
  have hp := v3Pagesize_isPowerOfTwo
  obtain ⟨hversion, hwords, -⟩ := mkbootimg_v3 hv h
  simp only [mkbootimg, if_pos hv] at h
  split at h
  · cases h
  rename_i hsecond
  obtain ⟨header, hheader, h⟩ := bind_eq_ok.mp h
  obtain ⟨-, rfl⟩ := (writeHeader_v3 hversion).mp hheader
  have hnone : args.second = none := by
    by_contra hne
    exact hsecond ⟨Option.isSome_iff_ne_none.mpr hne, hv⟩
  refine ⟨hversion, hnone, hwords, ?_⟩
  rw [writeData_eq hp (dvd_padFile_length hp)] at h
  split at h
  · rename_i h4
    have hfront : bootImageHeaderV3Pagesize ∣ (padFile args.v3Header bootImageHeaderV3Pagesize
        ++ padAll args.files bootImageHeaderV3Pagesize).length := by
      rw [List.length_append]
      exact Nat.dvd_add (dvd_padFile_length hp) (dvd_padAll_length hp args.files)
    exact addBootImageSignature_signed (by omega) hfront h
  · rename_i h4
    cases h
    refine ⟨[], .unsigned (by omega), ?_⟩
    have hempty : padFile [] bootImageHeaderV3Pagesize = [] := rfl
    rw [hempty, List.append_nil]

/-- What goes into the image id: every file, with its size behind it. -/
def Args.hashInput (args : Args) : Bytes :=
  args.hashedFiles.flatMap fun file => file.getD [] ++ split 4 (filesize file)

/-- What a file adds to the digest: its bytes and their number in four bytes. -/
theorem updateSha_eq {sha bs : Bytes} {file : Option Bytes} (h : updateSha sha file = .ok bs) :
    bs = sha ++ (file.getD [] ++ split 4 (filesize file)) := by
  have hpack {v : ℤ} {size : Bytes} (hsize : pack 4 v = .ok size) : size = split 4 v.toNat := by
    rw [pack] at hsize
    split at hsize
    · cases hsize
      rfl
    · cases hsize
  cases file with
  | none =>
      obtain ⟨size, hsize, h⟩ := bind_eq_ok.mp h
      cases h
      rw [hpack hsize]
      rfl
  | some xs =>
      obtain ⟨size, hsize, h⟩ := bind_eq_ok.mp h
      cases h
      rw [hpack hsize, List.append_assoc]
      rfl

/-- What has been hashed when the header is written. -/
theorem foldlM_updateSha_eq {files : List (Option Bytes)} {sha bs : Bytes}
    (h : files.foldlM updateSha sha = .ok bs) :
    bs = sha ++ files.flatMap fun file => file.getD [] ++ split 4 (filesize file) := by
  induction files generalizing sha with
  | nil =>
      cases h
      rw [List.flatMap_nil, List.append_nil]
  | cons file files ih =>
      rw [List.foldlM_cons] at h
      obtain ⟨next, hnext, h⟩ := bind_eq_ok.mp h
      rw [ih h, updateSha_eq hnext, List.flatMap_cons, List.append_assoc]

end Writer

/-! ### The texts on the command line -/

/-- The text of an option, when one more option is given. -/
def textAfter (o : Opt) (t : Str) : Opt × Value → Str
  | (o', .text x) => if o' = o then x else t
  | (_, .file _) => t

/-- The text that an option has at the end of a command line: the last one that it was given. -/
def lastText (o : Opt) (argv : List (Opt × Value)) : Str := argv.foldl (textAfter o) []

/-- Neither of the two texts that go into the image has a zero character in it, as no argument
of a program can have one. -/
def NulFree (argv : List (Opt × Value)) : Prop :=
  '\x00' ∉ lastText .cmdline argv ∧ '\x00' ∉ lastText .board argv

/-- Arguments with these texts in them. -/
structure Args.HasTexts (args : Args) (cmdlineSize : ℕ) (x y : Str) : Prop where
  cmdline : args.cmdline = utf8 x ++ [0]
  cmdline_lt : (utf8 x).length < cmdlineSize
  board : args.board = utf8 y ++ [0]
  board_lt : (utf8 y).length < bootNameSize
  extra : args.extraCmdline = []

section Parser

variable {unicodeDigit : Char → Option (Fin 10)} {cmdlineSize : ℕ} {args args' : Args}

/-- A kernel command line that is accepted is a text that fits with its end. -/
theorem asciizValue_eq_ok {value : Value} {bs : Bytes}
    (h : asciizValue cmdlineSize value = .ok bs) :
    ∃ x, value = .text x ∧ bs = utf8 x ++ [0] ∧ (utf8 x).length < cmdlineSize := by
  cases value with
  | file contents => cases h
  | text x =>
      simp only [asciizValue, asciizBytes] at h
      split at h
      · cases h
      · rename_i hlen
        cases h
        refine ⟨x, rfl, rfl, ?_⟩
        rw [List.length_append, List.length_singleton] at hlen
        exact Nat.not_lt.mp hlen

/-- **One option** changes the two texts only if it is the option for one of them. -/
theorem applyOption_hasTexts {x y : Str} {o : Opt × Value} (ht : args.HasTexts cmdlineSize x y)
    (h : applyOption unicodeDigit cmdlineSize args o = .ok args') :
    args'.HasTexts cmdlineSize (textAfter .cmdline x o) (textAfter .board y o) := by
  obtain ⟨o, value⟩ := o
  rw [applyOption.eq_def] at h
  cases o with
  | cmdline =>
      obtain ⟨bs, hbs, h⟩ := bind_eq_ok.mp h
      cases h
      obtain ⟨x, rfl, rfl, hlen⟩ := asciizValue_eq_ok hbs
      exact ⟨rfl, hlen, ht.board, ht.board_lt, ht.extra⟩
  | board =>
      obtain ⟨bs, hbs, h⟩ := bind_eq_ok.mp h
      cases h
      obtain ⟨x, rfl, rfl, hlen⟩ := asciizValue_eq_ok hbs
      exact ⟨ht.cmdline, ht.cmdline_lt, rfl, hlen, ht.extra⟩
  | _ =>
      obtain ⟨v, -, h⟩ := bind_eq_ok.mp h
      cases h
      cases value <;> exact ⟨ht.cmdline, ht.cmdline_lt, ht.board, ht.board_lt, ht.extra⟩

/-- **All options**, one after the other. -/
theorem foldlM_hasTexts {x y : Str} {argv : List (Opt × Value)}
    (ht : args.HasTexts cmdlineSize x y)
    (h : argv.foldlM (applyOption unicodeDigit cmdlineSize) args = .ok args') :
    args'.HasTexts cmdlineSize (argv.foldl (textAfter .cmdline) x)
      (argv.foldl (textAfter .board) y) := by
  induction argv generalizing args x y with
  | nil =>
      cases h
      exact ht
  | cons o argv ih =>
      rw [List.foldlM_cons] at h
      obtain ⟨next, hnext, h⟩ := bind_eq_ok.mp h
      exact ih (applyOption_hasTexts ht hnext) h

/-- One option, and what the first of the two parsers knows of it. -/
theorem applyOption_headerVersion {o : Opt × Value}
    (h : applyOption unicodeDigit cmdlineSize args o = .ok args') :
    (if o.1 = .headerVersion then intValue unicodeDigit o.2 else .ok args.headerVersion) =
      .ok args'.headerVersion := by
  obtain ⟨o, value⟩ := o
  rw [applyOption.eq_def] at h
  cases o with
  | headerVersion =>
      obtain ⟨v, hv, h⟩ := bind_eq_ok.mp h
      cases h
      exact hv
  | _ =>
      obtain ⟨v, -, h⟩ := bind_eq_ok.mp h
      cases h
      rfl

/-- **The two parsers find the same version.** -/
theorem headerVersionOf_eq {argv : List (Opt × Value)}
    (h : argv.foldlM (applyOption unicodeDigit cmdlineSize) args = .ok args') :
    argv.foldlM
      (fun v o => if o.1 = .headerVersion then intValue unicodeDigit o.2 else .ok v)
      args.headerVersion = .ok args'.headerVersion := by
  induction argv generalizing args with
  | nil =>
      cases h
      rfl
  | cons o argv ih =>
      rw [List.foldlM_cons] at h
      obtain ⟨next, hnext, h⟩ := bind_eq_ok.mp h
      rw [List.foldlM_cons, applyOption_headerVersion hnext, ok_bind, ih h]

/-- **The texts after parsing**: up to version 2 the command line is split where the first field
ends, and what is left fits the second one. -/
theorem parseCmdline_texts {argv : List (Opt × Value)}
    (h : parseCmdline unicodeDigit argv = .ok args) :
    (args.board = utf8 (lastText .board argv) ++ [0] ∧
      (utf8 (lastText .board argv)).length < bootNameSize) ∧
    (args.headerVersion < 3 →
      args.cmdline = (utf8 (lastText .cmdline argv) ++ [0]).take (bootArgsSize - 1) ++ [0] ∧
      args.extraCmdline = (utf8 (lastText .cmdline argv) ++ [0]).drop (bootArgsSize - 1) ∧
      (utf8 (lastText .cmdline argv)).length < bootArgsSize - 1 + bootExtraArgsSize) ∧
    (3 ≤ args.headerVersion →
      args.cmdline = utf8 (lastText .cmdline argv) ++ [0] ∧
      (utf8 (lastText .cmdline argv)).length < bootArgsSize + bootExtraArgsSize) := by
  rw [parseCmdline] at h
  obtain ⟨version, hversion, h⟩ := bind_eq_ok.mp h
  dsimp only at h
  split at h
  · cases h
  obtain ⟨given, hgiven, h⟩ := bind_eq_ok.mp h
  cases h
  have hblank : ∀ size, 0 < size → Args.HasTexts {} size [] [] := fun size hsize =>
    ⟨rfl, hsize, rfl, by decide, rfl⟩
  have hsame : version = given.headerVersion := by
    have hboth := headerVersionOf_eq hgiven
    rw [headerVersionOf] at hversion
    exact Except.ok.inj (hversion.symm.trans hboth)
  have ht := foldlM_hasTexts (hblank _ (by split <;> decide)) hgiven
  rw [splitCmdline]
  by_cases hv : version < 3
  · rw [if_pos hv] at ht
    rw [if_pos (hsame ▸ hv)]
    refine ⟨⟨ht.board, ht.board_lt⟩, fun _ => ⟨?_, ?_, ht.cmdline_lt⟩, fun h3 => ?_⟩
    · rw [ht.cmdline]
      rfl
    · rw [ht.cmdline]
      rfl
    · exact absurd hv (by rw [hsame]; exact Int.not_lt.mpr h3)
  · rw [if_neg hv] at ht
    rw [if_neg (hsame ▸ hv)]
    exact ⟨⟨ht.board, ht.board_lt⟩, fun h3 => absurd (hsame ▸ h3) hv,
      fun _ => ⟨ht.cmdline, ht.cmdline_lt⟩⟩

end Parser

/-! ### The reader -/

/-- The header of a boot image, as a reader takes it in. A field that its version does not have
is zero or empty. -/
structure BootHeader where
  headerVersion : ℕ
  pagesize : ℕ
  kernelSize : ℕ
  ramdiskSize : ℕ
  osVersion : ℕ
  osPatchLevel : ℕ
  cmdline : Bytes
  headerSize : ℕ
  kernelAddr : ℕ := 0
  ramdiskAddr : ℕ := 0
  secondSize : ℕ := 0
  secondAddr : ℕ := 0
  tagsAddr : ℕ := 0
  board : Bytes := []
  id : Bytes := []
  recoveryDtboSize : ℕ := 0
  recoveryDtboOffset : ℕ := 0
  dtbSize : ℕ := 0
  dtbAddr : ℕ := 0
  signatureSize : ℕ := 0
deriving Repr, DecidableEq

/-- What a boot image holds. -/
structure BootContents where
  header : BootHeader
  kernel : Bytes
  ramdisk : Bytes
  second : Bytes := []
  recoveryDtbo : Bytes := []
  dtb : Bytes := []
  signature : Bytes := []
deriving Repr, DecidableEq

/-- Consecutive fields of given widths. -/
def readFields : List ℕ → Bytes → ℕ → Option (List ℕ)
  | [], _, _ => some []
  | w :: ws, image, pos => do
      let n ← readWord w image pos
      let ns ← readFields ws image (pos + w)
      return n :: ns

/-- Read a header of version 0, 1 or 2. The texts end at their first zeros. -/
def readLegacyHeader (image : Bytes) : Option BootHeader := do
  let words ← readFields (List.replicate 10 4) image 8
  let version := words.getD 8 0
  let board ← cut image 48 16
  let cmdline ← cut image 64 512
  let id ← cut image 576 32
  let extraCmdline ← cut image 608 1024
  let recoveryDtbo ← readFields (if 0 < version then [4, 8] else []) image 1632
  let headerSize ← readFields (if 0 < version then [4] else []) image 1644
  let dtb ← readFields (if 1 < version then [4, 8] else []) image 1648
  return {
    headerVersion := version
    pagesize := words.getD 7 0
    kernelSize := words.getD 0 0
    ramdiskSize := words.getD 2 0
    osVersion := words.getD 9 0 >>> 11
    osPatchLevel := words.getD 9 0 &&& 0x7FF
    cmdline := FieldText.text 0 cmdline ++ FieldText.text 0 extraCmdline
    headerSize := headerSize.getD 0 0
    kernelAddr := words.getD 1 0
    ramdiskAddr := words.getD 3 0
    secondSize := words.getD 4 0
    secondAddr := words.getD 5 0
    tagsAddr := words.getD 6 0
    board := FieldText.text 0 board
    id
    recoveryDtboSize := recoveryDtbo.getD 0 0
    recoveryDtboOffset := recoveryDtbo.getD 1 0
    dtbSize := dtb.getD 0 0
    dtbAddr := dtb.getD 1 0 }

/-- Read a header of version 3 or 4. -/
def readV3Header (image : Bytes) : Option BootHeader := do
  let words ← readFields (List.replicate 9 4) image 8
  let version := words.getD 8 0
  let cmdline ← cut image 44 1536
  let signature ← readFields (if 3 < version then [4] else []) image 1580
  return {
    headerVersion := version
    pagesize := 4096
    kernelSize := words.getD 0 0
    ramdiskSize := words.getD 1 0
    osVersion := words.getD 2 0 >>> 11
    osPatchLevel := words.getD 2 0 &&& 0x7FF
    cmdline := FieldText.text 0 cmdline
    headerSize := words.getD 3 0
    signatureSize := signature.getD 0 0 }

/-- The space of a section of a given size. -/
def BootHeader.stride (h : BootHeader) (size : ℕ) : ℕ :=
  h.pagesize * getNumberOfPages size h.pagesize

/-- Read the sections of version 0, 1 or 2. The recovery image is where the header says. -/
def readLegacyContents (image : Bytes) (h : BootHeader) : Option BootContents := do
  let recoveryDtbo ← cut image h.recoveryDtboOffset h.recoveryDtboSize
  match cutAll h.stride image h.pagesize
      [h.kernelSize, h.ramdiskSize, h.secondSize, h.recoveryDtboSize, h.dtbSize] with
  | some [kernel, ramdisk, second, _, dtb] =>
      some { header := h, kernel, ramdisk, second, recoveryDtbo, dtb }
  | _ => none

/-- Read the sections of version 3 or 4. The signature is behind them. -/
def readV3Contents (image : Bytes) (h : BootHeader) : Option BootContents :=
  match cutAll h.stride image h.pagesize [h.kernelSize, h.ramdiskSize] with
  | some [kernel, ramdisk] =>
      some { header := h, kernel, ramdisk
             signature := (image.drop
               (h.pagesize + h.stride h.kernelSize + h.stride h.ramdiskSize)).take
                 h.signatureSize }
  | _ => none

/-- Read a boot image. -/
def readBoot (image : Bytes) : Option BootContents := do
  let magic ← cut image 0 8
  if magic = bootMagic then
    let version ← readWord 4 image 40
    if version < 3 then (readLegacyHeader image).bind (readLegacyContents image)
    else (readV3Header image).bind (readV3Contents image)
  else none

/-! ### What is read back -/

/-- The files that an image of the version has sections for. -/
def Args.dtboFile (args : Args) : Bytes :=
  if args.headerVersion > 0 then args.recoveryDtbo.getD [] else []

def Args.dtbFile (args : Args) : Bytes :=
  if args.headerVersion > 1 then args.dtb.getD [] else []

/-- The header of version 0, 1 or 2 that the arguments and the two texts stand for. -/
def Args.legacyGiven (args : Args) (imgId : Bytes) (cmdline board : Str) : BootHeader where
  headerVersion := args.headerVersion.toNat
  pagesize := args.pagesize
  kernelSize := filesize args.kernel
  ramdiskSize := filesize args.ramdisk
  osVersion := args.osVersion
  osPatchLevel := args.osPatchLevel
  cmdline := utf8 cmdline
  headerSize := if args.headerVersion = 1 then bootImageHeaderV1Size
    else if args.headerVersion = 2 then bootImageHeaderV2Size else 0
  kernelAddr := (args.base + args.kernelOffset).toNat
  ramdiskAddr := args.ramdiskLoadAddress.toNat
  secondSize := filesize args.second
  secondAddr := args.secondLoadAddress.toNat
  tagsAddr := (args.base + args.tagsOffset).toNat
  board := utf8 board
  id := imgId
  recoveryDtboSize := args.dtboFile.length
  recoveryDtboOffset := if args.headerVersion > 0 ∧ args.recoveryDtbo.isSome then
    getRecoveryDtboOffset args else 0
  dtbSize := args.dtbFile.length
  dtbAddr := if args.headerVersion > 1 then (args.base + args.dtbOffset).toNat else 0

/-- The header of version 3 or 4 that the arguments and the command line stand for. -/
def Args.v3Given (args : Args) (cmdline : Str) : BootHeader where
  headerVersion := args.headerVersion.toNat
  pagesize := bootImageHeaderV3Pagesize
  kernelSize := filesize args.kernel
  ramdiskSize := filesize args.ramdisk
  osVersion := args.osVersion
  osPatchLevel := args.osPatchLevel
  cmdline := utf8 cmdline
  headerSize := if args.headerVersion > 3 then bootImageHeaderV4Size else bootImageHeaderV3Size
  signatureSize := if args.headerVersion > 3 then bootImageV4SignatureSize else 0

/-- The image that the arguments, the two texts and the signature stand for. -/
def Args.bootContents (args : Args) (sha1 : Bytes → Bytes) (cmdline board : Str)
    (signature : Bytes) : BootContents :=
  if args.headerVersion < 3 then
    { header := args.legacyGiven (packBytes 32 (sha1 args.hashInput)) cmdline board
      kernel := args.kernel.getD [], ramdisk := args.ramdisk.getD []
      second := args.second.getD [], recoveryDtbo := args.dtboFile, dtb := args.dtbFile }
  else
    { header := args.v3Given cmdline
      kernel := args.kernel.getD [], ramdisk := args.ramdisk.getD []
      signature := padFile signature bootImageHeaderV3Pagesize }

/-! ### Reading the parts of a header -/

section Parts

variable {image rest : Bytes} {parts : List Bytes} {lens : List ℕ} {i : ℕ}

/-- Fields that are written one after the other are read back. -/
theorem readFields_encodeAll {fs : List (ℕ × ℤ)} (hfits : ∀ f ∈ fs, 0 < f.1 ∧ Fits f.1 f.2)
    {pos : ℕ} (pre post : Bytes) (h : image = pre ++ (encodeAll fs ++ post))
    (hpos : pos = pre.length) :
    readFields (fs.map Prod.fst) image pos = some (fs.map fun f => f.2.toNat) := by
  induction fs generalizing pos pre with
  | nil => rfl
  | cons f fs ih =>
      obtain ⟨⟨hw, hfit⟩, hfits⟩ := List.forall_mem_cons.mp hfits
      have hcons : encodeAll (f :: fs) = split f.1 f.2.toNat ++ encodeAll fs := List.flatMap_cons
      rw [hcons, List.append_assoc] at h
      have hword : readWord f.1 image pos = some f.2.toNat := by
        refine (readWord_eq_some hw).mpr ⟨hfit.2, encodeAll fs ++ post, ?_⟩
        rw [h, hpos, List.drop_left]
      have hrest : readFields (fs.map Prod.fst) image (pos + f.1) =
          some (fs.map fun f => f.2.toNat) := by
        refine ih hfits (pre ++ split f.1 f.2.toNat) ?_ ?_
        · rw [h, List.append_assoc]
        · rw [List.length_append, split_length, hpos]
      rw [List.map_cons, readFields, hword, List.map_cons]
      dsimp only [bind, Option.bind]
      rw [hrest]
      rfl

/-- A part of the front of an image stands behind the parts before it. -/
theorem exists_part (himage : image = parts.flatten ++ rest) (hlens : parts.map List.length = lens)
    {xs : Bytes} (hi : parts[i]? = some xs) :
    ∃ pre post, image = pre ++ (xs ++ post) ∧ (lens.take i).sum = pre.length := by
  obtain ⟨pre, post, heq, hlen⟩ := exists_flatten_eq hi
  refine ⟨pre, post ++ rest, ?_, by rw [hlen, hlens]⟩
  rw [himage, heq]
  simp only [List.append_assoc]

/-- The part with an index is what stands behind the parts before it. -/
theorem cut_part (himage : image = parts.flatten ++ rest) (hlens : parts.map List.length = lens)
    {xs : Bytes} (hi : parts[i]? = some xs) {n : ℕ} (hn : xs.length = n) :
    cut image (lens.take i).sum n = some xs := by
  obtain ⟨pre, post, heq, hpos⟩ := exists_part himage hlens hi
  rw [← hn]
  exact cut_append pre post heq hpos

/-- A part that is made of numbers can be read back number by number. -/
theorem readFields_part (himage : image = parts.flatten ++ rest)
    (hlens : parts.map List.length = lens) {fs : List (ℕ × ℤ)}
    (hi : parts[i]? = some (encodeAll fs)) (hfits : ∀ f ∈ fs, Fits f.1 f.2) {ws : List ℕ}
    (hws : fs.map Prod.fst = ws) (hwide : ∀ w ∈ ws, 0 < w) :
    readFields ws image (lens.take i).sum = some (fs.map fun f => f.2.toNat) := by
  obtain ⟨pre, post, heq, hpos⟩ := exists_part himage hlens hi
  rw [← hws] at hwide ⊢
  exact readFields_encodeAll (fun f hf => ⟨hwide f.1 (List.mem_map_of_mem hf), hfits f hf⟩)
    pre post heq hpos

end Parts

section Reader

variable {sha1 : Bytes → Bytes} {avbtool : Args → Bytes → Except ToolError Bytes}
variable {args : Args} {image rest imgId : Bytes} {x y : Str}

/-- The parts of a header of version 0, 1 or 2. -/
def Args.legacyParts (args : Args) (imgId : Bytes) : List Bytes :=
  [bootMagic, encodeAll (words args.legacyWords), packBytes bootNameSize args.board,
    packBytes bootArgsSize args.cmdline, imgId, packBytes bootExtraArgsSize args.extraCmdline,
    encodeAll args.recoveryDtboFields, encodeAll args.headerSizeFields, encodeAll args.dtbFields]

/-- Their lengths. -/
def Args.legacyLengths (args : Args) : List ℕ :=
  [8, 40, 16, 512, 32, 1024, if args.headerVersion > 0 then 12 else 0,
    if args.headerVersion = 1 ∨ args.headerVersion = 2 then 4 else 0,
    if args.headerVersion > 1 then 12 else 0]

/-- The header of the versions up to 2 is its parts in order. -/
theorem legacyHeader_eq_flatten (args : Args) (imgId : Bytes) :
    args.legacyHeader imgId = (args.legacyParts imgId).flatten := by
  simp only [Args.legacyHeader, Args.legacyFront, Args.legacyParts, List.flatten_cons,
    List.flatten_nil, List.append_nil, List.append_assoc]

/-- The lengths of its parts. -/
theorem legacyParts_lengths (args : Args) (hid : imgId.length = 32) :
    (args.legacyParts imgId).map List.length = args.legacyLengths := by
  have hwords : (encodeAll (words args.legacyWords)).length = 40 := by
    rw [encodeAll_length]
    rfl
  simp only [Args.legacyParts, Args.legacyLengths, List.map_cons, List.map_nil, packBytes_length,
    recoveryDtboFields_length, headerSizeFields_length, dtbFields_length, hid, hwords]
  rfl

/-- The texts of a header of version 0, 1 or 2 are read back. -/
theorem legacyTexts_eq (hx : '\x00' ∉ x) (hy : '\x00' ∉ y)
    (hboard : args.board = utf8 y ++ [0]) (hboardLt : (utf8 y).length < bootNameSize)
    (hcmdline : args.cmdline = (utf8 x ++ [0]).take (bootArgsSize - 1) ++ [0])
    (hextra : args.extraCmdline = (utf8 x ++ [0]).drop (bootArgsSize - 1))
    (hlt : (utf8 x).length < bootArgsSize - 1 + bootExtraArgsSize) :
    FieldText.text 0 (packBytes bootNameSize args.board) = utf8 y ∧
      FieldText.text 0 (packBytes bootArgsSize args.cmdline)
        ++ FieldText.text 0 (packBytes bootExtraArgsSize args.extraCmdline) = utf8 x := by
  rw [hboard, hcmdline, hextra]
  exact ⟨FieldText.text_field (zero_not_mem_utf8 hy) (Nat.le_of_lt hboardLt) [],
    FieldText.text_split (zero_not_mem_utf8 hx) (Nat.le_of_lt hlt)⟩

/-- The fields about the recovery image come with version 1. -/
theorem recoveryDtboFields_widths (args : Args) : args.recoveryDtboFields.map Prod.fst =
    if 0 < args.headerVersion.toNat then [4, 8] else [] := by
  rw [Args.recoveryDtboFields]
  by_cases h0 : args.headerVersion > 0
  · have hnat : 0 < args.headerVersion.toNat := by omega
    rw [if_pos h0, if_pos hnat]
    split <;> rfl
  · rw [if_neg h0, if_neg (by omega)]
    rfl

/-- So does the field of the header size. -/
theorem headerSizeFields_widths (hv : args.headerVersion ≤ 2) :
    args.headerSizeFields.map Prod.fst = if 0 < args.headerVersion.toNat then [4] else [] := by
  rw [Args.headerSizeFields]
  split
  · rw [if_pos (by omega)]
    rfl
  · split
    · rw [if_pos (by omega)]
      rfl
    · rw [if_neg (by omega)]
      rfl

/-- The fields about the device tree come with version 2. -/
theorem dtbFields_widths (args : Args) : args.dtbFields.map Prod.fst =
    if 1 < args.headerVersion.toNat then [4, 8] else [] := by
  rw [Args.dtbFields]
  split
  · rw [if_pos (by omega)]
    rfl
  · rw [if_neg (by omega)]
    rfl

/-- What is read of the recovery image, the header size and the dtb, in the versions that have
them. -/
theorem readFields_legacyTail (hlegacy : args.Legacy) (hid : imgId.length = 32)
    (himage : image = args.legacyHeader imgId ++ rest) :
    readFields (if 0 < args.headerVersion.toNat then [4, 8] else []) image 1632 =
        some (args.recoveryDtboFields.map fun f => f.2.toNat) ∧
      readFields (if 0 < args.headerVersion.toNat then [4] else []) image 1644 =
        some (args.headerSizeFields.map fun f => f.2.toNat) ∧
      readFields (if 1 < args.headerVersion.toNat then [4, 8] else []) image 1648 =
        some (args.dtbFields.map fun f => f.2.toNat) := by
  rw [legacyHeader_eq_flatten] at himage
  have hlens := legacyParts_lengths args hid
  have hversion := hlegacy.version
  have hsizeWidths := headerSizeFields_widths hversion
  have hdtbWidths := dtbFields_widths args
  have hsize := @readFields_part _ _ _ _ 7 himage hlens _ rfl (headerSizeFields_fits args) _
    hsizeWidths (by split <;> decide)
  have hdtb := @readFields_part _ _ _ _ 8 himage hlens _ rfl hlegacy.dtb _ hdtbWidths
    (by split <;> decide)
  rw [Args.legacyLengths] at hsize hdtb
  refine ⟨?_, ?_, ?_⟩
  · exact @readFields_part _ _ _ _ 6 himage hlens _ rfl hlegacy.recoveryDtbo _
      (recoveryDtboFields_widths args) (by split <;> decide)
  · by_cases h0 : args.headerVersion > 0
    · rw [if_pos h0] at hsize
      exact hsize
    · rw [if_neg (by omega)] at hsizeWidths ⊢
      rw [List.map_eq_nil_iff.mp hsizeWidths]
      rfl
  · by_cases h1 : args.headerVersion > 1
    · have h0 : args.headerVersion > 0 := by omega
      have h2 : args.headerVersion = 1 ∨ args.headerVersion = 2 := by omega
      simp only [if_pos h0, if_pos h2] at hdtb
      exact hdtb
    · rw [if_neg (by omega)] at hdtbWidths ⊢
      rw [List.map_eq_nil_iff.mp hdtbWidths]
      rfl

/-- What the fields about the recovery image hold, zero where there are none. -/
theorem recoveryDtboFields_getD (args : Args) :
    (args.recoveryDtboFields.map fun f => f.2.toNat).getD 0 0 = args.dtboFile.length ∧
      (args.recoveryDtboFields.map fun f => f.2.toNat).getD 1 0 =
        if args.headerVersion > 0 ∧ args.recoveryDtbo.isSome then
          getRecoveryDtboOffset args else 0 := by
  rw [Args.recoveryDtboFields, Args.dtboFile]
  by_cases h0 : args.headerVersion > 0
  · cases hfile : args.recoveryDtbo with
    | none => simp [h0]
    | some bs => simp [h0, filesize]
  · simp [h0]

/-- What the field of the header size holds, zero where there is none. -/
theorem headerSizeFields_getD (args : Args) :
    (args.headerSizeFields.map fun f => f.2.toNat).getD 0 0 =
      if args.headerVersion = 1 then bootImageHeaderV1Size
      else if args.headerVersion = 2 then bootImageHeaderV2Size else 0 := by
  rw [Args.headerSizeFields]
  split
  · rfl
  · split <;> rfl

/-- What the fields about the device tree hold, zero where there are none. -/
theorem dtbFields_getD (args : Args) :
    (args.dtbFields.map fun f => f.2.toNat).getD 0 0 = args.dtbFile.length ∧
      (args.dtbFields.map fun f => f.2.toNat).getD 1 0 =
        if args.headerVersion > 1 then (args.base + args.dtbOffset).toNat else 0 := by
  rw [Args.dtbFields, Args.dtbFile]
  split
  · exact ⟨filesize_eq args.dtb, rfl⟩
  · exact ⟨rfl, rfl⟩

/-- **A header of version 0, 1 or 2 is read back.** -/
theorem readLegacyHeader_header (hlegacy : args.Legacy) (hid : imgId.length = 32)
    (hboard : FieldText.text 0 (packBytes bootNameSize args.board) = utf8 y)
    (hcmdline : FieldText.text 0 (packBytes bootArgsSize args.cmdline)
      ++ FieldText.text 0 (packBytes bootExtraArgsSize args.extraCmdline) = utf8 x)
    (himage : image = args.legacyHeader imgId ++ rest) :
    readLegacyHeader image = some (args.legacyGiven imgId x y) := by
  obtain ⟨hdtbo, hsize, hdtb⟩ := readFields_legacyTail hlegacy hid himage
  rw [legacyHeader_eq_flatten] at himage
  have hlens := legacyParts_lengths args hid
  have hwords : readFields (List.replicate 10 4) image 8 =
      some ((words args.legacyWords).map fun f => f.2.toNat) :=
    @readFields_part _ _ _ _ 1 himage hlens _ rfl (forall_mem_words.mpr hlegacy.words) _ rfl
      (by decide)
  have hboardCut : cut image 48 16 = some (packBytes bootNameSize args.board) :=
    @cut_part _ _ _ _ 2 himage hlens _ rfl _ (packBytes_length _ _)
  have hcmdlineCut : cut image 64 512 = some (packBytes bootArgsSize args.cmdline) :=
    @cut_part _ _ _ _ 3 himage hlens _ rfl _ (packBytes_length _ _)
  have hidCut : cut image 576 32 = some imgId := @cut_part _ _ _ _ 4 himage hlens _ rfl _ hid
  have hextraCut : cut image 608 1024 = some (packBytes bootExtraArgsSize args.extraCmdline) :=
    @cut_part _ _ _ _ 5 himage hlens _ rfl _ (packBytes_length _ _)
  have hversion : ((words args.legacyWords).map fun f => f.2.toNat).getD 8 0 =
    args.headerVersion.toNat := rfl
  obtain ⟨hosVersion, hosPatchLevel⟩ := osWord_parts args.osVersion args.osPatchLevel
  rw [readLegacyHeader, hwords]
  dsimp only [bind, Option.bind]
  rw [hboardCut, hcmdlineCut, hidCut, hextraCut, hversion]
  dsimp only [bind, Option.bind]
  rw [hdtbo, hsize, hdtb]
  dsimp only [bind, Option.bind, pure]
  rw [hboard, hcmdline, Args.legacyGiven]
  obtain ⟨hdtboSize, hdtboOffset⟩ := recoveryDtboFields_getD args
  obtain ⟨hdtbSize, hdtbAddr⟩ := dtbFields_getD args
  rw [hdtboSize, hdtboOffset, headerSizeFields_getD, hdtbSize, hdtbAddr]
  have hword : ((words args.legacyWords).map fun f => f.2.toNat).getD 9 0 = args.osWord := rfl
  rw [hword, Args.osWord, hosVersion, hosPatchLevel]
  rfl

/-- The parts of a header of version 3 or 4. -/
def Args.v3Parts (args : Args) : List Bytes :=
  [bootMagic, encodeAll (words args.v3Words),
    packBytes (bootArgsSize + bootExtraArgsSize) args.cmdline,
    encodeAll (words args.signatureWords)]

/-- The header from version 3 on is its parts in order. -/
theorem v3Header_eq_flatten (args : Args) : args.v3Header = args.v3Parts.flatten := by
  simp only [Args.v3Header, Args.v3Parts, List.flatten_cons, List.flatten_nil, List.append_nil,
    List.append_assoc]

/-- The lengths of its parts. -/
theorem v3Parts_lengths (args : Args) : args.v3Parts.map List.length =
    [8, 36, 1536, if args.headerVersion ≥ 4 then 4 else 0] := by
  have hwords : (encodeAll (words args.v3Words)).length = 36 := by
    rw [encodeAll_length]
    rfl
  have hsignature : (encodeAll (words args.signatureWords)).length =
      if args.headerVersion ≥ 4 then 4 else 0 := by
    rw [encodeAll_length, Args.signatureWords]
    split <;> rfl
  simp only [Args.v3Parts, List.map_cons, List.map_nil, packBytes_length, hwords, hsignature]
  rfl

/-- The size of the signature, in version 4. -/
theorem readFields_signatureSize (himage : image = args.v3Parts.flatten ++ rest) :
    readFields (if 3 < args.headerVersion.toNat then [4] else []) image 1580 =
      some (if args.headerVersion > 3 then [bootImageV4SignatureSize] else []) := by
  by_cases h4 : args.headerVersion > 3
  · have hone : args.signatureWords = [(bootImageV4SignatureSize : ℤ)] := by
      rw [Args.signatureWords, if_pos (by omega)]
    have hfits : ∀ f ∈ words args.signatureWords, Fits f.1 f.2 := by
      rw [hone]
      decide
    have hread := @readFields_part _ _ _ _ 3 himage (v3Parts_lengths args) _ rfl hfits [4]
      (by rw [hone]; rfl) (by decide)
    rw [hone] at hread
    rw [if_pos (by omega), if_pos h4]
    exact hread
  · rw [if_neg (by omega), if_neg h4]
    rfl

/-- **A header of version 3 or 4 is read back.** -/
theorem readV3Header_header (hwords : ∀ v ∈ args.v3Words, Fits 4 v)
    (hcmdline : FieldText.text 0 (packBytes (bootArgsSize + bootExtraArgsSize) args.cmdline) =
      utf8 x) (himage : image = args.v3Header ++ rest) :
    readV3Header image = some (args.v3Given x) := by
  rw [v3Header_eq_flatten] at himage
  have hlens := v3Parts_lengths args
  have hread : readFields (List.replicate 9 4) image 8 =
      some ((words args.v3Words).map fun f => f.2.toNat) :=
    @readFields_part _ _ _ _ 1 himage hlens _ rfl (forall_mem_words.mpr hwords) _ rfl (by decide)
  have hcut : cut image 44 1536 =
      some (packBytes (bootArgsSize + bootExtraArgsSize) args.cmdline) :=
    @cut_part _ _ _ _ 2 himage hlens _ rfl _ (packBytes_length _ _)
  have hversion : ((words args.v3Words).map fun f => f.2.toNat).getD 8 0 =
    args.headerVersion.toNat := rfl
  have hheaderSize : ((words args.v3Words).map fun f => f.2.toNat).getD 3 0 =
      if args.headerVersion > 3 then bootImageHeaderV4Size else bootImageHeaderV3Size := by
    rw [Args.v3Words]
    split <;> rfl
  obtain ⟨hosVersion, hosPatchLevel⟩ := osWord_parts args.osVersion args.osPatchLevel
  have hword : ((words args.v3Words).map fun f => f.2.toNat).getD 2 0 = args.osWord := rfl
  rw [readV3Header, hread]
  dsimp only [bind, Option.bind]
  rw [hcut, hversion]
  dsimp only [bind, Option.bind]
  rw [readFields_signatureSize himage]
  dsimp only [bind, Option.bind, pure]
  rw [hcmdline, hword, Args.osWord, hosVersion, hosPatchLevel, hheaderSize, Args.v3Given]
  split <;> rfl

/-! ### Reading the sections -/

/-- An empty file takes no page. -/
theorem padFile_nil {p : ℕ} (hp : p.isPowerOfTwo) : padFile [] p = [] := by
  rw [padFile_eq hp, List.length_nil, Nat.zero_mod, Nat.sub_zero, Nat.mod_self]
  rfl

/-- The sections of version 0, 1 or 2, empty where the version has none. -/
def Args.legacySections (args : Args) : List Bytes :=
  [args.kernel.getD [], args.ramdisk.getD [], args.second.getD [], args.dtboFile, args.dtbFile]

/-- The files of an image up to version 2 are its sections, each padded to its pages. -/
theorem padAll_legacySections (hv : args.headerVersion ≤ 2) {p : ℕ} (hp : p.isPowerOfTwo) :
    padAll args.files p = args.legacySections.flatMap fun xs => padFile xs p := by
  have hdtbo : padAll (if args.headerVersion > 0 ∧ args.headerVersion < 3 then [args.recoveryDtbo]
      else []) p = padFile args.dtboFile p := by
    rw [Args.dtboFile]
    by_cases h0 : args.headerVersion > 0
    · rw [if_pos ⟨h0, by omega⟩, if_pos h0, padAll, List.flatMap_singleton]
    · rw [if_neg (fun h => h0 h.1), if_neg h0, padFile_nil hp]
      rfl
  have hdtb : padAll (if args.headerVersion = 2 then [args.dtb] else []) p =
      padFile args.dtbFile p := by
    rw [Args.dtbFile]
    by_cases h2 : args.headerVersion = 2
    · rw [if_pos h2, if_pos (by omega), padAll, List.flatMap_singleton]
    · rw [if_neg h2, if_neg (by omega), padFile_nil hp]
      rfl
  rw [padAll] at hdtbo hdtb
  rw [Args.files, padAll, List.flatMap_append, List.flatMap_append, hdtbo, hdtb,
    Args.legacySections]
  simp only [List.flatMap_cons, List.flatMap_nil, List.append_nil, List.append_assoc]

/-- From version 3 on they are the kernel and the ramdisk. -/
theorem padAll_v3Files (hv : args.headerVersion > 2) (hsecond : args.second = none) {p : ℕ}
    (hp : p.isPowerOfTwo) : padAll args.files p =
      [args.kernel.getD [], args.ramdisk.getD []].flatMap fun xs => padFile xs p := by
  rw [Args.files, if_neg (by omega), if_neg (by omega), hsecond, padAll]
  simp only [List.flatMap_cons, List.flatMap_nil, List.append_nil, Option.getD_none,
    padFile_nil hp]

/-- The recovery image is where the header says that it is. -/
theorem cut_recoveryDtbo {front : Bytes} (hfront : front.length = args.pagesize.1)
    (himage : image = front ++ (args.legacySections.flatMap fun xs => padFile xs args.pagesize)) :
    cut image (args.legacyGiven imgId x y).recoveryDtboOffset
      (args.legacyGiven imgId x y).recoveryDtboSize = some args.dtboFile := by
  have hp := pagesize_isPowerOfTwo args
  by_cases hgiven : args.headerVersion > 0 ∧ args.recoveryDtbo.isSome
  · have hoffset : (args.legacyGiven imgId x y).recoveryDtboOffset = getRecoveryDtboOffset args :=
      if_pos hgiven
    obtain ⟨zeros, hzeros⟩ := padFile_eq_append args.dtboFile args.pagesize
    rw [hoffset]
    refine cut_append (front ++ padFile (args.kernel.getD []) args.pagesize
      ++ padFile (args.ramdisk.getD []) args.pagesize
      ++ padFile (args.second.getD []) args.pagesize)
      (zeros ++ padFile args.dtbFile args.pagesize) ?_ ?_
    · rw [himage, Args.legacySections]
      simp only [List.flatMap_cons, List.flatMap_nil, List.append_nil, List.append_assoc, hzeros]
    · simp only [List.length_append, hfront, padFile_length hp, getRecoveryDtboOffset,
        filesize_eq, Nat.mul_add, Nat.mul_one]
  · have hempty : args.dtboFile = [] := by
      rw [Args.dtboFile]
      split
      · rename_i h0
        have hnone : args.recoveryDtbo = none := by
          by_contra hne
          exact hgiven ⟨h0, Option.isSome_iff_ne_none.mpr hne⟩
        rw [hnone]
        rfl
      · rfl
    have hoffset : (args.legacyGiven imgId x y).recoveryDtboOffset = 0 := if_neg hgiven
    have hsize : (args.legacyGiven imgId x y).recoveryDtboSize = 0 := congrArg List.length hempty
    rw [hoffset, hsize, hempty]
    exact @cut_append _ image [] 0 [] image rfl rfl

/-- **The sections of version 0, 1 or 2 are read back.** -/
theorem readLegacyContents_eq {front : Bytes} (hfront : front.length = args.pagesize.1)
    (himage : image = front ++ (args.legacySections.flatMap fun xs => padFile xs args.pagesize)) :
    readLegacyContents image (args.legacyGiven imgId x y) =
      some { header := args.legacyGiven imgId x y
             kernel := args.kernel.getD [], ramdisk := args.ramdisk.getD []
             second := args.second.getD [], recoveryDtbo := args.dtboFile
             dtb := args.dtbFile } := by
  have hp := pagesize_isPowerOfTwo args
  have hcut : cutAll (args.legacyGiven imgId x y).stride image args.pagesize
      (args.legacySections.map List.length) = some args.legacySections :=
    cutAll_of_append (fun xs => padFile xs args.pagesize)
      (fun xs => padFile_eq_append xs args.pagesize) (fun xs => padFile_length hp) [] front
      (by rw [himage, List.append_nil]) hfront.symm
  have hsizes : args.legacySections.map List.length = [(args.legacyGiven imgId x y).kernelSize,
      (args.legacyGiven imgId x y).ramdiskSize, (args.legacyGiven imgId x y).secondSize,
      (args.legacyGiven imgId x y).recoveryDtboSize, (args.legacyGiven imgId x y).dtbSize] := by
    simp only [Args.legacySections, List.map_cons, List.map_nil, Args.legacyGiven, filesize_eq]
  rw [hsizes] at hcut
  have hpagesize : (args.legacyGiven imgId x y).pagesize = args.pagesize.1 := rfl
  rw [readLegacyContents, cut_recoveryDtbo hfront himage, hpagesize]
  dsimp only [bind, Option.bind]
  rw [hcut]
  rfl

/-- **The sections of version 3 or 4 are read back.** -/
theorem readV3Contents_eq {signature : Bytes} (hv : args.headerVersion > 2)
    (hsecond : args.second = none)
    (hsignature : (padFile signature bootImageHeaderV3Pagesize).length ≤
      (args.v3Given x).signatureSize)
    (himage : image = padFile args.v3Header bootImageHeaderV3Pagesize
      ++ padAll args.files bootImageHeaderV3Pagesize
      ++ padFile signature bootImageHeaderV3Pagesize) :
    readV3Contents image (args.v3Given x) =
      some { header := args.v3Given x
             kernel := args.kernel.getD [], ramdisk := args.ramdisk.getD []
             signature := padFile signature bootImageHeaderV3Pagesize } := by
  have hp := v3Pagesize_isPowerOfTwo
  rw [padAll_v3Files hv hsecond hp] at himage
  have hpage := v3Page_length args
  have hcut : cutAll (args.v3Given x).stride image bootImageHeaderV3Pagesize
      [(args.v3Given x).kernelSize, (args.v3Given x).ramdiskSize] =
        some [args.kernel.getD [], args.ramdisk.getD []] := by
    have hsizes : [(args.v3Given x).kernelSize, (args.v3Given x).ramdiskSize] =
        [args.kernel.getD [], args.ramdisk.getD []].map List.length := by
      simp only [List.map_cons, List.map_nil, Args.v3Given, filesize_eq]
    rw [hsizes]
    exact cutAll_of_append (fun xs => padFile xs bootImageHeaderV3Pagesize)
      (fun xs => padFile_eq_append xs bootImageHeaderV3Pagesize) (fun xs => padFile_length hp)
      (padFile signature bootImageHeaderV3Pagesize) _ (by rw [himage, List.append_assoc])
      hpage.symm
  have hdrop : image.drop (bootImageHeaderV3Pagesize
      + (args.v3Given x).stride (args.v3Given x).kernelSize
      + (args.v3Given x).stride (args.v3Given x).ramdiskSize) =
        padFile signature bootImageHeaderV3Pagesize := by
    rw [himage]
    refine List.drop_left' ?_
    simp only [List.length_append, hpage, List.flatMap_cons, List.flatMap_nil, List.append_nil,
      padFile_length hp, ← filesize_eq, Nat.add_assoc]
    rfl
  have hpagesize : (args.v3Given x).pagesize = bootImageHeaderV3Pagesize := rfl
  rw [readV3Contents, hpagesize, hcut]
  dsimp only
  rw [hdrop, List.take_of_length_le hsignature]

/-! ### The round trip -/

/-- The version stands at one place in every header. -/
theorem readFront {vs : List ℤ} {v : ℤ} (hfits : ∀ v ∈ vs, Fits 4 v) (hv : vs[8]? = some v)
    (himage : image = bootMagic ++ (encodeAll (words vs) ++ rest)) :
    cut image 0 8 = some bootMagic ∧ readWord 4 image 40 = some v.toNat := by
  refine ⟨@cut_append _ image bootMagic 0 [] _ himage rfl, ?_⟩
  have hwords : readWords 4 vs.length image 8 = some (vs.map Int.toNat) := by
    rw [encodeAll_words] at himage
    rw [← List.length_map Int.toNat]
    refine readWords_append (by omega) (fun n hn => ?_) himage rfl
    obtain ⟨w, hw, rfl⟩ := List.mem_map.mp hn
    exact (hfits w hw).2
  have hword := readWord_of_readWords hwords (List.getElem?_eq_some_iff.mp hv).1
  rw [List.getElem?_map, hv] at hword
  exact hword

/-- The version decides how an image is read. -/
theorem readBoot_of_version {version : ℕ} (hmagic : cut image 0 8 = some bootMagic)
    (hversion : readWord 4 image 40 = some version) :
    readBoot image = if version < 3 then (readLegacyHeader image).bind (readLegacyContents image)
      else (readV3Header image).bind (readV3Contents image) := by
  rw [readBoot, hmagic]
  dsimp only [bind, Option.bind]
  rw [if_pos rfl, hversion]

/-- **Versions 0 to 2** are read back. -/
theorem readBoot_legacy {argv : List (Opt × Value)} {unicodeDigit : Char → Option (Fin 10)}
    (hparse : parseCmdline unicodeDigit argv = .ok args) (hnul : NulFree argv)
    (hv : args.headerVersion < 3) (h : mkbootimg sha1 avbtool args = .ok image)
    (signature : Bytes) :
    readBoot image = some (args.bootContents sha1 (lastText .cmdline argv)
      (lastText .board argv) signature) := by
  obtain ⟨hlegacy, sha, hsha, himage⟩ := (mkbootimg_legacy (by omega)).mp h
  have hinput : sha = args.hashInput := (foldlM_updateSha_eq hsha).trans (List.nil_append _)
  have hid := packBytes_length 32 (sha1 sha)
  obtain ⟨⟨hboard, hboardLt⟩, htexts, -⟩ := parseCmdline_texts hparse
  obtain ⟨hcmdline, hextra, hlt⟩ := htexts hv
  obtain ⟨hboardText, hcmdlineText⟩ :=
    legacyTexts_eq hnul.1 hnul.2 hboard hboardLt hcmdline hextra hlt
  obtain ⟨zeros, hzeros⟩ := padFile_eq_append (args.legacyHeader (packBytes 32 (sha1 sha)))
    args.pagesize
  have hpage : image = args.legacyHeader (packBytes 32 (sha1 sha))
      ++ (zeros ++ padAll args.files args.pagesize) := by
    rw [himage, hzeros, List.append_assoc]
  have hheader := readLegacyHeader_header hlegacy hid hboardText hcmdlineText hpage
  have hfront : cut image 0 8 = some bootMagic ∧
      readWord 4 image 40 = some args.headerVersion.toNat := by
    obtain ⟨rest, hrest⟩ := legacyHeader_eq args (packBytes 32 (sha1 sha))
    rw [hrest, ← encodeAll_words, List.append_assoc, List.append_assoc] at hpage
    exact readFront hlegacy.words rfl hpage
  rw [padAll_legacySections (by omega) (pagesize_isPowerOfTwo args)] at himage
  have hcontents := @readLegacyContents_eq _ _ (packBytes 32 (sha1 sha)) (lastText .cmdline argv)
    (lastText .board argv) _ (legacyPage_length args hid) himage
  rw [readBoot_of_version hfront.1 hfront.2, if_pos (by omega), hheader, Option.bind_some,
    hcontents, hinput, Args.bootContents, if_pos hv]

/-- A signature is not longer in its page than the header says. -/
theorem Args.SignedBy.padFile_length_le {signature : Bytes}
    (h : args.SignedBy avbtool image signature) (x : Str) :
    (padFile signature bootImageHeaderV3Pagesize).length ≤ (args.v3Given x).signatureSize := by
  have hp := v3Pagesize_isPowerOfTwo
  have hpage (h4 : args.headerVersion = 4) (hlength : signature.length ≤ bootImageV4SignatureSize) :
      (padFile signature bootImageHeaderV3Pagesize).length ≤ (args.v3Given x).signatureSize := by
    have hsize : (args.v3Given x).signatureSize = bootImageV4SignatureSize :=
      if_pos (by omega)
    have hpages : getNumberOfPages signature.length bootImageHeaderV3Pagesize ≤ 1 := by
      simp only [getNumberOfPages, bootImageHeaderV3Pagesize]
      rw [bootImageV4SignatureSize] at hlength
      omega
    rw [hsize, padFile_length hp]
    exact Nat.mul_le_mul_left bootImageHeaderV3Pagesize hpages
  cases h with
  | unsigned hv =>
      rw [padFile_nil hp]
      exact Nat.zero_le _
  | zeros hv hkey => exact hpage hv (List.length_replicate ▸ Nat.le_refl _)
  | signed hv hkey himage hsignature hlength => exact hpage hv hlength

/-- **Versions 3 and 4** are read back. -/
theorem readBoot_v3 {argv : List (Opt × Value)} {unicodeDigit : Char → Option (Fin 10)}
    (hparse : parseCmdline unicodeDigit argv = .ok args) (hnul : NulFree argv)
    (hv : ¬ args.headerVersion < 3) (h : mkbootimg sha1 avbtool args = .ok image) :
    ∃ signature, args.SignedBy avbtool image signature ∧
      readBoot image = some (args.bootContents sha1 (lastText .cmdline argv)
        (lastText .board argv) signature) := by
  obtain ⟨-, hsecond, hwords, signature, hsigned, himage⟩ := mkbootimg_signed (by omega) h
  refine ⟨signature, hsigned, ?_⟩
  obtain ⟨-, -, htexts⟩ := parseCmdline_texts hparse
  obtain ⟨hcmdline, hlt⟩ := htexts (by omega)
  have hcmdlineText : FieldText.text 0
      (packBytes (bootArgsSize + bootExtraArgsSize) args.cmdline) =
        utf8 (lastText .cmdline argv) := by
    rw [hcmdline]
    exact FieldText.text_field (zero_not_mem_utf8 hnul.1) (Nat.le_of_lt hlt) []
  obtain ⟨zeros, hzeros⟩ := padFile_eq_append args.v3Header bootImageHeaderV3Pagesize
  have hpage : image = args.v3Header ++ (zeros ++ padAll args.files bootImageHeaderV3Pagesize
      ++ padFile signature bootImageHeaderV3Pagesize) := by
    rw [himage, hzeros]
    simp only [List.append_assoc]
  have hheader := readV3Header_header hwords hcmdlineText hpage
  have hlength := hsigned.padFile_length_le (lastText .cmdline argv)
  have hcontents := readV3Contents_eq (by omega) hsecond hlength himage
  have hfront : cut image 0 8 = some bootMagic ∧
      readWord 4 image 40 = some args.headerVersion.toNat := by
    rw [v3Header_eq_flatten, Args.v3Parts, List.flatten_cons, List.flatten_cons,
      List.append_assoc, List.append_assoc] at hpage
    exact readFront hwords rfl hpage
  rw [readBoot_of_version hfront.1 hfront.2, if_neg (by omega), hheader, Option.bind_some,
    hcontents, Args.bootContents, if_neg hv]

/-- **The boot image round trip.** For every command line, a reader that only knows the format
finds in the file that is written, of any version, every number of the header, the kernel command
line as one text, the name of the board, every section that the version has, the recovery image
at the offset in the header, and the signature. -/
theorem readBoot_mkbootimg {argv : List (Opt × Value)} {unicodeDigit : Char → Option (Fin 10)}
    (hnul : NulFree argv) (hparse : parseCmdline unicodeDigit argv = .ok args)
    (h : mkbootimg sha1 avbtool args = .ok image) :
    ∃ signature, args.SignedBy avbtool image signature ∧
      readBoot image = some (args.bootContents sha1 (lastText .cmdline argv)
        (lastText .board argv) signature) := by
  by_cases hv : args.headerVersion < 3
  · exact ⟨[], .unsigned (by omega), readBoot_legacy hparse hnul hv h []⟩
  · exact readBoot_v3 hparse hnul hv h

end Reader

/-! ### A boot image with every section -/

/-- Version 2, with a text in each of the two fields. -/
def quietArgv : List (Opt × Value) :=
  [(.headerVersion, .text ['2']), (.kernel, .file [1]), (.ramdisk, .file [2]),
    (.second, .file [3]), (.recoveryDtbo, .file [4]), (.dtb, .file [5]),
    (.cmdline, .text ['q', 'u', 'i', 'e', 't']), (.board, .text ['n', 'b'])]

/-- What the parser makes of them. -/
def quietArgs : Args where
  kernel := some [1]
  ramdisk := some [2]
  second := some [3]
  recoveryDtbo := some [4]
  dtb := some [5]
  headerVersion := 2
  cmdline := [113, 117, 105, 101, 116, 0, 0]
  board := [110, 98, 0]

/-- The arguments of that command line. -/
theorem parseCmdline_quietArgv : parseCmdline (fun _ => none) quietArgv = .ok quietArgs := rfl

/-- What the reader finds in the image that it asks for. -/
theorem readBoot_quietArgv : ∃ image contents, readBoot image = some contents ∧
    contents.header.cmdline = [113, 117, 105, 101, 116] ∧ contents.header.board = [110, 98] ∧
      contents.header.recoveryDtboOffset = 8192 ∧ contents.recoveryDtbo = [4] ∧
      contents.dtb = [5] := by
  have hlegacy : quietArgs.Legacy :=
    ⟨by decide, by decide, by decide, by decide, by decide⟩
  obtain ⟨image, himage⟩ := mkbootimg_legacy_isOk (fun _ => List.replicate 20 0)
    (fun _ _ => .error .calledProcessError) hlegacy
  obtain ⟨signature, -, hread⟩ :=
    readBoot_mkbootimg ⟨by decide, by decide⟩ parseCmdline_quietArgv himage
  exact ⟨image, _, hread, rfl, rfl, rfl, rfl, rfl⟩

end BootImage

end Msm8998
