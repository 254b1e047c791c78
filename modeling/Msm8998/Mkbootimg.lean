import Mathlib.Algebra.GroupWithZero.Nat
import Msm8998.FdtParse
import Msm8998.LittleEndian

/-!
# Writing a Boot Image

This module models the part of `mkbootimg.py` that writes the boot image: the two header
layouts, the page padding and the sections. `pack` is that of a little-endian machine. The
image is what stands in the output file at the end; `sha1` and the program that signs a
version 4 image are not part of the repository and are parameters. The vendor boot image,
a second file with a writer of its own, is left out.

## Main results

* `mkbootimg_legacy`: the file written for header versions 0 to 2, section by section;
* `mkbootimg_legacy_isOk`: when these versions are written at all;
* `mkbootimg_v3`: where the header and the kernel are in versions 3 and 4.
-/

open Fallible LittleEndian

namespace Msm8998

namespace BootImage

open Fdt (Bytes Str)

/-- How a tool ends other than by returning. -/
inductive ToolError
  | structError | assertionError
  | valueError (message : String)
  | argumentTypeError (message : String)
  | parserError
  | systemExit (message : String)
  | calledProcessError
  | outOfFuel
deriving Repr, DecidableEq

/-! ### Constants -/

/-- `BOOT_MAGIC`, the text "ANDROID!". -/
def bootMagic : Bytes := [65, 78, 68, 82, 79, 73, 68, 33]

def bootNameSize : ℕ := 16
def bootArgsSize : ℕ := 512
def bootExtraArgsSize : ℕ := 1024
def bootImageHeaderV1Size : ℕ := 1648
def bootImageHeaderV2Size : ℕ := 1660
def bootImageHeaderV3Size : ℕ := 1580
def bootImageHeaderV3Pagesize : ℕ := 4096
def bootImageHeaderV4Size : ℕ := 1584
def bootImageV4SignatureSize : ℕ := 4096

/-- The `choices` of `--pagesize`. -/
def pagesizeChoices : List ℕ := (List.range' 11 4).map (2 ^ ·)

/-- The page sizes from 2 to 16 KiB are choices. -/
theorem two_pow_mem_pagesizeChoices {i : ℕ} (h : 11 ≤ i) (h' : i < 15) :
    2 ^ i ∈ pagesizeChoices :=
  List.mem_map_of_mem (List.mem_range'_1.mpr ⟨h, h'⟩)

/-- So is the default. -/
theorem default_mem_pagesizeChoices : 2048 ∈ pagesizeChoices :=
  two_pow_mem_pagesizeChoices (Nat.le_refl 11) (by omega)

/-- The default OS version fits its bits. -/
theorem default_osVersion_lt : 0 < 2 ^ 21 := Nat.two_pow_pos 21

/-- So does the default patch level. -/
theorem default_osPatchLevel_lt : 0 < 2 ^ 11 := Nat.two_pow_pos 11

/-- Every choice is one of these powers of two. -/
theorem eq_two_pow_of_mem_pagesizeChoices {n : ℕ} (h : n ∈ pagesizeChoices) :
    ∃ i, 11 ≤ i ∧ i < 15 ∧ n = 2 ^ i := by
  obtain ⟨i, hi, rfl⟩ := List.mem_map.mp h
  obtain ⟨hlo, hhi⟩ := List.mem_range'_1.mp hi
  exact ⟨i, hlo, hhi, rfl⟩

/-! ### Arguments -/

/-- The result of `parse_cmdline`. A file is its contents, `None` where it was not given. -/
structure Args where
  kernel : Option Bytes := none
  ramdisk : Option Bytes := none
  second : Option Bytes := none
  dtb : Option Bytes := none
  recoveryDtbo : Option Bytes := none
  cmdline : Bytes := [0]
  extraCmdline : Bytes := []
  base : ℤ := 0x10000000
  kernelOffset : ℤ := 0x00008000
  ramdiskOffset : ℤ := 0x01000000
  secondOffset : ℤ := 0x00f00000
  dtbOffset : ℤ := 0x01f00000
  osVersion : {n : ℕ // n < 2 ^ 21} := ⟨0, default_osVersion_lt⟩
  osPatchLevel : {n : ℕ // n < 2 ^ 11} := ⟨0, default_osPatchLevel_lt⟩
  tagsOffset : ℤ := 0x00000100
  board : Bytes := [0]
  pagesize : {n : ℕ // n ∈ pagesizeChoices} := ⟨2048, default_mem_pagesizeChoices⟩
  headerVersion : ℤ := 0
  gkiSigningAlgorithm : Option Str := none
  gkiSigningKey : Option Str := none
  gkiSigningSignatureArgs : Option Str := none
  gkiSigningAvbtoolPath : Option Str := none

/-- `filesize`. -/
def filesize : Option Bytes → ℕ
  | none => 0
  | some bs => bs.length

/-- `(args.os_version << 11) | args.os_patch_level`. -/
def Args.osWord (args : Args) : ℕ := args.osVersion.1 <<< 11 ||| args.osPatchLevel.1

/-! ### Packing -/

/-- A number that a field of `w` bytes can hold. -/
def Fits (w : ℕ) (v : ℤ) : Prop := 0 ≤ v ∧ v.toNat < 256 ^ w

instance (w : ℕ) (v : ℤ) : Decidable (Fits w v) := inferInstanceAs (Decidable (_ ∧ _))

/-- `pack('I', v)` with `w` = 4 and `pack('Q', v)` with `w` = 8. -/
def pack (w : ℕ) (v : ℤ) : Except ToolError Bytes :=
  if Fits w v then .ok (split w v.toNat) else .error .structError

/-- Fields of given widths, written one after the other. -/
def packAll : List (ℕ × ℤ) → Except ToolError Bytes
  | [] => .ok []
  | f :: fs => do
      let head ← pack f.1 f.2
      let rest ← packAll fs
      return head ++ rest

/-- Fields written with the format letter `I`. -/
def words (vs : List ℤ) : List (ℕ × ℤ) := vs.map fun v => (4, v)

/-- `pack(f'{n}s', bs)`: cut or filled with zero bytes. -/
def packBytes (n : ℕ) (bs : Bytes) : Bytes := (bs ++ List.replicate n 0).take n

/-- `pad_file`, where `f.tell()` is the number of bytes written so far. -/
def padFile (out : Bytes) (padding : ℕ) : Bytes :=
  out ++ List.replicate ((padding - (out.length &&& (padding - 1))) &&& (padding - 1)) 0

/-- `write_padded_file`. -/
def writePaddedFile (out : Bytes) (file : Option Bytes) (padding : ℕ) : Bytes :=
  match file with
  | none => out
  | some bs => padFile (out ++ bs) padding

/-! ### Headers -/

/-- `update_sha`, on the bytes hashed so far. -/
def updateSha (sha : Bytes) (file : Option Bytes) : Except ToolError Bytes := do
  match file with
  | some bs =>
      let size ← pack 4 (filesize file)
      return sha ++ bs ++ size
  | none =>
      let size ← pack 4 0
      return sha ++ size

/-- `get_number_of_pages`. -/
def getNumberOfPages (imageSize pageSize : ℕ) : ℕ := (imageSize + pageSize - 1) / pageSize

/-- `get_recovery_dtbo_offset`. -/
def getRecoveryDtboOffset (args : Args) : ℕ :=
  let numHeaderPages := 1
  let numKernelPages := getNumberOfPages (filesize args.kernel) args.pagesize
  let numRamdiskPages := getNumberOfPages (filesize args.ramdisk) args.pagesize
  let numSecondPages := getNumberOfPages (filesize args.second) args.pagesize
  args.pagesize * (numHeaderPages + numKernelPages + numRamdiskPages + numSecondPages)

/-- The words at the start of a version 3 or 4 header, with the four reserved ones. -/
def Args.v3Words (args : Args) : List ℤ :=
  [filesize args.kernel, filesize args.ramdisk, args.osWord,
    if args.headerVersion > 3 then bootImageHeaderV4Size else bootImageHeaderV3Size,
    0, 0, 0, 0, args.headerVersion]

/-- The size of the signature, in version 4. -/
def Args.signatureWords (args : Args) : List ℤ :=
  if args.headerVersion ≥ 4 then [bootImageV4SignatureSize] else []

/-- `write_header_v3_and_above`. -/
def writeHeaderV3AndAbove (args : Args) : Except ToolError Bytes := do
  let head ← packAll (words args.v3Words)
  let signature ← packAll (words args.signatureWords)
  return padFile
    (bootMagic ++ head ++ packBytes (bootArgsSize + bootExtraArgsSize) args.cmdline ++ signature)
    bootImageHeaderV3Pagesize

def Args.ramdiskLoadAddress (args : Args) : ℤ :=
  if filesize args.ramdisk > 0 then args.base + args.ramdiskOffset else 0

def Args.secondLoadAddress (args : Args) : ℤ :=
  if filesize args.second > 0 then args.base + args.secondOffset else 0

/-- The words at the start of a header of version 0, 1 or 2. -/
def Args.legacyWords (args : Args) : List ℤ :=
  [filesize args.kernel, args.base + args.kernelOffset,
    filesize args.ramdisk, args.ramdiskLoadAddress,
    filesize args.second, args.secondLoadAddress,
    args.base + args.tagsOffset, args.pagesize.1, args.headerVersion, args.osWord]

/-- Size and offset of the recovery dtbo, zero if there is none. -/
def Args.recoveryDtboFields (args : Args) : List (ℕ × ℤ) :=
  if args.headerVersion > 0 then
    if args.recoveryDtbo.isSome then
      [(4, filesize args.recoveryDtbo), (8, getRecoveryDtboOffset args)]
    else [(4, 0), (8, 0)]
  else []

/-- The header size, in versions 1 and 2. -/
def Args.headerSizeFields (args : Args) : List (ℕ × ℤ) :=
  if args.headerVersion = 1 then [(4, bootImageHeaderV1Size)]
  else if args.headerVersion = 2 then [(4, bootImageHeaderV2Size)]
  else []

/-- Size and address of the dtb. -/
def Args.dtbFields (args : Args) : List (ℕ × ℤ) :=
  if args.headerVersion > 1 then [(4, filesize args.dtb), (8, args.base + args.dtbOffset)]
  else []

/-- The files that go into the image id. -/
def Args.hashedFiles (args : Args) : List (Option Bytes) :=
  [args.kernel, args.ramdisk, args.second]
    ++ (if args.headerVersion > 0 then [args.recoveryDtbo] else [])
    ++ (if args.headerVersion > 1 then [args.dtb] else [])

/-- `write_header`. -/
def writeHeader (sha1 : Bytes → Bytes) (args : Args) : Except ToolError Bytes :=
  if args.headerVersion > 4 then
    .error (.valueError
      ("Boot header version " ++ toString args.headerVersion ++ " not supported"))
  else if args.headerVersion = 3 ∨ args.headerVersion = 4 then
    writeHeaderV3AndAbove args
  else do
    let head ← packAll (words args.legacyWords)
    let sha ← args.hashedFiles.foldlM updateSha []
    let imgId := packBytes 32 (sha1 sha)
    let dtbo ← packAll args.recoveryDtboFields
    let headerSize ← packAll args.headerSizeFields
    if args.headerVersion > 1 ∧ filesize args.dtb = 0 then
      .error (.valueError "DTB image must not be empty.")
    else do
      let dtb ← packAll args.dtbFields
      return padFile
        (bootMagic ++ head ++ packBytes bootNameSize args.board
          ++ packBytes bootArgsSize args.cmdline ++ imgId
          ++ packBytes bootExtraArgsSize args.extraCmdline ++ dtbo ++ headerSize ++ dtb)
        args.pagesize

/-! ### Sections -/

/-- `add_boot_image_signature`. Run on the image so far, `avbtool` leaves a file with the
signature or fails. -/
def addBootImageSignature (avbtool : Args → Bytes → Except ToolError Bytes) (args : Args)
    (out : Bytes) (pagesize : ℕ) : Except ToolError Bytes :=
  if args.gkiSigningKey.getD [] = [] ∨ args.gkiSigningAlgorithm.getD [] = [] then
    .ok (padFile (out ++ List.replicate bootImageV4SignatureSize 0) pagesize)
  else do
    let bootSignature ← avbtool args out
    if bootSignature.length > bootImageV4SignatureSize then
      .error (.valueError ("boot sigature size is > " ++ toString bootImageV4SignatureSize))
    else
      return writePaddedFile out (some bootSignature) pagesize

/-- `write_data`. -/
def writeData (avbtool : Args → Bytes → Except ToolError Bytes) (args : Args) (out : Bytes)
    (pagesize : ℕ) : Except ToolError Bytes :=
  let out := writePaddedFile out args.kernel pagesize
  let out := writePaddedFile out args.ramdisk pagesize
  let out := writePaddedFile out args.second pagesize
  let out := if args.headerVersion > 0 ∧ args.headerVersion < 3 then
    writePaddedFile out args.recoveryDtbo pagesize else out
  let out := if args.headerVersion = 2 then writePaddedFile out args.dtb pagesize else out
  if args.headerVersion ≥ 4 then addBootImageSignature avbtool args out pagesize else .ok out

/-- `main` on parsed arguments with `--output` and without `--vendor_boot`: the output. -/
def mkbootimg (sha1 : Bytes → Bytes) (avbtool : Args → Bytes → Except ToolError Bytes)
    (args : Args) : Except ToolError Bytes :=
  if args.second.isSome ∧ args.headerVersion > 2 then
    .error (.valueError "--second not compatible with given header version")
  else do
    let header ← writeHeader sha1 args
    if args.headerVersion > 2 then
      writeData avbtool args header bootImageHeaderV3Pagesize
    else
      writeData avbtool args header args.pagesize

/-! ### The version word -/

/-- A shift leaves room for what is put below it. -/
theorem shiftLeft_or_eq_add {k m : ℕ} (n : ℕ) (h : m < 2 ^ k) : n <<< k ||| m = n * 2 ^ k + m := by
  rw [← Nat.shiftLeft_add_eq_or_of_lt h, Nat.shiftLeft_eq]

/-- The two parts of the word come apart again. -/
theorem osWord_parts (osVersion : {n : ℕ // n < 2 ^ 21}) (osPatchLevel : {n : ℕ // n < 2 ^ 11}) :
    (osVersion.1 <<< 11 ||| osPatchLevel.1) >>> 11 = osVersion.1 ∧
      (osVersion.1 <<< 11 ||| osPatchLevel.1) &&& 0x7FF = osPatchLevel.1 := by
  have hpatch := osPatchLevel.2
  rw [shiftLeft_or_eq_add _ hpatch]
  refine ⟨?_, ?_⟩
  · rw [Nat.shiftRight_eq_div_pow]
    omega
  · rw [Nat.and_two_pow_sub_one_eq_mod _ 11]
    omega

/-- The version word has four bytes. -/
theorem osWord_lt (args : Args) : args.osWord < 256 ^ 4 := by
  have hversion := args.osVersion.2
  have hpatch := args.osPatchLevel.2
  rw [Args.osWord, shiftLeft_or_eq_add _ hpatch]
  omega

/-! ### What packing writes -/

/-- The bytes of fields that fit. -/
def encodeAll (fs : List (ℕ × ℤ)) : Bytes := fs.flatMap fun f => split f.1 f.2.toNat

/-- Fields are written when each of them fits. -/
theorem packAll_eq_ok {fs : List (ℕ × ℤ)} {bs : Bytes} :
    packAll fs = .ok bs ↔ (∀ f ∈ fs, Fits f.1 f.2) ∧ bs = encodeAll fs := by
  induction fs generalizing bs with
  | nil => simp [packAll, encodeAll, eq_comm]
  | cons f fs ih =>
      rw [packAll, bind_eq_ok, List.forall_mem_cons]
      constructor
      · rintro ⟨head, hhead, hrest⟩
        obtain ⟨rest, hpack, hbs⟩ := bind_eq_ok.mp hrest
        obtain ⟨hfits, rfl⟩ := ih.mp hpack
        rw [pack] at hhead
        split at hhead
        · rename_i hfit
          cases hhead
          cases hbs
          exact ⟨⟨hfit, hfits⟩, rfl⟩
        · cases hhead
      · rintro ⟨⟨hfit, hfits⟩, rfl⟩
        refine ⟨split f.1 f.2.toNat, by rw [pack, if_pos hfit], ?_⟩
        exact bind_eq_ok.mpr ⟨encodeAll fs, ih.mpr ⟨hfits, rfl⟩, rfl⟩

/-- Words are four bytes each. -/
theorem encodeAll_words (vs : List ℤ) :
    encodeAll (words vs) = (vs.map Int.toNat).flatMap (split 4) := by
  rw [encodeAll, words, List.flatMap_map, List.flatMap_map]

/-- The length of a list of fields. -/
theorem encodeAll_length (fs : List (ℕ × ℤ)) :
    (encodeAll fs).length = (fs.map Prod.fst).sum := by
  simp only [encodeAll, List.length_flatMap, split_length]

/-- What holds of the fields holds of the words. -/
theorem forall_mem_words {vs : List ℤ} {P : ℕ → ℤ → Prop} :
    (∀ f ∈ words vs, P f.1 f.2) ↔ ∀ v ∈ vs, P 4 v := by
  simp only [words, List.forall_mem_map]

/-- A number fits when it is below what its bytes can hold. -/
theorem fits_natCast {w n : ℕ} : Fits w (n : ℤ) ↔ n < 256 ^ w := by
  rw [Fits, Int.toNat_natCast]
  exact and_iff_right (Int.natCast_nonneg n)

@[simp] theorem packBytes_length (n : ℕ) (bs : Bytes) : (packBytes n bs).length = n := by
  rw [packBytes, List.length_take, List.length_append, List.length_replicate]
  omega

/-- A file that is not given has no size. -/
theorem filesize_eq (file : Option Bytes) : filesize file = (file.getD []).length := by
  cases file <;> rfl

/-! ### Padding -/

variable {p : ℕ} {out bs : Bytes}

/-- What padding adds. -/
theorem padFile_eq (hp : p.isPowerOfTwo) :
    padFile out p = out ++ List.replicate ((p - out.length % p) % p) 0 := by
  obtain ⟨i, rfl⟩ := hp
  rw [padFile, Nat.and_two_pow_sub_one_eq_mod, Nat.and_two_pow_sub_one_eq_mod]

/-- It adds only behind the end. -/
theorem padFile_eq_append (out : Bytes) (p : ℕ) : ∃ zeros, padFile out p = out ++ zeros :=
  ⟨_, rfl⟩

/-- Padding fills the last page. -/
theorem padFile_length (hp : p.isPowerOfTwo) :
    (padFile out p).length = p * getNumberOfPages out.length p := by
  have hpos : 0 < p := Nat.pos_of_isPowerOfTwo hp
  rw [padFile_eq hp, List.length_append, List.length_replicate, getNumberOfPages]
  have hdiv := Nat.div_add_mod out.length p
  have hlt := Nat.mod_lt out.length hpos
  rcases Nat.eq_zero_or_pos (out.length % p) with hzero | hpart
  · have hpages : (out.length + p - 1) / p = out.length / p := by
      apply Nat.div_eq_of_lt_le
      · rw [Nat.mul_comm]
        omega
      · rw [Nat.mul_comm, Nat.mul_succ]
        omega
    rw [hpages, hzero, Nat.sub_zero, Nat.mod_self]
    omega
  · have hpages : (out.length + p - 1) / p = out.length / p + 1 := by
      apply Nat.div_eq_of_lt_le
      · rw [Nat.mul_comm, Nat.mul_succ]
        omega
      · rw [Nat.mul_comm, Nat.mul_succ, Nat.mul_succ]
        omega
    have hpad : p - out.length % p < p := Nat.sub_lt hpos hpart
    rw [hpages, Nat.mod_eq_of_lt hpad, Nat.mul_succ]
    omega

/-- Padded data end at a page. -/
theorem dvd_padFile_length (hp : p.isPowerOfTwo) : p ∣ (padFile out p).length := by
  rw [padFile_length hp]
  exact Nat.dvd_mul_right p _

/-- A file that starts on a page boundary is padded by itself. -/
theorem padFile_append (hp : p.isPowerOfTwo) (hout : p ∣ out.length) :
    padFile (out ++ bs) p = out ++ padFile bs p := by
  rw [padFile_eq hp, padFile_eq hp, List.length_append, List.append_assoc,
    Nat.add_mod, Nat.mod_eq_zero_of_dvd hout, Nat.zero_add, Nat.mod_mod]

/-- Writing a file behind whole pages adds its own pages. -/
theorem writePaddedFile_eq (hp : p.isPowerOfTwo) (hout : p ∣ out.length) (file : Option Bytes) :
    writePaddedFile out file p = out ++ padFile (file.getD []) p := by
  cases file with
  | none =>
      rw [writePaddedFile, Option.getD_none, padFile_eq hp, List.length_nil, Nat.zero_mod,
        Nat.sub_zero, Nat.mod_self]
      simp
  | some bs => rw [writePaddedFile, padFile_append hp hout, Option.getD_some]

/-- Each file in its own pages. -/
def padAll (files : List (Option Bytes)) (p : ℕ) : Bytes :=
  files.flatMap fun file => padFile (file.getD []) p

/-- The pages of a list of files are those of the first and of the rest. -/
theorem padAll_cons (file : Option Bytes) (files : List (Option Bytes)) (p : ℕ) :
    padAll (file :: files) p = padFile (file.getD []) p ++ padAll files p :=
  List.flatMap_cons

/-- Writing the files one after the other. -/
theorem foldl_writePaddedFile (hp : p.isPowerOfTwo) (files : List (Option Bytes))
    (hout : p ∣ out.length) :
    files.foldl (fun out file => writePaddedFile out file p) out = out ++ padAll files p := by
  induction files generalizing out with
  | nil => simp [padAll]
  | cons file files ih =>
      have hnext : p ∣ (out ++ padFile (file.getD []) p).length := by
        rw [List.length_append]
        exact Nat.dvd_add hout (dvd_padFile_length hp)
      rw [List.foldl_cons, writePaddedFile_eq hp hout, ih hnext, padAll_cons, List.append_assoc]

/-- How long they are in pages. -/
theorem padAll_length (hp : p.isPowerOfTwo) (files : List (Option Bytes)) :
    (padAll files p).length =
      (files.map fun file => p * getNumberOfPages (filesize file) p).sum := by
  simp only [padAll, List.length_flatMap, padFile_length hp, filesize_eq]

/-- Every page size is a power of two. -/
theorem pagesize_isPowerOfTwo (args : Args) : args.pagesize.1.isPowerOfTwo := by
  obtain ⟨i, -, -, hi⟩ := eq_two_pow_of_mem_pagesizeChoices args.pagesize.2
  exact ⟨i, hi⟩

/-- And at least 2 KiB. -/
theorem le_pagesize (args : Args) : 2048 ≤ args.pagesize.1 := by
  obtain ⟨i, hlo, -, hi⟩ := eq_two_pow_of_mem_pagesizeChoices args.pagesize.2
  rw [hi]
  exact Nat.pow_le_pow_right Nat.two_pos hlo

/-- So is the fixed page size of version 3. -/
theorem v3Pagesize_isPowerOfTwo : bootImageHeaderV3Pagesize.isPowerOfTwo := ⟨12, rfl⟩

/-! ### The written file -/

/-- The files written after a header of version 0 to 4. -/
def Args.files (args : Args) : List (Option Bytes) :=
  [args.kernel, args.ramdisk, args.second]
    ++ (if args.headerVersion > 0 ∧ args.headerVersion < 3 then [args.recoveryDtbo] else [])
    ++ (if args.headerVersion = 2 then [args.dtb] else [])

/-- The part of the header that versions 0, 1 and 2 share. -/
def Args.legacyFront (args : Args) (imgId : Bytes) : Bytes :=
  bootMagic ++ encodeAll (words args.legacyWords) ++ packBytes bootNameSize args.board
    ++ packBytes bootArgsSize args.cmdline ++ imgId
    ++ packBytes bootExtraArgsSize args.extraCmdline

/-- A header of version 0, 1 or 2 up to its padding. -/
def Args.legacyHeader (args : Args) (imgId : Bytes) : Bytes :=
  args.legacyFront imgId ++ encodeAll args.recoveryDtboFields
    ++ encodeAll args.headerSizeFields ++ encodeAll args.dtbFields

/-- A header of version 3 or 4 up to its padding. -/
def Args.v3Header (args : Args) : Bytes :=
  bootMagic ++ encodeAll (words args.v3Words)
    ++ packBytes (bootArgsSize + bootExtraArgsSize) args.cmdline
    ++ encodeAll (words args.signatureWords)

/-- Every number in a header of version 0, 1 or 2 fits its field, and version 2 has a dtb. -/
structure Args.Legacy (args : Args) : Prop where
  version : args.headerVersion ≤ 2
  words : ∀ v ∈ args.legacyWords, Fits 4 v
  recoveryDtbo : ∀ f ∈ args.recoveryDtboFields, Fits f.1 f.2
  dtb : ∀ f ∈ args.dtbFields, Fits f.1 f.2
  dtb_ne : ¬ (args.headerVersion > 1 ∧ filesize args.dtb = 0)

/-- A legacy image has no negative version. -/
theorem Args.Legacy.version_nonneg {args : Args} (h : args.Legacy) : 0 ≤ args.headerVersion :=
  (h.words args.headerVersion (by simp [Args.legacyWords])).1

/-- The header size fits its field. -/
theorem headerSizeFields_fits (args : Args) :
    ∀ f ∈ args.headerSizeFields, Fits f.1 f.2 := by
  intro f hf
  rw [Args.headerSizeFields] at hf
  split at hf
  · rw [List.mem_singleton.mp hf]
    decide
  · split at hf
    · rw [List.mem_singleton.mp hf]
      decide
    · cases hf

/-- The part of the header that every legacy version has. -/
theorem legacyFront_length (args : Args) {imgId : Bytes} (hid : imgId.length = 32) :
    (args.legacyFront imgId).length = 1632 := by
  have hwords : (encodeAll (words args.legacyWords)).length = 40 := by
    rw [encodeAll_length]
    rfl
  simp only [Args.legacyFront, List.length_append, packBytes_length, hid, hwords]
  rfl

section

variable {sha1 : Bytes → Bytes} {avbtool : Args → Bytes → Except ToolError Bytes}
variable {args : Args} {header image : Bytes}

/-- What is written behind the header: the files, and a signature from version 4 on. -/
theorem writeData_eq (hp : p.isPowerOfTwo) (hout : p ∣ out.length) :
    writeData avbtool args out p =
      if args.headerVersion ≥ 4 then
        addBootImageSignature avbtool args (out ++ padAll args.files p) p
      else .ok (out ++ padAll args.files p) := by
  rw [← foldl_writePaddedFile hp args.files hout, writeData, Args.files]
  by_cases hdtbo : args.headerVersion > 0 ∧ args.headerVersion < 3
  · by_cases hdtb : args.headerVersion = 2
    · simp only [if_pos hdtbo, if_pos hdtb, List.foldl_append, List.foldl_cons, List.foldl_nil]
    · simp only [if_pos hdtbo, if_neg hdtb, List.foldl_append, List.foldl_cons, List.foldl_nil]
  · by_cases hdtb : args.headerVersion = 2
    · simp only [if_neg hdtbo, if_pos hdtb, List.foldl_append, List.foldl_cons, List.foldl_nil]
    · simp only [if_neg hdtbo, if_neg hdtb, List.foldl_append, List.foldl_cons, List.foldl_nil]

/-- A file goes into the digest when its size fits four bytes. -/
theorem updateSha_eq_ok (sha : Bytes) (file : Option Bytes) :
    (∃ bs, updateSha sha file = .ok bs) ↔ Fits 4 (filesize file) := by
  cases file with
  | none => simp [updateSha, pack, Fits, filesize, bind_eq_ok, pure, Except.pure]
  | some bs =>
      simp only [updateSha, bind_eq_ok, pack]
      by_cases hfit : Fits 4 (filesize (some bs))
      · simp [hfit, pure, Except.pure]
      · simp [hfit]

/-- The image id can be computed when every file's size fits a word. -/
theorem foldlM_updateSha {files : List (Option Bytes)}
    (h : ∀ file ∈ files, Fits 4 (filesize file)) (sha : Bytes) :
    ∃ bs, files.foldlM updateSha sha = .ok bs := by
  induction files generalizing sha with
  | nil => exact ⟨sha, rfl⟩
  | cons file files ih =>
      obtain ⟨hfit, hrest⟩ := List.forall_mem_cons.mp h
      obtain ⟨bs, hbs⟩ := (updateSha_eq_ok sha file).mpr hfit
      obtain ⟨bs', hbs'⟩ := ih hrest bs
      exact ⟨bs', by rw [List.foldlM_cons, hbs]; exact hbs'⟩

/-- The files of a legacy image do. -/
theorem Args.Legacy.hashedFiles {args : Args} (h : args.Legacy) :
    ∀ file ∈ args.hashedFiles, Fits 4 (filesize file) := by
  intro file hfile
  simp only [Args.hashedFiles, List.mem_append, List.mem_cons, List.not_mem_nil, or_false] at hfile
  rcases hfile with ((rfl | rfl | rfl) | hdtbo) | hdtb
  · exact h.words _ (by simp [Args.legacyWords])
  · exact h.words _ (by simp [Args.legacyWords])
  · exact h.words _ (by simp [Args.legacyWords])
  · split at hdtbo
    · rename_i hv
      obtain rfl := List.mem_singleton.mp hdtbo
      cases hfile : args.recoveryDtbo with
      | none => exact fits_natCast.mpr (by decide)
      | some bs =>
          have hfits := h.recoveryDtbo
          rw [Args.recoveryDtboFields, if_pos hv, hfile, if_pos Option.isSome_some] at hfits
          exact hfits (4, (filesize (some bs) : ℤ)) List.mem_cons_self
    · cases hdtbo
  · split at hdtb
    · rename_i hv
      obtain rfl := List.mem_singleton.mp hdtb
      have hfits := h.dtb
      rw [Args.dtbFields, if_pos hv] at hfits
      exact hfits (4, (filesize args.dtb : ℤ)) List.mem_cons_self
    · cases hdtb

/-- When a header of version 0, 1 or 2 is written, and what it is. -/
theorem writeHeader_legacy (hv : args.headerVersion ≤ 2) :
    writeHeader sha1 args = .ok header ↔
      args.Legacy ∧ ∃ sha, args.hashedFiles.foldlM updateSha [] = .ok sha ∧
        header = padFile (args.legacyHeader (packBytes 32 (sha1 sha))) args.pagesize := by
  rw [writeHeader, if_neg (by omega), if_neg (by omega)]
  constructor
  · intro h
    obtain ⟨head, hhead, h⟩ := bind_eq_ok.mp h
    obtain ⟨sha, hsha, h⟩ := bind_eq_ok.mp h
    obtain ⟨dtbo, hdtbo, h⟩ := bind_eq_ok.mp h
    obtain ⟨headerSize, hsize, h⟩ := bind_eq_ok.mp h
    split at h
    · cases h
    · rename_i hne
      obtain ⟨dtb, hdtb, h⟩ := bind_eq_ok.mp h
      cases h
      obtain ⟨hwords, rfl⟩ := packAll_eq_ok.mp hhead
      obtain ⟨hdtboFits, rfl⟩ := packAll_eq_ok.mp hdtbo
      obtain ⟨-, rfl⟩ := packAll_eq_ok.mp hsize
      obtain ⟨hdtbFits, rfl⟩ := packAll_eq_ok.mp hdtb
      exact ⟨⟨hv, forall_mem_words.mp hwords, hdtboFits, hdtbFits, hne⟩, sha, hsha, rfl⟩
  · rintro ⟨h, sha, hsha, rfl⟩
    rw [packAll_eq_ok.mpr ⟨forall_mem_words.mpr h.words, rfl⟩, ok_bind, hsha, ok_bind,
      packAll_eq_ok.mpr ⟨h.recoveryDtbo, rfl⟩, ok_bind,
      packAll_eq_ok.mpr ⟨headerSizeFields_fits args, rfl⟩, ok_bind, if_neg h.dtb_ne,
      packAll_eq_ok.mpr ⟨h.dtb, rfl⟩]
    rfl

/-- **The file of versions 0 to 2**: the header in its pages, then each file in its own. -/
theorem mkbootimg_legacy (hv : args.headerVersion ≤ 2) :
    mkbootimg sha1 avbtool args = .ok image ↔
      args.Legacy ∧ ∃ sha, args.hashedFiles.foldlM updateSha [] = .ok sha ∧
        image = padFile (args.legacyHeader (packBytes 32 (sha1 sha))) args.pagesize
          ++ padAll args.files args.pagesize := by
  have hp := pagesize_isPowerOfTwo args
  have hdata (header : Bytes) : writeData avbtool args (padFile header args.pagesize)
      args.pagesize = .ok (padFile header args.pagesize ++ padAll args.files args.pagesize) := by
    rw [writeData_eq hp (dvd_padFile_length hp), if_neg (by omega)]
  have hversion : ¬ args.headerVersion > 2 := by omega
  simp only [mkbootimg, hversion, and_false, if_false, bind_eq_ok]
  constructor
  · rintro ⟨header, hheader, h⟩
    obtain ⟨hlegacy, sha, hsha, rfl⟩ := (writeHeader_legacy hv).mp hheader
    rw [hdata] at h
    cases h
    exact ⟨hlegacy, sha, hsha, rfl⟩
  · rintro ⟨hlegacy, sha, hsha, rfl⟩
    exact ⟨_, (writeHeader_legacy hv).mpr ⟨hlegacy, sha, hsha, rfl⟩, hdata _⟩

/-- Versions 0 to 2 are written whenever the numbers fit. -/
theorem mkbootimg_legacy_isOk (sha1 : Bytes → Bytes)
    (avbtool : Args → Bytes → Except ToolError Bytes) (h : args.Legacy) :
    ∃ image, mkbootimg sha1 avbtool args = .ok image := by
  obtain ⟨sha, hsha⟩ := foldlM_updateSha h.hashedFiles []
  exact ⟨_, (mkbootimg_legacy h.version).mpr ⟨h, sha, hsha, rfl⟩⟩

/-! ### Versions 3 and 4 -/

/-- When a header of version 3 or 4 is written, and what it is. -/
theorem writeHeader_v3 (hv : args.headerVersion = 3 ∨ args.headerVersion = 4) :
    writeHeader sha1 args = .ok header ↔
      (∀ v ∈ args.v3Words, Fits 4 v) ∧
        header = padFile args.v3Header bootImageHeaderV3Pagesize := by
  rw [writeHeader, if_neg (by omega), if_pos hv, writeHeaderV3AndAbove]
  have hsignature : ∀ f ∈ words args.signatureWords, Fits f.1 f.2 := by
    refine forall_mem_words.mpr fun v hmem => ?_
    rw [Args.signatureWords] at hmem
    split at hmem
    · rw [List.mem_singleton.mp hmem]
      decide
    · cases hmem
  constructor
  · intro h
    obtain ⟨head, hhead, h⟩ := bind_eq_ok.mp h
    obtain ⟨signature, hsig, h⟩ := bind_eq_ok.mp h
    cases h
    obtain ⟨hwords, rfl⟩ := packAll_eq_ok.mp hhead
    obtain ⟨-, rfl⟩ := packAll_eq_ok.mp hsig
    exact ⟨forall_mem_words.mp hwords, rfl⟩
  · rintro ⟨hwords, rfl⟩
    rw [packAll_eq_ok.mpr ⟨forall_mem_words.mpr hwords, rfl⟩,
      packAll_eq_ok.mpr ⟨hsignature, rfl⟩]
    rfl

/-- The header from version 3 on fits its page. -/
theorem v3Header_length (args : Args) :
    44 ≤ args.v3Header.length ∧ args.v3Header.length ≤ bootImageHeaderV3Pagesize := by
  simp only [Args.v3Header, Args.signatureWords, List.length_append, encodeAll_length,
    packBytes_length]
  split <;> simp [bootMagic, words, Args.v3Words, bootArgsSize, bootExtraArgsSize,
    bootImageHeaderV3Pagesize]

/-- A header of version 3 or 4 fills one page. -/
theorem v3Page_length (args : Args) :
    (padFile args.v3Header bootImageHeaderV3Pagesize).length = bootImageHeaderV3Pagesize := by
  obtain ⟨hlo, hhi⟩ := v3Header_length args
  have hpages : getNumberOfPages args.v3Header.length bootImageHeaderV3Pagesize = 1 := by
    rw [getNumberOfPages]
    rw [bootImageHeaderV3Pagesize] at hhi ⊢
    omega
  rw [padFile_length v3Pagesize_isPowerOfTwo, hpages, Nat.mul_one]

/-- The signature is appended. -/
theorem addBootImageSignature_eq_append
    (h : addBootImageSignature avbtool args out p = .ok image) : ∃ rest, image = out ++ rest := by
  rw [addBootImageSignature] at h
  split at h
  · cases h
    exact ⟨_, List.append_assoc _ _ _⟩
  · obtain ⟨bootSignature, -, h⟩ := bind_eq_ok.mp h
    split at h
    · cases h
    · cases h
      exact ⟨_, List.append_assoc _ _ _⟩

/-- **The file of versions 3 and 4** starts with the header page and the files' pages. -/
theorem mkbootimg_v3 (hv : args.headerVersion > 2)
    (h : mkbootimg sha1 avbtool args = .ok image) :
    (args.headerVersion = 3 ∨ args.headerVersion = 4) ∧ (∀ v ∈ args.v3Words, Fits 4 v) ∧
      ∃ rest, image = padFile args.v3Header bootImageHeaderV3Pagesize
        ++ padAll args.files bootImageHeaderV3Pagesize ++ rest := by
  simp only [mkbootimg, if_pos hv] at h
  split at h
  · cases h
  · obtain ⟨header, hheader, h⟩ := bind_eq_ok.mp h
    have hversion : args.headerVersion = 3 ∨ args.headerVersion = 4 := by
      by_contra hne
      rw [writeHeader, if_pos (by omega)] at hheader
      cases hheader
    obtain ⟨hwords, rfl⟩ := (writeHeader_v3 hversion).mp hheader
    refine ⟨hversion, hwords, ?_⟩
    rw [writeData_eq v3Pagesize_isPowerOfTwo (dvd_padFile_length v3Pagesize_isPowerOfTwo)] at h
    split at h
    · exact addBootImageSignature_eq_append h
    · cases h
      exact ⟨[], (List.append_nil _).symm⟩

/-- Version 3 is written whenever the numbers fit and no second stage is given. -/
theorem mkbootimg_v3_isOk (hv : args.headerVersion = 3) (hsecond : args.second = none)
    (hwords : ∀ v ∈ args.v3Words, Fits 4 v) : ∃ image, mkbootimg sha1 avbtool args = .ok image := by
  refine ⟨padFile args.v3Header bootImageHeaderV3Pagesize
    ++ padAll args.files bootImageHeaderV3Pagesize, ?_⟩
  rw [mkbootimg, if_neg (by simp [hsecond]), (writeHeader_v3 (.inl hv)).mpr ⟨hwords, rfl⟩, ok_bind,
    if_pos (by omega), writeData_eq v3Pagesize_isPowerOfTwo
    (dvd_padFile_length v3Pagesize_isPowerOfTwo), if_neg (by omega)]

end

end BootImage

end Msm8998
