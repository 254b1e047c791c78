import Msm8998.Mkbootimg

/-!
# Taking the Kernel out of a Boot Image

This module models `read_header` and `extract_kernel` of `remux-boot-image.py`. The reader
knows one header layout, that of versions 0 to 2. In versions 3 and 4 the place of its page
size is a reserved word, always zero, and the tool copies the start of the file.

## Main results

* `extractKernel_legacy`: versions 0 to 2 give the kernel back;
* `extractKernel_v3`: versions 3 and 4 give the start of the file;
* `extractKernel_mkbootimg`: when no other bytes than the kernel's are ever returned.
-/

open Fallible LittleEndian

namespace Msm8998

namespace BootImage

open Fdt (Bytes)

/-- `HEADER_FIELDS`. -/
structure Header where
  kernelSize : ℕ
  kernelAddr : ℕ
  ramdiskSize : ℕ
  ramdiskAddr : ℕ
  secondSize : ℕ
  secondAddr : ℕ
  tagsAddr : ℕ
  pageSize : ℕ
  headerVersion : ℕ
  osVersion : ℕ
deriving Repr, DecidableEq

/-- The fields in the order in which they are stored. -/
def Header.fields (header : Header) : List ℕ :=
  [header.kernelSize, header.kernelAddr, header.ramdiskSize, header.ramdiskAddr,
    header.secondSize, header.secondAddr, header.tagsAddr, header.pageSize, header.headerVersion,
    header.osVersion]

/-- `struct.unpack_from("<10I", data, 8)`. -/
def unpackHeader (data : Bytes) : Except ToolError Header :=
  match readWords 4 10 data 8 with
  | some [kernelSize, kernelAddr, ramdiskSize, ramdiskAddr, secondSize, secondAddr, tagsAddr,
      pageSize, headerVersion, osVersion] =>
      .ok { kernelSize, kernelAddr, ramdiskSize, ramdiskAddr, secondSize, secondAddr, tagsAddr,
            pageSize, headerVersion, osVersion }
  | _ => .error .structError

/-- `read_header`. -/
def readHeader (path : String) (image : Bytes) : Except ToolError Header :=
  let head := image.take 48
  if head.take 8 ≠ bootMagic then
    .error (.systemExit (path ++ ": no ANDROID! magic"))
  else unpackHeader head

/-- `extract_kernel`: the payload it writes out, and the header. -/
def extractKernel (path : String) (image : Bytes) : Except ToolError (Bytes × Header) := do
  let header ← readHeader path image
  let payload := (image.drop header.pageSize).take header.kernelSize
  if payload.length ≠ header.kernelSize then
    .error (.systemExit (path ++ ": truncated kernel payload"))
  else
    return (payload, header)

/-! ### Reading what was written -/

variable {image : Bytes} {args : Args}

/-- The magic has eight bytes. -/
theorem bootMagic_length : bootMagic.length = 8 := rfl

/-- The header is unpacked when its ten words can be read. -/
theorem unpackHeader_eq_ok {data : Bytes} {header : Header} :
    unpackHeader data = .ok header ↔ readWords 4 10 data 8 = some header.fields := by
  rw [unpackHeader]
  constructor
  · intro h
    split at h
    · rename_i hread
      cases h
      exact hread
    · cases h
  · intro h
    rw [h]
    rfl

/-- Ten words after the magic are the header, in the whole file and in its first 48 bytes. -/
theorem unpackHeader_of_fields {header : Header} {rest : Bytes}
    (himage : image = bootMagic ++ header.fields.flatMap (split 4) ++ rest)
    (hlt : ∀ n ∈ header.fields, n < 256 ^ 4) :
    image.take 8 = bootMagic ∧ unpackHeader image = .ok header ∧
      ∀ path, readHeader path image = .ok header := by
  have hread (rest : Bytes) :
      unpackHeader (bootMagic ++ header.fields.flatMap (split 4) ++ rest) = .ok header := by
    refine unpackHeader_eq_ok.mpr ((readWords_eq_some (by omega)).mpr ⟨rfl, hlt, rest, ?_⟩)
    rw [List.append_assoc, List.drop_left' bootMagic_length]
  have htake : image.take 48 = bootMagic ++ header.fields.flatMap (split 4) ++ [] := by
    rw [himage, List.append_nil]
    apply List.take_left'
    rw [List.length_append, flatMap_split_length]
    rfl
  refine ⟨?_, himage ▸ hread rest, fun path => ?_⟩
  · rw [himage, List.append_assoc, List.take_left' bootMagic_length]
  · have hmagic : (image.take 48).take 8 = bootMagic := by
      rw [htake, List.append_assoc, List.take_left' bootMagic_length]
    rw [readHeader, if_neg (not_not.mpr hmagic), htake, hread]

/-- The header of an image of version 0, 1 or 2. -/
def Args.legacyFields (args : Args) : Header where
  kernelSize := filesize args.kernel
  kernelAddr := (args.base + args.kernelOffset).toNat
  ramdiskSize := filesize args.ramdisk
  ramdiskAddr := args.ramdiskLoadAddress.toNat
  secondSize := filesize args.second
  secondAddr := args.secondLoadAddress.toNat
  tagsAddr := (args.base + args.tagsOffset).toNat
  pageSize := args.pagesize
  headerVersion := args.headerVersion.toNat
  osVersion := args.osWord

/-- The words of a version 0, 1 or 2 header stand after the magic. -/
theorem legacyHeader_eq (args : Args) (imgId : Bytes) :
    ∃ rest, args.legacyHeader imgId =
      bootMagic ++ (args.legacyWords.map Int.toNat).flatMap (split 4) ++ rest := by
  refine ⟨packBytes bootNameSize args.board ++ packBytes bootArgsSize args.cmdline ++ imgId
    ++ packBytes bootExtraArgsSize args.extraCmdline ++ encodeAll args.recoveryDtboFields
    ++ encodeAll args.headerSizeFields ++ encodeAll args.dtbFields, ?_⟩
  simp only [Args.legacyHeader, Args.legacyFront, encodeAll_words, List.append_assoc]

/-- The fields about the recovery image have 12 bytes from version 1 on. -/
theorem recoveryDtboFields_length (args : Args) :
    (encodeAll args.recoveryDtboFields).length = if args.headerVersion > 0 then 12 else 0 := by
  rw [encodeAll_length, Args.recoveryDtboFields]
  split
  · split <;> rfl
  · rfl

/-- The header size has four bytes in versions 1 and 2. -/
theorem headerSizeFields_length (args : Args) :
    (encodeAll args.headerSizeFields).length =
      if args.headerVersion = 1 ∨ args.headerVersion = 2 then 4 else 0 := by
  rw [encodeAll_length, Args.headerSizeFields]
  by_cases h1 : args.headerVersion = 1
  · rw [if_pos h1, if_pos (.inl h1)]
    rfl
  · by_cases h2 : args.headerVersion = 2
    · rw [if_neg h1, if_pos h2, if_pos (.inr h2)]
      rfl
    · rw [if_neg h1, if_neg h2, if_neg (not_or.mpr ⟨h1, h2⟩)]
      rfl

/-- The fields about the device tree have 12 bytes from version 2 on. -/
theorem dtbFields_length (args : Args) :
    (encodeAll args.dtbFields).length = if args.headerVersion > 1 then 12 else 0 := by
  rw [encodeAll_length, Args.dtbFields]
  split <;> rfl

/-- The header is as long as its fields. -/
theorem legacyHeader_length (args : Args) {imgId : Bytes} (hid : imgId.length = 32) :
    (args.legacyHeader imgId).length = 1632 + (encodeAll args.recoveryDtboFields).length
      + (encodeAll args.headerSizeFields).length + (encodeAll args.dtbFields).length := by
  simp only [Args.legacyHeader, List.length_append, legacyFront_length args hid]

/-- A header of version 0, 1 or 2 fills one page. -/
theorem legacyPage_length (args : Args) {imgId : Bytes} (hid : imgId.length = 32) :
    (padFile (args.legacyHeader imgId) args.pagesize).length = args.pagesize := by
  have hlen : 0 < (args.legacyHeader imgId).length ∧ (args.legacyHeader imgId).length ≤ 1660 := by
    rw [legacyHeader_length args hid, recoveryDtboFields_length, headerSizeFields_length,
      dtbFields_length]
    grind
  have hpage := le_pagesize args
  have hpages : getNumberOfPages (args.legacyHeader imgId).length args.pagesize = 1 := by
    rw [getNumberOfPages]
    apply Nat.div_eq_of_lt_le <;> omega
  rw [padFile_length (pagesize_isPowerOfTwo args), hpages, Nat.mul_one]

/-- The kernel is extracted if the header can be read and the data are long enough. -/
theorem extractKernel_eq_ok {path : String} {header : Header} {payload : Bytes}
    (hheader : readHeader path image = .ok header)
    (hpayload : (image.drop header.pageSize).take header.kernelSize = payload)
    (hlen : payload.length = header.kernelSize) :
    extractKernel path image = .ok (payload, header) := by
  rw [extractKernel, hheader, ok_bind, hpayload]
  exact if_neg (not_not.mpr hlen)

section

variable {sha1 : Bytes → Bytes} {avbtool : Args → Bytes → Except ToolError Bytes}

/-- The ten fields of versions 0 to 2 are the numbers the writer put there. -/
theorem unpackHeader_legacy (hv : args.headerVersion ≤ 2)
    (h : mkbootimg sha1 avbtool args = .ok image) :
    image.take 8 = bootMagic ∧ unpackHeader image = .ok args.legacyFields ∧
      ∀ path, readHeader path image = .ok args.legacyFields := by
  obtain ⟨hlegacy, sha, -, himage⟩ := (mkbootimg_legacy hv).mp h
  obtain ⟨rest, hrest⟩ := legacyHeader_eq args (packBytes 32 (sha1 sha))
  have hfields : args.legacyWords.map Int.toNat = args.legacyFields.fields := rfl
  have hlt : ∀ n ∈ args.legacyFields.fields, n < 256 ^ 4 := by
    intro n hn
    rw [← hfields] at hn
    obtain ⟨v, hv, rfl⟩ := List.mem_map.mp hn
    exact (hlegacy.words v hv).2
  rw [hrest, hfields, padFile, List.append_assoc, List.append_assoc] at himage
  exact unpackHeader_of_fields himage hlt

/-- The header of a written image is read back. -/
theorem readHeader_legacy (path : String) (hv : args.headerVersion ≤ 2)
    (h : mkbootimg sha1 avbtool args = .ok image) :
    readHeader path image = .ok args.legacyFields :=
  (unpackHeader_legacy hv h).2.2 path

/-- **Versions 0 to 2** give the kernel back. -/
theorem extractKernel_legacy (path : String) (hv : args.headerVersion ≤ 2)
    (h : mkbootimg sha1 avbtool args = .ok image) :
    extractKernel path image = .ok (args.kernel.getD [], args.legacyFields) := by
  refine extractKernel_eq_ok (readHeader_legacy path hv h) ?_ (filesize_eq args.kernel).symm
  obtain ⟨hlegacy, sha, -, rfl⟩ := (mkbootimg_legacy hv).mp h
  have hpage := legacyPage_length args (packBytes_length 32 (sha1 sha))
  simp only [Args.legacyFields, filesize_eq]
  rw [List.drop_left' hpage, Args.files, List.cons_append, List.cons_append, padAll_cons,
    padFile, List.append_assoc, List.take_left' rfl]

/-- The first nine words of a version 3 or 4 header, and the start of its command line. -/
theorem v3Header_eq (args : Args) :
    ∃ (w : ℕ) (rest : Bytes), w < 256 ^ 4 ∧ args.v3Header =
      bootMagic ++ (args.v3Words.map Int.toNat ++ [w]).flatMap (split 4) ++ rest := by
  have hlen : ((packBytes (bootArgsSize + bootExtraArgsSize) args.cmdline).take 4).length = 4 := by
    rw [List.length_take, packBytes_length]
    rfl
  have hlt := combine_lt ((packBytes (bootArgsSize + bootExtraArgsSize) args.cmdline).take 4)
  have hsplit := split_combine ((packBytes (bootArgsSize + bootExtraArgsSize) args.cmdline).take 4)
  rw [hlen] at hlt hsplit
  refine ⟨_, (packBytes (bootArgsSize + bootExtraArgsSize) args.cmdline).drop 4
    ++ encodeAll (words args.signatureWords), hlt, ?_⟩
  rw [List.flatMap_append, List.flatMap_singleton, hsplit, Args.v3Header, encodeAll_words]
  simp only [List.append_assoc]
  rw [← List.append_assoc (List.take 4 _), List.take_append_drop]

/-- What the ten fields are in a version 3 or 4 header with `w` after its nine words. -/
def Args.v3Fields (args : Args) (w : ℕ) : Header where
  kernelSize := filesize args.kernel
  kernelAddr := filesize args.ramdisk
  ramdiskSize := args.osWord
  ramdiskAddr :=
    if args.headerVersion > 3 then bootImageHeaderV4Size else bootImageHeaderV3Size
  secondSize := 0
  secondAddr := 0
  tagsAddr := 0
  pageSize := 0
  headerVersion := args.headerVersion.toNat
  osVersion := w

/-- The ten fields that are read from versions 3 and 4. -/
theorem unpackHeader_v3 (hv : args.headerVersion > 2)
    (h : mkbootimg sha1 avbtool args = .ok image) :
    ∃ w, image.take 8 = bootMagic ∧ unpackHeader image = .ok (args.v3Fields w) ∧
      ∀ path, readHeader path image = .ok (args.v3Fields w) := by
  obtain ⟨-, hwords, rest, himage⟩ := mkbootimg_v3 hv h
  obtain ⟨w, rest', hw, hheader⟩ := v3Header_eq args
  have hsize : (if args.headerVersion > 3 then (bootImageHeaderV4Size : ℤ)
      else bootImageHeaderV3Size).toNat = (args.v3Fields w).ramdiskAddr := by
    rw [Args.v3Fields]
    split <;> rfl
  have hfields : args.v3Words.map Int.toNat ++ [w] = (args.v3Fields w).fields := by
    rw [Args.v3Words]
    simp only [List.map_cons, hsize]
    rfl
  have hlt : ∀ n ∈ (args.v3Fields w).fields, n < 256 ^ 4 := by
    intro n hn
    rw [← hfields] at hn
    rcases List.mem_append.mp hn with hn | hn
    · obtain ⟨v, hv, rfl⟩ := List.mem_map.mp hn
      exact (hwords v hv).2
    · rw [List.mem_singleton.mp hn]
      exact hw
  rw [hheader, hfields, padFile, List.append_assoc, List.append_assoc, List.append_assoc] at himage
  exact ⟨w, unpackHeader_of_fields himage hlt⟩

/-- **Versions 3 and 4** give the start of the file. -/
theorem extractKernel_v3 (path : String) (hv : args.headerVersion > 2)
    (h : mkbootimg sha1 avbtool args = .ok image) :
    ∃ header, extractKernel path image = .ok (image.take (filesize args.kernel), header) := by
  obtain ⟨w, -, -, hheader⟩ := unpackHeader_v3 hv h
  obtain ⟨-, -, rest, himage⟩ := mkbootimg_v3 hv h
  have hsize : filesize args.kernel ≤ image.length := by
    rw [himage, Args.files, List.cons_append, List.cons_append, padAll_cons, filesize_eq]
    simp only [padFile, List.length_append]
    omega
  refine ⟨_, extractKernel_eq_ok (hheader path) rfl ?_⟩
  rw [List.length_take]
  exact Nat.min_eq_left hsize

end

/-! ### When the kernel comes out -/

/-- **Extraction.** From an image that `mkbootimg.py` wrote, no other bytes than the kernel's
are returned exactly when the header version is at most 2 or the kernel happens to begin as
the header page and itself do. -/
theorem extractKernel_mkbootimg (sha1 : Bytes → Bytes)
    (avbtool : Args → Bytes → Except ToolError Bytes) (args : Args) (path : String)
    (image : Bytes) (h : mkbootimg sha1 avbtool args = .ok image) :
    (∀ payload header, extractKernel path image = .ok (payload, header) →
      payload = args.kernel.getD []) ↔
    args.headerVersion ≤ 2 ∨
      args.kernel.getD [] <+: padFile args.v3Header bootImageHeaderV3Pagesize
        ++ args.kernel.getD [] := by
  by_cases hv : args.headerVersion ≤ 2
  · have hextract := extractKernel_legacy path hv h
    refine iff_of_true ?_ (.inl hv)
    intro payload header hok
    rw [hextract] at hok
    cases hok
    rfl
  · obtain ⟨header, hextract⟩ := extractKernel_v3 path (by omega) h
    obtain ⟨-, -, rest, himage⟩ := mkbootimg_v3 (by omega) h
    obtain ⟨zeros, hzeros⟩ :=
      padFile_eq_append (args.kernel.getD []) bootImageHeaderV3Pagesize
    have hstart : image = padFile args.v3Header bootImageHeaderV3Pagesize ++ args.kernel.getD []
        ++ (zeros ++ (padAll args.files.tail bootImageHeaderV3Pagesize ++ rest)) := by
      rw [himage, Args.files, List.cons_append, List.cons_append, padAll_cons, hzeros]
      simp only [List.append_assoc, List.tail_cons]
    have htake : image.take (filesize args.kernel) =
        (padFile args.v3Header bootImageHeaderV3Pagesize ++ args.kernel.getD []).take
          (filesize args.kernel) := by
      rw [hstart]
      apply List.take_append_of_le_length
      rw [List.length_append, filesize_eq]
      omega
    rw [or_iff_right hv, List.prefix_iff_eq_take, ← filesize_eq, ← htake]
    constructor
    · intro hall
      exact (hall _ header hextract).symm
    · intro heq payload header' hok
      rw [hextract] at hok
      cases hok
      exact heq.symm

/-- A version 3 image with a kernel of one byte. -/
def v3Args : Args := { kernel := some [0x1f], headerVersion := 3 }

/-- That image is written. -/
theorem v3Args_isOk : ∃ image,
    mkbootimg (fun _ => []) (fun _ _ => .error .calledProcessError) v3Args = .ok image :=
  mkbootimg_v3_isOk rfl rfl (by decide)

/-- The criterion at that image. -/
theorem extractKernel_mkbootimg_v3Args : ∃ image,
    ((∀ payload header, extractKernel "boot.img" image = .ok (payload, header) →
      payload = v3Args.kernel.getD []) ↔
    v3Args.headerVersion ≤ 2 ∨
      v3Args.kernel.getD [] <+: padFile v3Args.v3Header bootImageHeaderV3Pagesize
        ++ v3Args.kernel.getD []) := by
  obtain ⟨image, himage⟩ := v3Args_isOk
  exact ⟨image, extractKernel_mkbootimg _ _ v3Args "boot.img" image himage⟩

/-- From that image comes the letter "A", the first of the magic. -/
theorem extractKernel_v3Args : ∃ image header,
    mkbootimg (fun _ => []) (fun _ _ => .error .calledProcessError) v3Args = .ok image ∧
      extractKernel "boot.img" image = .ok ([65], header) ∧ v3Args.kernel = some [0x1f] := by
  obtain ⟨image, himage⟩ := v3Args_isOk
  obtain ⟨header, hextract⟩ := extractKernel_v3 "boot.img" (by decide) himage
  obtain ⟨-, -, rest, hbytes⟩ := mkbootimg_v3 (by decide) himage
  refine ⟨image, header, himage, ?_, rfl⟩
  rw [hextract, hbytes]
  rfl

end BootImage

end Msm8998
