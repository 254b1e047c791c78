import Msm8998.AppendedDtb
import Msm8998.FdtRoundTrip
import Msm8998.RemuxVariants
import Msm8998.ScanComplete

/-!
# Device Trees Carried through the Tools

This module adds the files that `scan-boot-image.py` writes with an output directory, and the
run of `remux-boot-image.py` that replaces the device tree behind the kernel, and follows a
device tree from the build through both to the two parsers.

A scan may fail at a table that is none, before it comes to the device trees; the results are
about scans that return. The hint that is printed beside each device tree is left out.

## Main results

* `scanInto_exact`: which files a scan writes, on every image;
* `remuxDtb_delivers`: the tree that is put into an image is the one that comes out of it.
-/

open Fallible Occurrences OrderedDict

namespace Msm8998

namespace BootImage

open Fdt (Bytes Str slice)

/-! ### The files of a scan -/

/-- The name of an output file; `base` is the name of the image without its extension. -/
def dtbName (base : Str) (index : ℕ) : Str :=
  base ++ "-dtb".toList ++ pyDecimal index ++ ".dtb".toList

/-- What `main` writes for the device trees it found: `data[offset:offset + size]` of each. -/
def carve (base : Str) (data : Bytes) (fdts : List (ℕ × ℕ × ℕ)) : List (Str × Bytes) :=
  fdts.zipIdx.map fun f => (dtbName base f.2, slice data f.1.1 (f.1.1 + f.1.2.1))

/-- `main` of `scan-boot-image.py` with `--outdir`. -/
def scanInto (base : Str) (data : Bytes) : Except ToolError (ScanReport × List (Str × Bytes)) := do
  let report ← scan data
  return (report, carve base data report.fdts)

variable {data front back dtb : Bytes} {base : Str} {fdts : List (ℕ × ℕ × ℕ)}

/-- Numbers are printed differently. -/
theorem pyDecimal_injective : Function.Injective pyDecimal := by
  intro m n h
  rw [← Nat.ofDigitChars_ten_toDigits (n := m), ← Nat.ofDigitChars_ten_toDigits (n := n)]
  exact congrArg (fun ds => Nat.ofDigitChars 10 ds 0) h

/-- Trees at different offsets get files of different names. -/
theorem dtbName_injective (base : Str) : Function.Injective (dtbName base) := by
  intro m n h
  rw [dtbName, dtbName] at h
  exact pyDecimal_injective (List.append_cancel_left (List.append_cancel_right h))

/-- No file takes the place of another. -/
theorem carve_names_nodup (base : Str) (data : Bytes) (fdts : List (ℕ × ℕ × ℕ)) :
    ((carve base data fdts).map Prod.fst).Nodup := by
  rw [carve, List.map_map]
  have hnames : Prod.fst ∘ (fun f : (ℕ × ℕ × ℕ) × ℕ =>
      (dtbName base f.2, slice data f.1.1 (f.1.1 + f.1.2.1))) = dtbName base ∘ Prod.snd := rfl
  rw [hnames, ← List.map_map, List.zipIdx_map_snd]
  exact (List.nodup_range' ..).map (dtbName_injective base)

/-- What the files hold, one after the other. -/
theorem carve_contents (base : Str) (data : Bytes) (fdts : List (ℕ × ℕ × ℕ)) :
    (carve base data fdts).map Prod.snd = fdts.map fun f => slice data f.1 (f.1 + f.2.1) := by
  rw [carve, List.map_map]
  have hcontents : Prod.snd ∘ (fun f : (ℕ × ℕ × ℕ) × ℕ =>
      (dtbName base f.2, slice data f.1.1 (f.1.1 + f.1.2.1))) =
      (fun f : ℕ × ℕ × ℕ => slice data f.1 (f.1 + f.2.1)) ∘ Prod.fst := rfl
  rw [hcontents, ← List.map_map, List.zipIdx_map_fst]

/-! ### What is carved -/

/-- A word can be read in any beginning of the data that holds it. -/
theorem wordAt_take {n pos w : ℕ} (h : Fdt.wordAt data pos = .ok w) (hn : pos + 4 ≤ n) :
    Fdt.wordAt (data.take n) pos = .ok w := by
  obtain ⟨k, rfl⟩ := Nat.exists_eq_add_of_le hn
  rw [Fdt.wordAt] at h ⊢
  rw [List.drop_take, show pos + 4 + k - pos = k + 4 by omega]
  rcases hdrop : data.drop pos with _ | ⟨a, _ | ⟨b, _ | ⟨c, _ | ⟨d, rest⟩⟩⟩⟩ <;> rw [hdrop] at h
  -- fewer than four bytes are left in the first four cases, where the reading failed
  · cases h
  · cases h
  · cases h
  · cases h
  · exact h

/-- A carved file begins with the magic number and has the size it says. -/
theorem isDtb_slice {pos totalsize version : ℕ} (hocc : OccursAt fdtMagicBytes data pos)
    (h : FdtHeaderAt data pos totalsize version) :
    IsDtb (slice data pos (pos + totalsize)) := by
  have hinside := h.inside
  have hle := h.le_totalsize
  have hslice : slice data pos (pos + totalsize) = (data.drop pos).take totalsize := by
    rw [slice, Nat.add_sub_cancel_left]
  rw [hslice, IsDtb]
  constructor
  · rw [OccursAt, List.drop_zero]
    exact List.prefix_take_iff.mpr ⟨hocc, by rw [show fdtMagicBytes.length = 4 from rfl]; omega⟩
  · have hword : Fdt.wordAt (data.drop pos) 4 = .ok totalsize := by
      rw [Fdt.wordAt, List.drop_drop]
      exact h.totalsize_eq
    rw [wordAt_take hword (by omega), List.length_take, List.length_drop, Nat.min_eq_left (by omega)]

/-- The header of a serialisation passes the test of a scan, wherever it stands. -/
theorem fdtHeaderAt_of_serialises {tree : Fdt.DeviceTree} (h : Fdt.Serialises tree dtb)
    (front back : Bytes) :
    OccursAt fdtMagicBytes (front ++ dtb ++ back) front.length ∧
      FdtHeaderAt (front ++ dtb ++ back) front.length dtb.length 17 := by
  obtain ⟨header, tokens, strings, hs⟩ := h
  obtain ⟨rest, hrest⟩ := hs.headerBlock
  have hsmall := hs.small.1
  rw [hs.totalsize] at hsmall
  have hword (k : ℕ) : Fdt.wordAt (front ++ dtb ++ back) (front.length + k) =
      Fdt.wordAt (header.bytes ++ (rest ++ back)) k := by
    rw [← hrest, List.append_assoc, List.append_assoc, wordAt_append_left]
  have hlen : 40 ≤ dtb.length := by
    rw [← hrest, List.length_append]
    exact Nat.le_add_right 40 _
  refine ⟨?_, ?_, ?_, ?_, ⟨16, ?_, by omega⟩, hlen, ?_⟩
  · have hocc : OccursAt fdtMagicBytes (header.bytes ++ (rest ++ back)) 0 := by
      rw [Fdt.Header.bytes, hs.magic]
      exact ⟨_, rfl⟩
    rw [← hrest, List.append_assoc, List.append_assoc, ← Nat.add_zero front.length]
    exact (occursAt_append_left_iff front).mpr hocc
  · rw [List.length_append, List.length_append]
    omega
  · rw [hword, ← hs.totalsize]
    exact Fdt.wordAt_word (hs.totalsize ▸ hsmall) rfl
  · rw [hword, ← hs.version]
    exact Fdt.wordAt_word (by rw [hs.version]; omega) rfl
  · rw [hword, ← hs.lastcomp]
    exact Fdt.wordAt_word (by rw [hs.lastcomp]; omega) rfl
  · rw [List.length_append, List.length_append]
    omega

/-- The report of a scan lists what the search finds. -/
theorem findFdts_of_scan {report : ScanReport} (h : scan data = .ok report) :
    findFdts data = .ok report.fdts := by
  obtain ⟨header, -, h⟩ := bind_eq_ok.mp h
  obtain ⟨qcdt, -, h⟩ := bind_eq_ok.mp h
  obtain ⟨tables, -, h⟩ := bind_eq_ok.mp h
  obtain ⟨listed, -, h⟩ := bind_eq_ok.mp h
  obtain ⟨fdts, hfdts, h⟩ := bind_eq_ok.mp h
  cases h
  exact hfdts

/-- The headers of device trees in a file, each with its total size and version, in the order in
which they stand there. -/
structure HeadersOf (data : Bytes) (headers : List (ℕ × ℕ × ℕ)) : Prop where
  increasing : (headers.map Prod.fst).Pairwise (· < ·)
  mem_iff : ∀ pos totalsize version, (pos, totalsize, version) ∈ headers ↔
    OccursAt fdtMagicBytes data pos ∧ FdtHeaderAt data pos totalsize version

/-- The files hold what stands at the headers, one after the other. -/
theorem scanInto_contents {report : ScanReport} {files : List (Str × Bytes)}
    (h : scanInto base data = .ok (report, files)) :
    ∃ headers, HeadersOf data headers ∧
      files.map Prod.snd = headers.map fun f => slice data f.1 (f.1 + f.2.1) := by
  obtain ⟨report', hscan, h⟩ := bind_eq_ok.mp h
  cases h
  have hfdts := findFdts_of_scan hscan
  exact ⟨_, ⟨findFdts_pairwise hfdts, mem_findFdts hfdts⟩, carve_contents _ _ _⟩

/-- A serialisation in the image is written as it is. -/
theorem mem_scanInto_of_serialises {report : ScanReport} {files : List (Str × Bytes)}
    (h : scanInto base (front ++ dtb ++ back) = .ok (report, files)) {tree : Fdt.DeviceTree}
    (hs : Fdt.Serialises tree dtb) : ∃ name, (name, dtb) ∈ files := by
  obtain ⟨headers, hheaders, hcontents⟩ := scanInto_contents h
  have hmem := (hheaders.mem_iff _ _ _).mpr (fdtHeaderAt_of_serialises hs front back)
  have hslice : slice (front ++ dtb ++ back) front.length (front.length + dtb.length) = dtb := by
    rw [slice, Nat.add_sub_cancel_left, List.append_assoc, List.drop_left, List.take_left]
  have hdtb : dtb ∈ files.map Prod.snd := by
    rw [hcontents]
    exact List.mem_map.mpr ⟨_, hmem, hslice⟩
  obtain ⟨⟨name, contents⟩, hfile, rfl⟩ := List.mem_map.mp hdtb
  exact ⟨name, hfile⟩

/-- **The files of a scan.** Whatever the image, a scan that returns writes exactly one file for
each device tree header in it, in the order of the headers and under a name of its own, which
holds what stands at the header; it begins with the magic number and has the size it says. Every
serialisation of a tree in the image is written as it is. -/
theorem scanInto_exact {report : ScanReport} {files : List (Str × Bytes)}
    (h : scanInto base data = .ok (report, files)) :
    (files.map Prod.fst).Nodup ∧
      (∃ headers, HeadersOf data headers ∧
        files.map Prod.snd = headers.map fun f => slice data f.1 (f.1 + f.2.1)) ∧
      (∀ file ∈ files, IsDtb file.2) ∧
      ∀ front dtb back tree, data = front ++ dtb ++ back → Fdt.Serialises tree dtb →
        ∃ name, (name, dtb) ∈ files := by
  refine ⟨?_, scanInto_contents h, fun file hmem => ?_, ?_⟩
  · obtain ⟨report', -, heq⟩ := bind_eq_ok.mp h
    cases heq
    exact carve_names_nodup _ _ _
  · obtain ⟨headers, hheaders, hcontents⟩ := scanInto_contents h
    have hcontent : file.2 ∈ files.map Prod.snd := List.mem_map_of_mem hmem
    rw [hcontents] at hcontent
    obtain ⟨⟨pos, totalsize, version⟩, hin, heq⟩ := List.mem_map.mp hcontent
    obtain ⟨hocc, hheader⟩ := (hheaders.mem_iff _ _ _).mp hin
    rw [← heq]
    exact isDtb_slice hocc hheader
  · rintro front dtb back tree rfl hs
    exact mem_scanInto_of_serialises h hs

/-- An image with the two nodes between two bytes. -/
def twoNodesImage : Bytes := [7] ++ Fdt.twoNodesFile ++ [8]

/-- The scan of the image ends without an error. -/
theorem scanInto_twoNodesImage : (scanInto [] twoNodesImage).isOk = true := by
  decide +kernel

/-- The files that are carved out of it. -/
theorem scanInto_exact_twoNodes : ∃ report files,
    scanInto [] twoNodesImage = .ok (report, files) ∧ (files.map Prod.fst).Nodup ∧
      (∃ headers, HeadersOf twoNodesImage headers ∧
        files.map Prod.snd = headers.map fun f => slice twoNodesImage f.1 (f.1 + f.2.1)) ∧
      (∀ file ∈ files, IsDtb file.2) ∧
      ∀ front dtb back tree, twoNodesImage = front ++ dtb ++ back → Fdt.Serialises tree dtb →
        ∃ name, (name, dtb) ∈ files := by
  have hok := scanInto_twoNodesImage
  cases hscan : scanInto [] twoNodesImage with
  | error e =>
      rw [hscan] at hok
      cases hok
  | ok r => exact ⟨r.1, r.2, rfl, scanInto_exact hscan⟩

/-! ### From the build to the parsers -/

section Delivery

variable (unicodeDigit : Char → Option (Fin 10)) (sha1 : Bytes → Bytes)
  (avbtool : Args → Bytes → Except ToolError Bytes)

/-- `main` of `remux-boot-image.py` with `--dtb`. -/
def remuxDtb (outPath : Variant → String) (path dtb : String) (image replacement : Bytes)
    (requested : List Variant) : RemuxResult :=
  match extractKernel path image with
  | .error e => ⟨[], some e⟩
  | .ok (payload, header) =>
      match swapDtb dtb payload replacement with
      | .error e => ⟨[], some e⟩
      | .ok payload =>
          writeVariants unicodeDigit sha1 avbtool outPath payload header requested

end Delivery

/-- Both parsers read a file, and what they return are the properties of the tree. -/
def Shows (tree : Fdt.DeviceTree) (data : Bytes) : Prop :=
  (∃ i, Fdt.inspectParse data = .ok i ∧ i.props.entries = tree.bindings) ∧
    ∃ c, Fdt.compareParse data = .ok c ∧
      c.props = setAll Dict.empty ((tree.root.records []).map Fdt.Record.keyed)

/-- A serialisation shows its tree. -/
theorem shows_of_serialises {tree : Fdt.DeviceTree} (h : Fdt.Serialises tree dtb) :
    Shows tree dtb := by
  obtain ⟨header, toks, hreads, hknown, -⟩ := Fdt.reads_of_serialises h
  refine ⟨⟨_, (Fdt.inspectParse_ok_iff dtb _).mpr ⟨header, toks, _, hreads, hknown, rfl⟩, ?_⟩,
    _, (Fdt.compareParse_ok_iff dtb _).mpr ⟨header, toks, _, hreads, rfl⟩, rfl⟩
  rw [Fdt.records_grouped]
  exact groupAll_flatMap tree.bindings_nodup fun e he => Fdt.bindings_ne_nil he

/-- The kernel that is extracted stands in the image. -/
theorem infix_of_extractKernel {path : String} {image kernel : Bytes} {header : Header}
    (h : extractKernel path image = .ok (kernel, header)) :
    ∃ front back, image = front ++ kernel ++ back := by
  obtain ⟨header', -, h⟩ := bind_eq_ok.mp h
  dsimp only at h
  split at h
  · cases h
  · cases h
    refine ⟨image.take header.pageSize,
      (image.drop header.pageSize).drop header.kernelSize, ?_⟩
    rw [List.append_assoc, List.take_append_drop, List.take_append_drop]

/-- No variant asks for a header version above 2. -/
theorem variant_headerVersion (payload : Bytes) (osVersion : {n : ℕ // n < 2 ^ 21})
    (osPatchLevel : {n : ℕ // n < 2 ^ 11}) (variant : Variant) :
    (variant.args payload osVersion osPatchLevel).headerVersion ≤ 2 := by
  cases variant with
  | page4096 => exact show (1 : ℤ) ≤ 2 by omega
  | hdr0 => exact show (0 : ℤ) ≤ 2 by omega
  | stocklike => exact show (0 : ℤ) ≤ 2 by omega

/-- A device tree is delivered by the files of a run: each holds the firmware with the tree
behind it, and a scan of it that returns writes the tree to a file, which both parsers show. -/
structure Delivered (outPath : Variant → String) (firmware dtb : Bytes) (tree : Fdt.DeviceTree)
    (written : List (Variant × Bytes)) : Prop where
  kernel : ∀ variant out, (variant, out) ∈ written →
    ∃ header, extractKernel (outPath variant) out = .ok (firmware ++ dtb, header)
  scanned : ∀ variant out, (variant, out) ∈ written →
    ∀ base report files, scanInto base out = .ok (report, files) → ∃ name, (name, dtb) ∈ files
  shown : Shows tree dtb

/-- **The tree that is put in comes out.** An image that `build.sh` made with header version 0
or 1 is run through `remux-boot-image.py` with a serialisation of a tree to replace the device
tree behind the firmware, if the search finds that. The files of the run deliver the tree. They
are all that were asked for, if the kernel is small enough and the image has a patch level. -/
theorem remuxDtb_delivers (unicodeDigit : Char → Option (Fin 10)) (sha1 : Bytes → Bytes)
    (avbtool : Args → Bytes → Except ToolError Bytes) {firmware dtb replacement : Bytes}
    {tree : Fdt.DeviceTree} {x y v : Str} {n : ℤ} (hn : parseInt unicodeDigit v = .ok n)
    (hversion : n = 0 ∨ n = 1) {image : Bytes}
    (h : runMkbootimg unicodeDigit sha1 avbtool (buildArgv (firmware ++ dtb) x y v) = .ok image)
    (hfind : findAppendedDtb (firmware ++ dtb) = .ok (some firmware.length))
    (hs : Fdt.Serialises tree replacement) (outPath : Variant → String) (path file : String)
    (requested : List Variant) :
    Delivered outPath firmware replacement tree (remuxDtb unicodeDigit sha1 avbtool outPath path
        file image replacement requested).written ∧
      ((firmware ++ replacement).length < 256 ^ 4 → yearMonth unicodeDigit y ≠ none →
        ∀ variant ∈ requested, ∃ out, (variant, out) ∈ (remuxDtb unicodeDigit sha1 avbtool outPath
          path file image replacement requested).written) := by
  obtain ⟨osVersion, osPatchLevel, hy, -, hextract⟩ := runMkbootimg_buildArgv hversion hn h
  have hmagic : OccursAt fdtMagicBytes replacement 0 := by
    have hocc := (fdtHeaderAt_of_serialises hs [] []).1
    rwa [List.nil_append, List.append_nil] at hocc
  have hswap : swapDtb file (firmware ++ dtb) replacement = .ok (firmware ++ replacement) := by
    refine (swapDtb_eq_ok_iff hfind).mpr ⟨hmagic, ?_⟩
    rw [List.take_left]
  have hrun : remuxDtb unicodeDigit sha1 avbtool outPath path file image replacement requested =
      writeVariants unicodeDigit sha1 avbtool outPath (firmware ++ replacement)
        (bootArgs (firmware ++ dtb) osVersion osPatchLevel n).legacyFields requested := by
    simp only [remuxDtb, hextract path, hswap]
  have hword : (bootArgs (firmware ++ dtb) osVersion osPatchLevel n).legacyFields.osVersion =
      osVersion.1 <<< 11 ||| osPatchLevel.1 := rfl
  rw [hrun]
  have hkernel : ∀ variant out, (variant, out) ∈ (writeVariants unicodeDigit sha1 avbtool outPath
      (firmware ++ replacement) (bootArgs (firmware ++ dtb) osVersion osPatchLevel n).legacyFields
      requested).written →
      ∃ header, extractKernel (outPath variant) out = .ok (firmware ++ replacement, header) := by
    intro variant out hmem
    obtain ⟨-, -, hmake⟩ := of_mem_written hy hword hmem
    have hextract := extractKernel_legacy (outPath variant)
      (variant_headerVersion (firmware ++ replacement) osVersion osPatchLevel variant) hmake
    rw [variant_kernel] at hextract
    exact ⟨_, hextract⟩
  refine ⟨⟨hkernel, fun variant out hmem base report files hscan => ?_, shows_of_serialises hs⟩,
    fun hsize hpatch variant hmem => ?_⟩
  · obtain ⟨header, hextract⟩ := hkernel variant out hmem
    obtain ⟨front, back, rfl⟩ := infix_of_extractKernel hextract
    rw [← List.append_assoc front firmware replacement] at hscan
    exact mem_scanInto_of_serialises hscan hs
  · exact exists_mem_written hy hword hsize (mt (yearMonth_eq_none_iff hy).mpr hpatch) hmem

/-- `build.sh` makes an image of any kernel that is small enough. -/
theorem buildArgv_isOk {unicodeDigit : Char → Option (Fin 10)} (sha1 : Bytes → Bytes)
    (avbtool : Args → Bytes → Except ToolError Bytes) {kernel : Bytes}
    (hkernel : kernel.length < 256 ^ 4) : ∃ image, runMkbootimg unicodeDigit sha1 avbtool
      (buildArgv kernel "9.0.0".toList "2020-10".toList "0".toList) = .ok image := by
  have hzero : parseInt unicodeDigit "0".toList = .ok 0 :=
    parseInt_of_ascii (ascii_of_all rfl) rfl
  have hparse : parseCmdline unicodeDigit (buildArgv kernel "9.0.0".toList "2020-10".toList
      "0".toList ++ []) = .ok (splitCmdline (bootArgs kernel stockVersion stockPatchLevel 0)) :=
    (parseCmdline_buildArgv (g := id) (by simp) fun _ _ => rfl).mpr
      ⟨stockVersion, stockPatchLevel, 0, parseOsVersion_stock, parseOsPatchLevel_stock, hzero, rfl⟩
  have hlegacy : (splitCmdline (bootArgs kernel stockVersion stockPatchLevel 0)).Legacy := by
    apply legacy_of_words (.inl rfl) rfl
    exact fits_words [0x10000000, 1, 0x10000000, 0, 0, 0x10000000, 2048, 0]
      (fits_natCast.mpr hkernel) (by decide) (fits_natCast.mpr (osWord_lt _))
  obtain ⟨image, himage⟩ := mkbootimg_legacy_isOk sha1 avbtool hlegacy
  rw [List.append_nil] at hparse
  exact ⟨image, bind_eq_ok.mpr ⟨_, hparse, himage⟩⟩

/-- The two nodes take the place of eight bytes behind a firmware of one. -/
theorem remuxDtb_delivers_twoNodes : ∃ image,
    runMkbootimg (fun _ => none) (fun _ => List.replicate 20 0)
        (fun _ _ => .error .calledProcessError) (buildArgv ([1] ++ smallDtb 8) "9.0.0".toList
          "2020-10".toList "0".toList) = .ok image ∧
      Delivered (fun _ => "out.img") [1] Fdt.twoNodesFile Fdt.twoNodes
        (remuxDtb (fun _ => none) (fun _ => List.replicate 20 0)
          (fun _ _ => .error .calledProcessError) (fun _ => "out.img") "boot-nb1.img" "new.dtb"
          image Fdt.twoNodesFile [.page4096, .hdr0, .stocklike]).written ∧
      ∀ variant ∈ [Variant.page4096, .hdr0, .stocklike], ∃ out, (variant, out) ∈
        (remuxDtb (fun _ => none) (fun _ => List.replicate 20 0)
          (fun _ _ => .error .calledProcessError) (fun _ => "out.img") "boot-nb1.img" "new.dtb"
          image Fdt.twoNodesFile [.page4096, .hdr0, .stocklike]).written := by
  have hkernel : ([1] ++ smallDtb 8).length < 256 ^ 4 := by decide
  have hpatch : yearMonth (fun _ => none) "2020-10".toList ≠ none :=
    mt (yearMonth_eq_none_iff parseOsPatchLevel_stock).mp (by decide)
  obtain ⟨image, himage⟩ := buildArgv_isOk (fun _ => List.replicate 20 0)
    (fun _ _ => .error .calledProcessError) hkernel
  obtain ⟨hdelivered, hwritten⟩ := remuxDtb_delivers _ _ _
    (parseInt_of_ascii (ascii_of_all rfl) rfl) (.inl rfl) himage (by decide +kernel)
    Fdt.twoNodesFile_serialises (fun _ => "out.img") "boot-nb1.img" "new.dtb"
    [.page4096, .hdr0, .stocklike]
  exact ⟨image, himage, hdelivered, hwritten (by decide +kernel) hpatch⟩

end BootImage

end Msm8998
