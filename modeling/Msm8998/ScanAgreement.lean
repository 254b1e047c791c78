import Msm8998.ScanBootImage

/-!
# The Header Report against the Writer

`parse_boot_header` of `scan-boot-image.py` reads what `mkbootimg.py` wrote. The ten words of
versions 0 to 2 agree. Behind them the reader takes the low half of two 64-bit fields, and
its prediction of the file size leaves out the recovery dtbo and the dtb. It does not know the
layout of versions 3 and 4.

## Main results

* `parseBootHeader_legacy`: the report on an image of version 0, 1 or 2;
* `parseBootHeader_mkbootimg`: when everything reported is what was written.
-/

open Fallible LittleEndian Occurrences

namespace Msm8998

namespace BootImage

open Fdt (Bytes)

/-! ### What agreement means -/

/-- The page size a file is laid out with. -/
def Args.layoutPagesize (args : Args) : ℕ :=
  if args.headerVersion > 2 then bootImageHeaderV3Pagesize else args.pagesize

/-- The offset the writer gives the recovery dtbo. -/
def Args.recoveryDtboOffset (args : Args) : ℕ :=
  if args.recoveryDtbo.isSome then getRecoveryDtboOffset args else 0

/-- Every value of a report is what the writer put there, and a predicted size is the size. -/
structure Agrees (args : Args) (image : Bytes) (report : HeaderReport) : Prop where
  pageSize : report.pageSize = args.layoutPagesize
  headerVersion : (report.headerVersion : ℤ) = args.headerVersion
  osVersion : report.osVersion = (args.osVersion.1 >>> 14 &&& 0x7F,
    args.osVersion.1 >>> 7 &&& 0x7F, args.osVersion.1 &&& 0x7F)
  osPatchLevel : report.osPatchLevel =
    (2000 + (args.osPatchLevel.1 >>> 4), args.osPatchLevel.1 &&& 0xF)
  kernelSize : report.kernel.1 = filesize args.kernel
  kernelAddr : (report.kernel.2 : ℤ) = args.base + args.kernelOffset
  ramdiskSize : report.ramdisk.1 = filesize args.ramdisk
  ramdiskAddr : (report.ramdisk.2 : ℤ) = args.ramdiskLoadAddress
  secondSize : report.second = filesize args.second
  recoveryDtbo : ∀ r, report.recoveryDtbo = some r →
    r = (filesize args.recoveryDtbo, args.recoveryDtboOffset)
  dtb : ∀ r, report.dtb = some r →
    r.1 = filesize args.dtb ∧ (r.2 : ℤ) = args.base + args.dtbOffset
  predicted : ∀ n, report.predicted = some n → n = image.length

/-! ### The fields behind the ten words -/

section

variable {sha1 : Bytes → Bytes} {avbtool : Args → Bytes → Except ToolError Bytes}
variable {args : Args} {image : Bytes}

/-- A 64-bit field is read as its two halves. -/
theorem split_eight (n : ℕ) :
    split 8 n = [n % 256 ^ 4, n / 256 ^ 4].flatMap (split 4) := by
  rw [List.flatMap_cons, List.flatMap_singleton, split_mod]
  exact split_add 4 4 n

/-- The bytes behind the fixed part of the header. -/
theorem drop_legacyImage (hv : args.headerVersion ≤ 2)
    (h : mkbootimg sha1 avbtool args = .ok image) : ∃ rest, image.drop 1632 =
      encodeAll args.recoveryDtboFields ++ encodeAll args.headerSizeFields
        ++ encodeAll args.dtbFields ++ rest := by
  obtain ⟨-, sha, -, rfl⟩ := (mkbootimg_legacy hv).mp h
  obtain ⟨zeros, hzeros⟩ := padFile_eq_append (args.legacyHeader (packBytes 32 (sha1 sha)))
    args.pagesize
  refine ⟨zeros ++ padAll args.files args.pagesize, ?_⟩
  rw [hzeros, Args.legacyHeader]
  simp only [List.append_assoc]
  rw [List.drop_left' (legacyFront_length args (packBytes_length 32 (sha1 sha)))]

/-- The recovery dtbo's fields, as far as the reader takes them in. -/
theorem reportedRecoveryDtbo_eq (hv : args.headerVersion ≤ 2) (hpos : 0 < args.headerVersion)
    (h : mkbootimg sha1 avbtool args = .ok image) :
    reportedRecoveryDtbo image =
      .ok (filesize args.recoveryDtbo, args.recoveryDtboOffset % 256 ^ 4) := by
  obtain ⟨hlegacy, -⟩ := (mkbootimg_legacy hv).mp h
  obtain ⟨rest, hdrop⟩ := drop_legacyImage hv h
  have hfields : args.recoveryDtboFields =
      [(4, (filesize args.recoveryDtbo : ℤ)), (8, (args.recoveryDtboOffset : ℤ))] := by
    rw [Args.recoveryDtboFields, if_pos hpos, Args.recoveryDtboOffset]
    cases args.recoveryDtbo <;> rfl
  have hsize : filesize args.recoveryDtbo < 256 ^ 4 :=
    fits_natCast.mp (hlegacy.recoveryDtbo (4, _) (hfields ▸ List.mem_cons_self))
  have hoffset : args.recoveryDtboOffset < 256 ^ 8 :=
    fits_natCast.mp (hlegacy.recoveryDtbo (8, _) (hfields ▸ by simp))
  have hread : readWords 4 3 image 1632 = some [filesize args.recoveryDtbo,
      args.recoveryDtboOffset % 256 ^ 4, args.recoveryDtboOffset / 256 ^ 4] := by
    refine (readWords_eq_some (by omega)).mpr ⟨rfl, ?_, encodeAll args.headerSizeFields
      ++ (encodeAll args.dtbFields ++ rest), ?_⟩
    · simp only [List.forall_mem_cons]
      exact ⟨hsize, Nat.mod_lt _ (by omega), by omega, by simp⟩
    · rw [hdrop, hfields, encodeAll]
      simp only [List.flatMap_cons, List.flatMap_nil, Int.toNat_natCast, List.append_nil,
        List.append_assoc, split_eight args.recoveryDtboOffset]
  rw [reportedRecoveryDtbo, hread]

/-- The dtb's fields, as far as the reader takes them in. -/
theorem reportedDtb_eq (hv : args.headerVersion = 2)
    (h : mkbootimg sha1 avbtool args = .ok image) :
    reportedDtb image =
      .ok (filesize args.dtb, (args.base + args.dtbOffset).toNat % 256 ^ 4) := by
  obtain ⟨hlegacy, -⟩ := (mkbootimg_legacy (by omega)).mp h
  obtain ⟨rest, hdrop⟩ := drop_legacyImage (by omega) h
  have hfields : args.dtbFields =
      [(4, (filesize args.dtb : ℤ)), (8, args.base + args.dtbOffset)] := by
    rw [Args.dtbFields, if_pos (by omega)]
  have hsize : filesize args.dtb < 256 ^ 4 :=
    fits_natCast.mp (hlegacy.dtb (4, _) (hfields ▸ List.mem_cons_self))
  have haddr : (args.base + args.dtbOffset).toNat < 256 ^ 8 :=
    (hlegacy.dtb (8, _) (hfields ▸ by simp)).2
  have hfront : (encodeAll args.recoveryDtboFields ++ encodeAll args.headerSizeFields).length =
      16 := by
    rw [List.length_append, recoveryDtboFields_length, headerSizeFields_length,
      if_pos (by omega), if_pos (.inr hv)]
  have hread : readWords 4 2 image 1648 = some [filesize args.dtb,
      (args.base + args.dtbOffset).toNat % 256 ^ 4] := by
    refine (readWords_eq_some (by omega)).mpr ⟨rfl, ?_,
      split 4 ((args.base + args.dtbOffset).toNat / 256 ^ 4) ++ rest, ?_⟩
    · simp only [List.forall_mem_cons]
      exact ⟨hsize, Nat.mod_lt _ (by omega), by simp⟩
    · rw [show 1648 = 1632 + 16 from rfl, ← List.drop_drop, hdrop, List.append_assoc,
        List.drop_left' hfront, hfields, encodeAll]
      simp only [List.flatMap_cons, List.flatMap_nil, Int.toNat_natCast, List.append_nil,
        List.append_assoc, split_eight (args.base + args.dtbOffset).toNat]
  rw [reportedDtb, hread]

/-! ### The predicted size -/

/-- A size rounded up is one of whole pages. -/
theorem roundUp_eq (value page : ℕ) : roundUp value page = page * getNumberOfPages value page :=
  Nat.mul_comm _ _

/-- It is not smaller. -/
theorem le_roundUp {p : ℕ} (hp : 0 < p) (size : ℕ) : size ≤ roundUp size p := by
  have hdiv := Nat.div_add_mod (size + p - 1) p
  have hmod := Nat.mod_lt (size + p - 1) hp
  rw [roundUp, Nat.mul_comm]
  omega

/-- It is zero only for nothing. -/
theorem roundUp_eq_zero_iff {p : ℕ} (hp : 0 < p) (size : ℕ) : roundUp size p = 0 ↔ size = 0 := by
  rw [roundUp, Nat.mul_eq_zero, or_iff_left (by omega), Nat.div_eq_zero_iff]
  omega

/-- How long a file of version 0, 1 or 2 is. -/
theorem legacyImage_length (hv : args.headerVersion ≤ 2)
    (h : mkbootimg sha1 avbtool args = .ok image) :
    image.length = args.pagesize + roundUp (filesize args.kernel) args.pagesize
      + roundUp (filesize args.ramdisk) args.pagesize
      + roundUp (filesize args.second) args.pagesize
      + (if 0 < args.headerVersion then roundUp (filesize args.recoveryDtbo) args.pagesize else 0)
      + (if args.headerVersion = 2 then roundUp (filesize args.dtb) args.pagesize else 0) := by
  obtain ⟨-, sha, -, rfl⟩ := (mkbootimg_legacy hv).mp h
  rw [List.length_append, legacyPage_length args (packBytes_length 32 (sha1 sha)),
    padAll_length (pagesize_isPowerOfTwo args), Args.files]
  by_cases hpos : 0 < args.headerVersion
  · rw [if_pos (show args.headerVersion > 0 ∧ args.headerVersion < 3 by omega), if_pos hpos]
    by_cases hdtb : args.headerVersion = 2
    · rw [if_pos hdtb, if_pos hdtb]
      simp only [List.cons_append, List.nil_append, List.map_cons, List.map_nil, List.sum_cons,
        List.sum_nil, roundUp_eq]
      omega
    · rw [if_neg hdtb, if_neg hdtb]
      simp only [List.cons_append, List.nil_append, List.append_nil, List.map_cons, List.map_nil,
        List.sum_cons, List.sum_nil, roundUp_eq]
      omega
  · rw [if_neg (show ¬ (args.headerVersion > 0 ∧ args.headerVersion < 3) by omega), if_neg hpos,
      if_neg (by omega), if_neg (by omega)]
    simp only [List.append_nil, List.map_cons, List.map_nil, List.sum_cons, List.sum_nil,
      roundUp_eq]
    omega

/-- **The size check** is right when it is not printed or nothing it leaves out was written. -/
theorem predictedSize_legacy (hv : args.headerVersion ≤ 2)
    (h : mkbootimg sha1 avbtool args = .ok image) :
    (∀ n, predictedSize args.legacyFields image.length = some n → n = image.length) ↔
      filesize args.kernel = 0 ∨ filesize args.ramdisk = 0 ∨
        args.headerVersion ≠ 2 ∧ (args.headerVersion = 1 → filesize args.recoveryDtbo = 0) := by
  have hlegacy := ((mkbootimg_legacy hv).mp h).1
  have hpage := le_pagesize args
  have hlen := legacyImage_length hv h
  have hnonneg := hlegacy.version_nonneg
  have hkernel := le_roundUp (by omega : 0 < args.pagesize.1) (filesize args.kernel)
  have hramdisk := le_roundUp (by omega : 0 < args.pagesize.1) (filesize args.ramdisk)
  have hdtbo := roundUp_eq_zero_iff (by omega : 0 < args.pagesize.1) (filesize args.recoveryDtbo)
  have hdtb := roundUp_eq_zero_iff (by omega : 0 < args.pagesize.1) (filesize args.dtb)
  have hne := hlegacy.dtb_ne
  rw [predictedSize]
  by_cases hprinted : 0 < filesize args.kernel ∧ 0 < filesize args.ramdisk
  · obtain ⟨hkpos, hrpos⟩ := hprinted
    rw [if_pos]
    · simp only [Option.some.injEq, forall_eq', Args.legacyFields]
      split at hlen <;> split at hlen <;> omega
    · simp only [Args.legacyFields]
      omega
  · rw [if_neg]
    · refine iff_of_true (by simp) ?_
      omega
    · simp only [Args.legacyFields]
      omega

/-! ### The report -/

/-- The report on a file of version 0, 1 or 2. -/
def Args.legacyReport (args : Args) (length : ℕ) : HeaderReport where
  pageSize := args.pagesize
  headerVersion := args.headerVersion.toNat
  osVersion := (args.osVersion.1 >>> 14 &&& 0x7F, args.osVersion.1 >>> 7 &&& 0x7F,
    args.osVersion.1 &&& 0x7F)
  osPatchLevel := (2000 + (args.osPatchLevel.1 >>> 4), args.osPatchLevel.1 &&& 0xF)
  kernel := (filesize args.kernel, (args.base + args.kernelOffset).toNat)
  ramdisk := (filesize args.ramdisk, args.ramdiskLoadAddress.toNat)
  second := filesize args.second
  predicted := predictedSize args.legacyFields length
  recoveryDtbo := if 0 < args.headerVersion then
    some (filesize args.recoveryDtbo, args.recoveryDtboOffset % 256 ^ 4) else none
  dtb := if args.headerVersion = 2 then
    some (filesize args.dtb, (args.base + args.dtbOffset).toNat % 256 ^ 4) else none

/-- **The report** on versions 0 to 2. -/
theorem parseBootHeader_legacy (hv : args.headerVersion ≤ 2)
    (h : mkbootimg sha1 avbtool args = .ok image) :
    parseBootHeader image = .ok (some (args.legacyReport image.length)) := by
  have hnonneg := ((mkbootimg_legacy hv).mp h).1.version_nonneg
  obtain ⟨hmagic, hheader, -⟩ := unpackHeader_legacy hv h
  have hversion : args.legacyFields.headerVersion = args.headerVersion.toNat := rfl
  have hdtbo : reportIf (args.legacyFields.headerVersion ≥ 1) (reportedRecoveryDtbo image) =
      .ok (if 0 < args.headerVersion then
        some (filesize args.recoveryDtbo, args.recoveryDtboOffset % 256 ^ 4) else none) := by
    rw [reportIf, hversion]
    by_cases hpos : 0 < args.headerVersion
    · rw [if_pos hpos, if_pos (by omega), reportedRecoveryDtbo_eq hv hpos h]
      rfl
    · rw [if_neg hpos, if_neg (by omega)]
  have hdtb : reportIf (args.legacyFields.headerVersion ≥ 2) (reportedDtb image) =
      .ok (if args.headerVersion = 2 then
        some (filesize args.dtb, (args.base + args.dtbOffset).toNat % 256 ^ 4) else none) := by
    rw [reportIf, hversion]
    by_cases htwo : args.headerVersion = 2
    · rw [if_pos htwo, if_pos (by omega), reportedDtb_eq htwo h]
      rfl
    · rw [if_neg htwo, if_neg (by omega)]
  obtain ⟨hver, hpatch⟩ : args.osWord >>> 11 = args.osVersion.1 ∧
      args.osWord &&& 0x7FF = args.osPatchLevel.1 := osWord_parts args.osVersion args.osPatchLevel
  rw [parseBootHeader, if_neg (not_not.mpr hmagic), hheader, ok_bind]
  simp only [hdtbo, hdtb, ok_bind]
  rw [Args.legacyReport, ← hver, ← hpatch]
  rfl

/-- The page size that is reported for versions 3 and 4 is a reserved word. -/
theorem parseBootHeader_v3 (hv : args.headerVersion > 2)
    (h : mkbootimg sha1 avbtool args = .ok image) {report : HeaderReport}
    (hreport : parseBootHeader image = .ok (some report)) : report.pageSize = 0 := by
  obtain ⟨w, hmagic, hheader, -⟩ := unpackHeader_v3 hv h
  rw [parseBootHeader, if_neg (not_not.mpr hmagic), hheader, ok_bind] at hreport
  obtain ⟨dtbo, -, hreport⟩ := bind_eq_ok.mp hreport
  obtain ⟨dtb, -, hreport⟩ := bind_eq_ok.mp hreport
  cases hreport
  rfl

/-- What agreement asks for on versions 0 to 2. -/
theorem agrees_legacyReport (hv : args.headerVersion ≤ 2)
    (h : mkbootimg sha1 avbtool args = .ok image) :
    Agrees args image (args.legacyReport image.length) ↔
      (0 < args.headerVersion → args.recoveryDtboOffset < 256 ^ 4) ∧
        (args.headerVersion = 2 → (args.base + args.dtbOffset).toNat < 256 ^ 4) ∧
        (filesize args.kernel = 0 ∨ filesize args.ramdisk = 0 ∨
          args.headerVersion ≠ 2 ∧
            (args.headerVersion = 1 → filesize args.recoveryDtbo = 0)) := by
  have hlegacy := ((mkbootimg_legacy hv).mp h).1
  have hnonneg := hlegacy.version_nonneg
  rw [← predictedSize_legacy hv h]
  have hword (v : ℤ) (hmem : v ∈ args.legacyWords) : (v.toNat : ℤ) = v :=
    Int.toNat_of_nonneg (hlegacy.words v hmem).1
  constructor
  · intro hagrees
    refine ⟨fun hpos => ?_, fun htwo => ?_, hagrees.predicted⟩
    · have hdtbo := hagrees.recoveryDtbo _ (if_pos hpos)
      rw [Prod.mk.injEq] at hdtbo
      rw [← hdtbo.2]
      exact Nat.mod_lt _ (by omega)
    · have hdtb := (hagrees.dtb _ (if_pos htwo)).2
      rw [← hdtb]
      omega
  · rintro ⟨hdtbo, hdtb, hpredicted⟩
    constructor
    · rw [Args.layoutPagesize, if_neg (by omega)]
      rfl
    · exact Int.toNat_of_nonneg hnonneg
    · rfl
    · rfl
    · rfl
    · exact hword _ (by simp [Args.legacyWords])
    · rfl
    · exact hword _ (by simp [Args.legacyWords])
    · rfl
    · intro r hr
      rw [Args.legacyReport] at hr
      dsimp only at hr
      split at hr
      · rename_i hpos
        cases hr
        rw [Nat.mod_eq_of_lt (hdtbo hpos)]
      · cases hr
    · intro r hr
      rw [Args.legacyReport] at hr
      dsimp only at hr
      split at hr
      · rename_i htwo
        cases hr
        have haddr : 0 ≤ args.base + args.dtbOffset := by
          have hfits := hlegacy.dtb
          rw [Args.dtbFields, if_pos (by omega)] at hfits
          exact (hfits (8, args.base + args.dtbOffset) (by simp)).1
        have hlt := hdtb htwo
        refine ⟨rfl, ?_⟩
        dsimp only
        omega
      · cases hr
    · exact hpredicted

end

/-- **The report.** For a file that `mkbootimg.py` wrote, everything `parse_boot_header` reports
is what was written there exactly when the version is at most 2, the two 64-bit fields are
below 2 ^ 32, and the size check is not printed or leaves nothing out. -/
theorem parseBootHeader_mkbootimg (sha1 : Bytes → Bytes)
    (avbtool : Args → Bytes → Except ToolError Bytes) (args : Args) (image : Bytes)
    (h : mkbootimg sha1 avbtool args = .ok image) :
    (∃ report, parseBootHeader image = .ok (some report) ∧ Agrees args image report) ↔
      args.headerVersion ≤ 2 ∧
        (0 < args.headerVersion → args.recoveryDtboOffset < 256 ^ 4) ∧
        (args.headerVersion = 2 → (args.base + args.dtbOffset).toNat < 256 ^ 4) ∧
        (filesize args.kernel = 0 ∨ filesize args.ramdisk = 0 ∨
          args.headerVersion ≠ 2 ∧
            (args.headerVersion = 1 → filesize args.recoveryDtbo = 0)) := by
  by_cases hv : args.headerVersion ≤ 2
  · rw [← agrees_legacyReport hv h, and_iff_right hv, parseBootHeader_legacy hv h]
    constructor
    · rintro ⟨report, hreport, hagrees⟩
      cases hreport
      exact hagrees
    · intro hagrees
      exact ⟨_, rfl, hagrees⟩
  · refine iff_of_false ?_ fun hcond => hv hcond.1
    rintro ⟨report, hreport, hagrees⟩
    have hzero := parseBootHeader_v3 (by omega) h hreport
    have hpage := hagrees.pageSize
    rw [hzero, Args.layoutPagesize, if_pos (by omega)] at hpage
    cases hpage

/-- A version 1 image with a kernel, a ramdisk and a recovery dtbo of one byte each. -/
def dtboArgs : Args :=
  { kernel := some [1], ramdisk := some [2], recoveryDtbo := some [3], headerVersion := 1 }

/-- That image is written. -/
theorem dtboArgs_isOk : ∃ image, mkbootimg (fun _ => List.replicate 20 0)
    (fun _ _ => .error .calledProcessError) dtboArgs = .ok image :=
  mkbootimg_legacy_isOk _ _ ⟨by decide, by decide, by decide, by decide, by decide⟩

/-- The criterion at that image. -/
theorem parseBootHeader_mkbootimg_dtbo : ∃ image,
    mkbootimg (fun _ => List.replicate 20 0) (fun _ _ => .error .calledProcessError) dtboArgs =
      .ok image ∧
    ((∃ report, parseBootHeader image = .ok (some report) ∧ Agrees dtboArgs image report) ↔
      dtboArgs.headerVersion ≤ 2 ∧
        (0 < dtboArgs.headerVersion → dtboArgs.recoveryDtboOffset < 256 ^ 4) ∧
        (dtboArgs.headerVersion = 2 → (dtboArgs.base + dtboArgs.dtbOffset).toNat < 256 ^ 4) ∧
        (filesize dtboArgs.kernel = 0 ∨ filesize dtboArgs.ramdisk = 0 ∨
          dtboArgs.headerVersion ≠ 2 ∧
            (dtboArgs.headerVersion = 1 → filesize dtboArgs.recoveryDtbo = 0))) := by
  obtain ⟨image, himage⟩ := dtboArgs_isOk
  exact ⟨image, himage, parseBootHeader_mkbootimg _ _ dtboArgs image himage⟩

/-- The size predicted for that image is not its length. -/
theorem parseBootHeader_dtboArgs : ∃ image report,
    mkbootimg (fun _ => List.replicate 20 0) (fun _ _ => .error .calledProcessError) dtboArgs =
      .ok image ∧
    parseBootHeader image = .ok (some report) ∧ report.predicted = some 6144 ∧
      image.length = 8192 := by
  obtain ⟨image, himage⟩ := dtboArgs_isOk
  have hlen : image.length = 8192 := (legacyImage_length (by decide) himage).trans (by decide)
  refine ⟨image, _, himage, parseBootHeader_legacy (by decide) himage, ?_, hlen⟩
  rw [hlen]
  decide

end BootImage

end Msm8998
