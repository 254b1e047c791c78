import Msm8998.MkbootimgArgs
import Msm8998.OrderedDict
import Msm8998.RemuxExtract

/-!
# The Variants of a Boot Image

This module models the loop of `remux-boot-image.py` that writes the variants of an image,
from the table of overrides to the command line `mkbootimg.py` is run with, for a run without
`--dtb`, `--os-version` and `--os-patch-level`. The image it starts from is one of those
`build.sh` makes.

The tool passes a header version of its own, 1, where it passes on what it read for the
version and the patch level of the operating system.

## Main results

* `of_mem_written`: what each file that is written is made of;
* `remux_faithful`: when the variants differ only in what they announce.
-/

open Fallible OrderedDict

namespace Msm8998

namespace BootImage

open Fdt (Bytes Str)

/-! ### The tool -/

/-- `VARIANTS`. -/
inductive Variant
  | page4096 | hdr0 | stocklike
deriving Repr, DecidableEq

/-- A value in the options of `mux`. -/
inductive Setting
  | int (n : ℕ)
  | str (x : Str)
  | path (contents : Bytes)
deriving Repr, DecidableEq

/-- The overrides of a variant. -/
def Variant.overrides : Variant → List (Opt × Setting)
  | .page4096 => [(.pagesize, .int 4096)]
  | .hdr0 =>
      [(.pagesize, .int 4096), (.headerVersion, .int 0),
        (.osVersion, .str "9.0.0".toList), (.osPatchLevel, .str "2020-10".toList)]
  | .stocklike =>
      [(.pagesize, .int 4096), (.headerVersion, .int 0),
        (.osVersion, .str "9.0.0".toList), (.osPatchLevel, .str "2020-10".toList),
        (.base, .int 0x0), (.kernelOffset, .int 0x8000), (.ramdiskOffset, .int 0x1000000),
        (.secondOffset, .int 0xF00000), (.tagsOffset, .int 0x100)]

/-- The version part of `decode_os_version`. -/
def decodeVersion (value : ℕ) : Str :=
  let version := value >>> 11
  pyDecimal (version >>> 14 &&& 0x7F) ++ '.' :: (pyDecimal (version >>> 7 &&& 0x7F) ++
    '.' :: (pyDecimal (version &&& 0x7F) ++ []))

/-- The patch level part of `decode_os_version`. -/
def decodePatch (value : ℕ) : Str :=
  let patch := value &&& 0x7FF
  pyDecimal (2000 + (patch >>> 4)) ++ '-' :: pyDecimal2 (patch &&& 0xF)

/-- `hex(value) if isinstance(value, int) else str(value)`. -/
def Setting.argument : Setting → Value
  | .int n => .text (pyHex n)
  | .str x => .text x
  | .path contents => .file contents

/-- `dict.setdefault`. -/
def setDefault (d : Dict Opt Setting) (k : Opt) (v : Setting) : Dict Opt Setting :=
  d.update k fun old => old.getD v

/-- The command line that `mux` makes. -/
def muxArgv (kernel ramdisk : Bytes) (overrides : Dict Opt Setting)
    (osVersion osPatchLevel : Str) : List (Opt × Value) :=
  let opts := setAll Dict.empty
    [(.kernel, .path kernel), (.ramdisk, .path ramdisk),
      (.kernelOffset, .str "0x00000000".toList), (.ramdiskOffset, .str "0x00000000".toList),
      (.tagsOffset, .str "0x00000000".toList), (.osVersion, .str osVersion),
      (.osPatchLevel, .str osPatchLevel), (.headerVersion, .int 1)]
  (setAll opts overrides.entries).entries.map fun o => (o.1, o.2.argument)

section Run

variable (unicodeDigit : Char → Option (Fin 10)) (sha1 : Bytes → Bytes)
  (avbtool : Args → Bytes → Except ToolError Bytes)

/-- A run of `mkbootimg.py`. -/
def runMkbootimg (argv : List (Opt × Value)) : Except ToolError Bytes := do
  let args ← parseCmdline unicodeDigit argv
  mkbootimg sha1 avbtool args

/-- `mux`, where `check=True` turns a failure of `mkbootimg.py` into an exception. -/
def mux (argv : List (Opt × Value)) : Except ToolError Bytes :=
  match runMkbootimg unicodeDigit sha1 avbtool argv with
  | .ok out => .ok out
  | .error _ => .error .calledProcessError

/-- The command line for a variant of an image with this kernel and this header. -/
def Variant.argv (variant : Variant) (payload : Bytes) (header : Header) :
    List (Opt × Value) :=
  let srcVersion := decodeVersion header.osVersion
  let srcPatch := decodePatch header.osVersion
  let effective := setAll Dict.empty variant.overrides
  let effective := setDefault effective .osVersion (.str srcVersion)
  let effective := setDefault effective .osPatchLevel (.str srcPatch)
  muxArgv payload [10] effective srcVersion srcPatch

/-- The file names a run writes, and the exception that ends it, if one does. -/
structure RemuxResult where
  written : List (Variant × Bytes)
  error : Option ToolError

/-- The loop of `main`. `describe` reads the header of each new file. -/
def writeVariants (outPath : Variant → String) (payload : Bytes) (header : Header) :
    List Variant → RemuxResult
  | [] => ⟨[], none⟩
  | variant :: requested =>
      match mux unicodeDigit sha1 avbtool (variant.argv payload header) with
      | .error e => ⟨[], some e⟩
      | .ok out =>
          match readHeader (outPath variant) out with
          | .error e => ⟨[(variant, out)], some e⟩
          | .ok _ =>
              let rest := writeVariants outPath payload header requested
              ⟨(variant, out) :: rest.written, rest.error⟩

/-- `main` on an image file and the variants asked for. -/
def remux (outPath : Variant → String) (path : String) (image : Bytes)
    (requested : List Variant) : RemuxResult :=
  match extractKernel path image with
  | .error e => ⟨[], some e⟩
  | .ok (payload, header) =>
      writeVariants unicodeDigit sha1 avbtool outPath payload header requested

/-- The options `build.sh` passes; its ramdisk is a single newline. -/
def buildArgv (kernel : Bytes) (osVersion osPatchLevel headerVersion : Str) :
    List (Opt × Value) :=
  [(.kernel, .file kernel), (.ramdisk, .file [10]),
    (.kernelOffset, .text "0x00000000".toList), (.ramdiskOffset, .text "0x00000000".toList),
    (.tagsOffset, .text "0x00000000".toList), (.osVersion, .text osVersion),
    (.osPatchLevel, .text osPatchLevel), (.headerVersion, .text headerVersion)]

end Run

/-! ### The command lines -/

variable {payload kernel : Bytes} {header : Header}

/-- The arguments for the variant with larger pages. -/
theorem page4096_argv (payload : Bytes) (header : Header) :
    Variant.page4096.argv payload header =
      buildArgv payload (decodeVersion header.osVersion) (decodePatch header.osVersion) (pyHex 1)
        ++ [(.pagesize, .text (pyHex 4096))] := by
  simp [Variant.argv, muxArgv, setDefault, setAll_entries, Dict.update, Dict.updateEntries,
    Dict.empty, Variant.overrides, Setting.argument, buildArgv]

/-- Those for the variant with the oldest header. -/
theorem hdr0_argv (payload : Bytes) (header : Header) :
    Variant.hdr0.argv payload header =
      buildArgv payload "9.0.0".toList "2020-10".toList (pyHex 0)
        ++ [(.pagesize, .text (pyHex 4096))] := by
  simp [Variant.argv, muxArgv, setDefault, setAll_entries, Dict.update, Dict.updateEntries,
    Dict.empty, Variant.overrides, Setting.argument, buildArgv]

/-- Those for the variant like the stock image. -/
theorem stocklike_argv (payload : Bytes) (header : Header) :
    Variant.stocklike.argv payload header =
      [(.kernel, .file payload), (.ramdisk, .file [10]),
        (.kernelOffset, .text (pyHex 0x8000)), (.ramdiskOffset, .text (pyHex 0x1000000)),
        (.tagsOffset, .text (pyHex 0x100)),
        (.osVersion, .text "9.0.0".toList), (.osPatchLevel, .text "2020-10".toList),
        (.headerVersion, .text (pyHex 0)), (.pagesize, .text (pyHex 4096)),
        (.base, .text (pyHex 0)), (.secondOffset, .text (pyHex 0xF00000))] := by
  simp [Variant.argv, muxArgv, setDefault, setAll_entries, Dict.update, Dict.updateEntries,
    Dict.empty, Variant.overrides, Setting.argument]

/-! ### What they parse to -/

section Parse

variable {unicodeDigit : Char → Option (Fin 10)} {x y v : Str}

/-- A number that is printed in hexadecimal is read back. -/
theorem intValue_pyHex (n : ℕ) : intValue unicodeDigit (.text (pyHex n)) = .ok n :=
  typed_eq_ok.mpr (parseInt_pyHex n)

/-- So is a zero with its leading zeros. -/
theorem intValue_zeros : intValue unicodeDigit (.text "0x00000000".toList) = .ok 0 := by
  have hzeros : parseInt unicodeDigit "0x00000000".toList = .ok 0 :=
    parseInt_of_ascii (ascii_of_all rfl) rfl
  exact typed_eq_ok.mpr hzeros

/-- Pages of 4 KiB are a choice. -/
theorem mem_pagesizeChoices_4096 : 4096 ∈ pagesizeChoices :=
  two_pow_mem_pagesizeChoices (i := 12) (by omega) (by omega)

/-- They are read as such. -/
theorem pagesizeValue_4096 :
    pagesizeValue unicodeDigit (.text (pyHex 4096)) = .ok ⟨4096, mem_pagesizeChoices_4096⟩ := by
  rw [pagesizeValue, intValue_pyHex, ok_bind, dif_pos ⟨by omega, mem_pagesizeChoices_4096⟩]
  rfl

/-- The arguments that the options of `build.sh` set. -/
def bootArgs (kernel : Bytes) (osVersion : {n : ℕ // n < 2 ^ 21})
    (osPatchLevel : {n : ℕ // n < 2 ^ 11}) (headerVersion : ℤ) : Args :=
  { kernel := some kernel, ramdisk := some [10], kernelOffset := 0, ramdiskOffset := 0,
    tagsOffset := 0, osVersion, osPatchLevel, headerVersion }

/-- The options of `build.sh` are taken in. -/
theorem foldlM_buildArgv (size : ℕ) :
    (buildArgv kernel x y v).foldlM (applyOption unicodeDigit size) {} = (do
      let osVersion ← versionValue (parseOsVersion unicodeDigit) (.text x)
      let osPatchLevel ← versionValue (parseOsPatchLevel unicodeDigit) (.text y)
      let headerVersion ← intValue unicodeDigit (.text v)
      return bootArgs kernel osVersion osPatchLevel headerVersion) := by
  simp only [buildArgv, List.foldlM_cons, List.foldlM_nil, applyOption, fileValue, intValue_zeros,
    ok_bind]
  cases versionValue (parseOsVersion unicodeDigit) (.text x) with
  | error e => rfl
  | ok osVersion =>
      cases versionValue (parseOsPatchLevel unicodeDigit) (.text y) with
      | error e => rfl
      | ok osPatchLevel =>
          cases intValue unicodeDigit (.text v) with
          | error e => rfl
          | ok headerVersion => rfl

/-- The header version of a command line that gives it once. -/
theorem headerVersionOf_buildArgv {rest : List (Opt × Value)}
    (hrest : ∀ o ∈ rest, o.1 ≠ .headerVersion) :
    headerVersionOf unicodeDigit (buildArgv kernel x y v ++ rest) =
      intValue unicodeDigit (.text v) := by
  have hkeep (n : ℤ) : rest.foldlM (fun v o => if o.1 = Opt.headerVersion then
      intValue unicodeDigit o.2 else .ok v) n = .ok n := by
    induction rest with
    | nil => rfl
    | cons o rest ih =>
        obtain ⟨ho, hrest⟩ := List.forall_mem_cons.mp hrest
        rw [List.foldlM_cons, if_neg ho, ok_bind, ih hrest]
  rw [headerVersionOf, List.foldlM_append]
  simp only [hkeep, buildArgv, List.foldlM_cons, List.foldlM_nil]
  cases intValue unicodeDigit (.text v) with
  | error e => rfl
  | ok n => rfl

/-- The options of `build.sh` and others that can always be taken in. -/
theorem parseCmdline_buildArgv {rest : List (Opt × Value)} {g : Args → Args} {args : Args}
    (hrest : ∀ o ∈ rest, o.1 ≠ .headerVersion ∧ o.1 ≠ .recoveryDtbo)
    (hg : ∀ size args, rest.foldlM (applyOption unicodeDigit size) args = .ok (g args)) :
    parseCmdline unicodeDigit (buildArgv kernel x y v ++ rest) = .ok args ↔
      ∃ osVersion osPatchLevel headerVersion, parseOsVersion unicodeDigit x = .ok osVersion ∧
        parseOsPatchLevel unicodeDigit y = .ok osPatchLevel ∧
        parseInt unicodeDigit v = .ok headerVersion ∧
        args = splitCmdline (g (bootArgs kernel osVersion osPatchLevel headerVersion)) := by
  have hone : ¬ (Opt.recoveryDtbo ∈ (buildArgv kernel x y v ++ rest).map Prod.fst ∧
      Opt.recoveryAcpio ∈ (buildArgv kernel x y v ++ rest).map Prod.fst) := by
    rintro ⟨hmem, -⟩
    rw [List.map_append, List.mem_append] at hmem
    rcases hmem with hmem | hmem
    · simp [buildArgv] at hmem
    · obtain ⟨o, ho, heq⟩ := List.mem_map.mp hmem
      exact (hrest o ho).2 heq
  rw [parseCmdline, headerVersionOf_buildArgv fun o ho => (hrest o ho).1]
  simp only [if_neg hone, List.foldlM_append, foldlM_buildArgv, hg, bind_eq_ok, versionValue,
    intValue, typed_eq_ok]
  constructor
  · rintro ⟨n, -, final,
      ⟨start, ⟨osVersion, hx, osPatchLevel, hy, headerVersion, hv, hstart⟩, hfinal⟩, hargs⟩
    cases hstart
    cases hfinal
    cases hargs
    exact ⟨osVersion, osPatchLevel, headerVersion, hx, hy, hv, rfl⟩
  · rintro ⟨osVersion, osPatchLevel, headerVersion, hx, hy, hv, rfl⟩
    exact ⟨headerVersion, hv, _, ⟨_, ⟨osVersion, hx, osPatchLevel, hy, headerVersion, hv, rfl⟩,
      rfl⟩, rfl⟩

/-- The stock version, 9.0.0. -/
def stockVersion : {n : ℕ // n < 2 ^ 21} := ⟨9 <<< 14 ||| 0 <<< 7 ||| 0, osVersion_lt (by omega)⟩

/-- The stock patch level, 2020-10. -/
def stockPatchLevel : {n : ℕ // n < 2 ^ 11} := ⟨20 <<< 4 ||| 10, osPatchLevel_lt (by omega)⟩

/-- The OS version of the stock image. -/
theorem parseOsVersion_stock : parseOsVersion unicodeDigit "9.0.0".toList = .ok stockVersion := by
  have htext : "9.0.0".toList =
      pyDecimal 9 ++ '.' :: (pyDecimal 0 ++ '.' :: (pyDecimal 0 ++ [])) := by decide
  rw [htext]
  exact parseOsVersion_format (by omega)

/-- Its patch level. -/
theorem parseOsPatchLevel_stock :
    parseOsPatchLevel unicodeDigit "2020-10".toList = .ok stockPatchLevel := by
  have htext : "2020-10".toList = pyDecimal (2000 + 20) ++ '-' :: pyDecimal2 10 := by decide
  rw [htext]
  exact parseOsPatchLevel_format (by omega)

/-- The arguments a variant is made with. -/
def Variant.args (payload : Bytes) (osVersion : {n : ℕ // n < 2 ^ 21})
    (osPatchLevel : {n : ℕ // n < 2 ^ 11}) : Variant → Args
  | .page4096 =>
      splitCmdline { bootArgs payload osVersion osPatchLevel 1 with
        pagesize := ⟨4096, mem_pagesizeChoices_4096⟩ }
  | .hdr0 =>
      splitCmdline { bootArgs payload stockVersion stockPatchLevel 0 with
        pagesize := ⟨4096, mem_pagesizeChoices_4096⟩ }
  | .stocklike =>
      splitCmdline { bootArgs payload stockVersion stockPatchLevel 0 with
        pagesize := ⟨4096, mem_pagesizeChoices_4096⟩
        base := 0
        kernelOffset := 0x8000
        ramdiskOffset := 0x1000000
        secondOffset := 0xF00000
        tagsOffset := 0x100 }

/-- The option of the page size. -/
theorem foldlM_pagesize (size : ℕ) (args : Args) :
    [(Opt.pagesize, Value.text (pyHex 4096))].foldlM (applyOption unicodeDigit size) args =
      .ok { args with pagesize := ⟨4096, mem_pagesizeChoices_4096⟩ } := by
  simp only [List.foldlM_cons, List.foldlM_nil, applyOption, pagesizeValue_4096]
  rfl

/-- The version that is printed is the version that was read. -/
theorem parseOsVersion_decode (osVersion : {n : ℕ // n < 2 ^ 21})
    (osPatchLevel : {n : ℕ // n < 2 ^ 11}) :
    parseOsVersion unicodeDigit (decodeVersion (osVersion.1 <<< 11 ||| osPatchLevel.1)) =
      .ok osVersion := by
  have hlt := osVersion.2
  have hlow (n : ℕ) : n &&& 0x7F < 128 := by
    rw [Nat.and_two_pow_sub_one_eq_mod _ 7]
    omega
  have hsplit : (osVersion.1 >>> 14 &&& 0x7F) <<< 14 ||| (osVersion.1 >>> 7 &&& 0x7F) <<< 7 |||
      (osVersion.1 &&& 0x7F) = osVersion.1 := by
    rw [Nat.or_assoc, shiftLeft_or_eq_add (k := 7) _ (hlow _), shiftLeft_or_eq_add (k := 14)]
    · simp only [Nat.and_two_pow_sub_one_eq_mod _ 7, Nat.shiftRight_eq_div_pow]
      omega
    · have hmid := hlow (osVersion.1 >>> 7)
      have hend := hlow osVersion.1
      omega
  rw [decodeVersion, (osWord_parts osVersion osPatchLevel).1]
  refine (parseOsVersion_format ⟨hlow _, hlow _, hlow _⟩).trans ?_
  exact congrArg Except.ok (Subtype.ext hsplit)

/-- A patch level that was read is printed as it was; without one, month zero is printed. -/
theorem parseOsPatchLevel_decode {osVersion : {n : ℕ // n < 2 ^ 21}}
    {osPatchLevel : {n : ℕ // n < 2 ^ 11}} (hy : parseOsPatchLevel unicodeDigit y = .ok osPatchLevel)
    (p : {n : ℕ // n < 2 ^ 11}) :
    parseOsPatchLevel unicodeDigit (decodePatch (osVersion.1 <<< 11 ||| osPatchLevel.1)) = .ok p ↔
      p = osPatchLevel ∧ osPatchLevel.1 ≠ 0 := by
  rw [decodePatch, (osWord_parts osVersion osPatchLevel).2]
  rcases parseOsPatchLevel_cases hy with hzero | ⟨year, m, hrange, hparts⟩
  · have hrefused : parseOsPatchLevel unicodeDigit (pyDecimal (2000 + 0) ++ '-' :: pyDecimal2 0) =
        .error .assertionError := parseOsPatchLevel_format_zero (by omega)
    rw [hzero, Nat.zero_shiftRight, Nat.zero_and, hrefused]
    simp
  · have hadd := shiftLeft_or_eq_add (k := 4) (m := m) year (by omega)
    have hyear : osPatchLevel.1 >>> 4 = year := by
      rw [hparts, hadd, Nat.shiftRight_eq_div_pow]
      omega
    have hmonth : osPatchLevel.1 &&& 0xF = m := by
      rw [hparts, hadd, Nat.and_two_pow_sub_one_eq_mod _ 4]
      omega
    have hread : parseOsPatchLevel unicodeDigit (pyDecimal (2000 + year) ++ '-' :: pyDecimal2 m) =
        .ok osPatchLevel :=
      (parseOsPatchLevel_format hrange).trans (congrArg Except.ok (Subtype.ext hparts.symm))
    have hne : osPatchLevel.1 ≠ 0 := by omega
    rw [hyear, hmonth, hread, Except.ok.injEq, eq_comm]
    exact (and_iff_left hne).symm

/-- `page4096` can be made exactly when the image has a patch level. -/
theorem page4096_args {osVersion : {n : ℕ // n < 2 ^ 21}} {osPatchLevel : {n : ℕ // n < 2 ^ 11}}
    (hy : parseOsPatchLevel unicodeDigit y = .ok osPatchLevel)
    (hword : header.osVersion = osVersion.1 <<< 11 ||| osPatchLevel.1) (args : Args) :
    parseCmdline unicodeDigit (Variant.page4096.argv payload header) = .ok args ↔
      args = Variant.page4096.args payload osVersion osPatchLevel ∧ osPatchLevel.1 ≠ 0 := by
  rw [page4096_argv, hword, parseCmdline_buildArgv (by simp) foldlM_pagesize]
  simp only [parseOsVersion_decode, parseOsPatchLevel_decode hy, parseInt_pyHex, Except.ok.injEq]
  constructor
  · rintro ⟨v, p, n, rfl, ⟨rfl, hne⟩, rfl, rfl⟩
    exact ⟨rfl, hne⟩
  · rintro ⟨rfl, hne⟩
    exact ⟨_, _, _, rfl, ⟨rfl, hne⟩, rfl, rfl⟩

/-- The settings for the variant with the oldest header. -/
theorem hdr0_args (osVersion : {n : ℕ // n < 2 ^ 21}) (osPatchLevel : {n : ℕ // n < 2 ^ 11}) :
    parseCmdline unicodeDigit (Variant.hdr0.argv payload header) =
      .ok (Variant.hdr0.args payload osVersion osPatchLevel) := by
  rw [hdr0_argv, parseCmdline_buildArgv (by simp) foldlM_pagesize]
  exact ⟨stockVersion, stockPatchLevel, 0, parseOsVersion_stock, parseOsPatchLevel_stock,
    parseInt_pyHex 0, rfl⟩

/-- Those for the variant like the stock image. -/
theorem stocklike_args (osVersion : {n : ℕ // n < 2 ^ 21}) (osPatchLevel : {n : ℕ // n < 2 ^ 11}) :
    parseCmdline unicodeDigit (Variant.stocklike.argv payload header) =
      .ok (Variant.stocklike.args payload osVersion osPatchLevel) := by
  have hversion : versionValue (parseOsVersion unicodeDigit) (.text "9.0.0".toList) =
      .ok stockVersion := by
    rw [versionValue, parseOsVersion_stock]
    rfl
  have hpatch : versionValue (parseOsPatchLevel unicodeDigit) (.text "2020-10".toList) =
      .ok stockPatchLevel := by
    rw [versionValue, parseOsPatchLevel_stock]
    rfl
  rw [stocklike_argv, parseCmdline, headerVersionOf]
  simp only [List.foldlM_cons, List.foldlM_nil, applyOption, fileValue, intValue_pyHex, hversion,
    hpatch, pagesizeValue_4096, ok_bind]
  rfl

/-- The options of a variant parse to its arguments; those of `page4096` only if the image has
a patch level. -/
theorem variant_args {osVersion : {n : ℕ // n < 2 ^ 21}} {osPatchLevel : {n : ℕ // n < 2 ^ 11}}
    (hy : parseOsPatchLevel unicodeDigit y = .ok osPatchLevel)
    (hword : header.osVersion = osVersion.1 <<< 11 ||| osPatchLevel.1) (variant : Variant)
    (args : Args) :
    parseCmdline unicodeDigit (variant.argv payload header) = .ok args ↔
      args = variant.args payload osVersion osPatchLevel ∧
        (variant = .page4096 → osPatchLevel.1 ≠ 0) := by
  cases variant with
  | page4096 => simpa using page4096_args hy hword args
  | hdr0 => simp [hdr0_args osVersion osPatchLevel, eq_comm]
  | stocklike => simp [stocklike_args osVersion osPatchLevel, eq_comm]

end Parse

/-! ### The files of a run -/

/-- Splitting the command line keeps the words of the header. -/
theorem splitCmdline_legacyWords (args : Args) :
    (splitCmdline args).legacyWords = args.legacyWords := by
  rw [splitCmdline]
  split <;> rfl

/-- It keeps the fields that a reader finds, too. -/
theorem splitCmdline_legacyFields (args : Args) :
    (splitCmdline args).legacyFields = args.legacyFields := by
  rw [splitCmdline]
  split <;> rfl

/-- Without a recovery dtbo, versions 0 and 1 need only their words to fit. -/
theorem legacy_of_words {args : Args} (hv : args.headerVersion = 0 ∨ args.headerVersion = 1)
    (hdtbo : args.recoveryDtbo = none) (hwords : ∀ v ∈ args.legacyWords, Fits 4 v) :
    (splitCmdline args).Legacy := by
  have hversion : (splitCmdline args).headerVersion = args.headerVersion := by
    rw [splitCmdline]
    split <;> rfl
  have hnone : (splitCmdline args).recoveryDtbo = none := by
    rw [splitCmdline]
    split <;> exact hdtbo
  constructor
  · omega
  · rw [splitCmdline_legacyWords]
    exact hwords
  · intro f hf
    simp only [Args.recoveryDtboFields, hnone, Option.isSome_none, Bool.false_eq_true,
      if_false] at hf
    split at hf
    · rcases List.mem_cons.mp hf with rfl | hf
      · decide
      · rw [List.mem_singleton.mp hf]
        decide
    · cases hf
  · intro f hf
    rw [Args.dtbFields, if_neg (by omega)] at hf
    cases hf
  · omega

/-- Words that all fit. -/
theorem fits_words {size os : ℤ} (ws : List ℤ) (hsize : Fits 4 size) (hws : ∀ v ∈ ws, Fits 4 v)
    (hos : Fits 4 os) : ∀ v ∈ size :: (ws ++ [os]), Fits 4 v := by
  intro v hv
  rcases List.mem_cons.mp hv with rfl | hv
  · exact hsize
  · rcases List.mem_append.mp hv with hv | hv
    · exact hws v hv
    · rw [List.mem_singleton.mp hv]
      exact hos

/-- A variant can be made of any kernel whose size fits a word. -/
theorem variant_legacy (hkernel : payload.length < 256 ^ 4) (osVersion : {n : ℕ // n < 2 ^ 21})
    (osPatchLevel : {n : ℕ // n < 2 ^ 11}) (variant : Variant) :
    (variant.args payload osVersion osPatchLevel).Legacy := by
  have hsize : Fits 4 (payload.length : ℤ) := fits_natCast.mpr hkernel
  have hword (args : Args) : Fits 4 (args.osWord : ℤ) := fits_natCast.mpr (osWord_lt args)
  cases variant with
  | page4096 =>
      apply legacy_of_words (.inr rfl) rfl
      exact fits_words [0x10000000, 1, 0x10000000, 0, 0, 0x10000000, 4096, 1] hsize (by decide)
        (hword _)
  | hdr0 =>
      apply legacy_of_words (.inl rfl) rfl
      exact fits_words [0x10000000, 1, 0x10000000, 0, 0, 0x10000000, 4096, 0] hsize (by decide)
        (hword _)
  | stocklike =>
      apply legacy_of_words (.inl rfl) rfl
      exact fits_words [0x8000, 1, 0x1000000, 0, 0, 0x100, 4096, 0] hsize (by decide) (hword _)

section

variable {unicodeDigit : Char → Option (Fin 10)} {sha1 : Bytes → Bytes}
variable {avbtool : Args → Bytes → Except ToolError Bytes} {x y v : Str}
variable {osVersion : {n : ℕ // n < 2 ^ 21}} {osPatchLevel : {n : ℕ // n < 2 ^ 11}}
variable {outPath : Variant → String} {image : Bytes}

/-- An image is written when its command line can be parsed and makes one. -/
theorem mux_eq_ok {argv : List (Opt × Value)} {out : Bytes} :
    mux unicodeDigit sha1 avbtool argv = .ok out ↔
      ∃ args, parseCmdline unicodeDigit argv = .ok args ∧ mkbootimg sha1 avbtool args = .ok out := by
  rw [mux, ← bind_eq_ok, ← runMkbootimg]
  split <;> simp_all

/-- A file that a run writes is the variant's image. -/
theorem of_mem_written (hy : parseOsPatchLevel unicodeDigit y = .ok osPatchLevel)
    (hword : header.osVersion = osVersion.1 <<< 11 ||| osPatchLevel.1)
    {requested : List Variant} {variant : Variant} {out : Bytes}
    (hmem : (variant, out) ∈
      (writeVariants unicodeDigit sha1 avbtool outPath payload header requested).written) :
    variant ∈ requested ∧ (variant = .page4096 → osPatchLevel.1 ≠ 0) ∧
      mkbootimg sha1 avbtool (variant.args payload osVersion osPatchLevel) = .ok out := by
  induction requested with
  | nil => cases hmem
  | cons first requested ih =>
      rw [writeVariants] at hmem
      split at hmem
      · cases hmem
      · rename_i out' hmux
        have hfirst : (first = .page4096 → osPatchLevel.1 ≠ 0) ∧
            mkbootimg sha1 avbtool (first.args payload osVersion osPatchLevel) = .ok out' := by
          obtain ⟨args, hparse, hmake⟩ := mux_eq_ok.mp hmux
          obtain ⟨rfl, hpatch⟩ := (variant_args hy hword first args).mp hparse
          exact ⟨hpatch, hmake⟩
        split at hmem
        · cases List.mem_singleton.mp hmem
          exact ⟨List.mem_cons_self, hfirst⟩
        · rcases List.mem_cons.mp hmem with heq | hmem
          · cases heq
            exact ⟨List.mem_cons_self, hfirst⟩
          · obtain ⟨hin, hrest⟩ := ih hmem
            exact ⟨List.mem_cons_of_mem first hin, hrest⟩

/-- With a patch level, every variant asked for is written. -/
theorem exists_mem_written (hy : parseOsPatchLevel unicodeDigit y = .ok osPatchLevel)
    (hword : header.osVersion = osVersion.1 <<< 11 ||| osPatchLevel.1)
    (hkernel : payload.length < 256 ^ 4) (hpatch : osPatchLevel.1 ≠ 0)
    {requested : List Variant} {variant : Variant} (hmem : variant ∈ requested) :
    ∃ out, (variant, out) ∈
      (writeVariants unicodeDigit sha1 avbtool outPath payload header requested).written := by
  induction requested with
  | nil => cases hmem
  | cons first requested ih =>
      have hlegacy := variant_legacy hkernel osVersion osPatchLevel first
      obtain ⟨out, hmake⟩ := mkbootimg_legacy_isOk sha1 avbtool hlegacy
      have hmux : mux unicodeDigit sha1 avbtool (first.argv payload header) = .ok out :=
        mux_eq_ok.mpr ⟨_, (variant_args hy hword first _).mpr ⟨rfl, fun _ => hpatch⟩, hmake⟩
      have hread := readHeader_legacy (outPath first) hlegacy.version hmake
      rw [writeVariants]
      simp only [hmux, hread]
      rcases List.mem_cons.mp hmem with rfl | hmem
      · exact ⟨out, List.mem_cons_self⟩
      · obtain ⟨out', hout'⟩ := ih hmem
        exact ⟨out', List.mem_cons_of_mem _ hout'⟩

/-! ### What the variants change -/

/-- Each variant that a run writes holds the kernel and changes only what it announces. -/
structure Faithful (outPath : Variant → String) (source : Header) (kernel : Bytes)
    (written : List (Variant × Bytes)) : Prop where
  payload : ∀ variant out, (variant, out) ∈ written →
    ∃ header, extractKernel (outPath variant) out = .ok (kernel, header)
  page4096 : ∀ out header, (.page4096, out) ∈ written →
    readHeader (outPath .page4096) out = .ok header →
    header = { source with pageSize := header.pageSize }
  hdr0 : ∀ out header out' header', (.page4096, out) ∈ written →
    readHeader (outPath .page4096) out = .ok header → (.hdr0, out') ∈ written →
    readHeader (outPath .hdr0) out' = .ok header' →
    header' = { header with
      headerVersion := header'.headerVersion
      osVersion := header'.osVersion }
  stocklike : ∀ out header out' header', (.hdr0, out) ∈ written →
    readHeader (outPath .hdr0) out = .ok header → (.stocklike, out') ∈ written →
    readHeader (outPath .stocklike) out' = .ok header' →
    header' = { header with
      kernelAddr := header'.kernelAddr
      ramdiskAddr := header'.ramdiskAddr
      secondAddr := header'.secondAddr
      tagsAddr := header'.tagsAddr }

/-- Every variant has the payload as its kernel. -/
theorem variant_kernel (variant : Variant) :
    (variant.args payload osVersion osPatchLevel).kernel.getD [] = payload := by
  cases variant <;> rfl

/-- The header of a written variant is read back. -/
theorem readHeader_variant {path : String} {variant : Variant} {out : Bytes}
    (hkernel : payload.length < 256 ^ 4)
    (hmake : mkbootimg sha1 avbtool (variant.args payload osVersion osPatchLevel) = .ok out) :
    readHeader path out = .ok (variant.args payload osVersion osPatchLevel).legacyFields :=
  readHeader_legacy path (variant_legacy hkernel osVersion osPatchLevel variant).version hmake

/-- The header that a written file reads back with. -/
theorem eq_legacyFields_of_mem_written (hy : parseOsPatchLevel unicodeDigit y = .ok osPatchLevel)
    (hword : header.osVersion = osVersion.1 <<< 11 ||| osPatchLevel.1)
    (hkernel : payload.length < 256 ^ 4) {requested : List Variant} {variant : Variant}
    {out : Bytes} (hmem : (variant, out) ∈
      (writeVariants unicodeDigit sha1 avbtool outPath payload header requested).written)
    {path : String} {read : Header} (hread : readHeader path out = .ok read) :
    read = (variant.args payload osVersion osPatchLevel).legacyFields := by
  obtain ⟨-, -, hmake⟩ := of_mem_written hy hword hmem
  exact Except.ok.inj (hread.symm.trans (readHeader_variant hkernel hmake))

/-- What the kernel was extracted from has a header. -/
theorem readHeader_of_extractKernel {path : String} {kernel : Bytes}
    (h : extractKernel path image = .ok (kernel, header)) : readHeader path image = .ok header := by
  obtain ⟨header', hread, h⟩ := bind_eq_ok.mp h
  dsimp only at h
  split at h
  · cases h
  · cases h
    exact hread

/-- The patch level is zero where the text has no year and month. -/
theorem yearMonth_eq_none_iff (hy : parseOsPatchLevel unicodeDigit y = .ok osPatchLevel) :
    yearMonth unicodeDigit y = none ↔ osPatchLevel.1 = 0 := by
  rw [parseOsPatchLevel] at hy
  split at hy
  · rename_i hnone
    cases hy
    exact iff_of_true hnone rfl
  · rename_i year m hsome
    dsimp only at hy
    split at hy
    · rename_i hrange
      cases hy
      have hle : m ≤ (year - 2000) <<< 4 ||| m := Nat.right_le_or
      rw [hsome]
      exact iff_of_false (by simp) (Nat.ne_of_gt (Nat.lt_of_lt_of_le hrange.2.2.1 hle))
    · cases hy

/-- The image `build.sh` makes, and the header that is read from it. -/
theorem runMkbootimg_buildArgv {n : ℤ} (hv : n = 0 ∨ n = 1)
    (hn : parseInt unicodeDigit v = .ok n)
    (h : runMkbootimg unicodeDigit sha1 avbtool (buildArgv kernel x y v) = .ok image) :
    ∃ osVersion osPatchLevel, parseOsPatchLevel unicodeDigit y = .ok osPatchLevel ∧
      kernel.length < 256 ^ 4 ∧ ∀ path, extractKernel path image =
        .ok (kernel, (bootArgs kernel osVersion osPatchLevel n).legacyFields) := by
  obtain ⟨args, hparse, hmake⟩ := bind_eq_ok.mp h
  rw [← List.append_nil (buildArgv kernel x y v),
    parseCmdline_buildArgv (g := id) (by simp) fun _ _ => rfl] at hparse
  obtain ⟨osVersion, osPatchLevel, n', -, hy, hn', rfl⟩ := hparse
  obtain rfl : n' = n := Except.ok.inj (hn'.symm.trans hn)
  have hversion :
      (splitCmdline (id (bootArgs kernel osVersion osPatchLevel n'))).headerVersion ≤ 2 := by
    have hsame :
        (splitCmdline (id (bootArgs kernel osVersion osPatchLevel n'))).headerVersion = n' := by
      rw [splitCmdline]
      split <;> rfl
    omega
  have hlegacy := ((mkbootimg_legacy hversion).mp hmake).1
  refine ⟨osVersion, osPatchLevel, hy, ?_, fun path => ?_⟩
  · have hfits := hlegacy.words
    rw [splitCmdline_legacyWords] at hfits
    exact fits_natCast.mp (hfits (kernel.length : ℤ) List.mem_cons_self)
  · have hextract := extractKernel_legacy path hversion hmake
    have hsame :
        (splitCmdline (id (bootArgs kernel osVersion osPatchLevel n'))).kernel = some kernel := by
      rw [splitCmdline]
      split <;> rfl
    rw [hextract, splitCmdline_legacyFields, hsame]
    rfl

end

/-- **The variants.** For an image that `build.sh` made with header version 0 or 1, the variants
that a run writes change only what they announce exactly when the header version is 1, or the
image has no patch level, or `page4096` is not asked for. -/
theorem remux_faithful (unicodeDigit : Char → Option (Fin 10)) (sha1 : Bytes → Bytes)
    (avbtool : Args → Bytes → Except ToolError Bytes) (kernel : Bytes) (x y v : Str) (n : ℤ)
    (hn : parseInt unicodeDigit v = .ok n) (hversion : n = 0 ∨ n = 1) (image : Bytes)
    (h : runMkbootimg unicodeDigit sha1 avbtool (buildArgv kernel x y v) = .ok image)
    (path : String) (source : Header) (hsource : readHeader path image = .ok source)
    (outPath : Variant → String) (requested : List Variant) :
    Faithful outPath source kernel
        (remux unicodeDigit sha1 avbtool outPath path image requested).written ↔
      n = 1 ∨ yearMonth unicodeDigit y = none ∨ .page4096 ∉ requested := by
  obtain ⟨osVersion, osPatchLevel, hy, hkernel, hextract⟩ := runMkbootimg_buildArgv hversion hn h
  obtain rfl : source = (bootArgs kernel osVersion osPatchLevel n).legacyFields :=
    Except.ok.inj (hsource.symm.trans (readHeader_of_extractKernel (hextract path)))
  have hrun : remux unicodeDigit sha1 avbtool outPath path image requested =
      writeVariants unicodeDigit sha1 avbtool outPath kernel
        (bootArgs kernel osVersion osPatchLevel n).legacyFields requested := by
    rw [remux, hextract path]
  have hword : (bootArgs kernel osVersion osPatchLevel n).legacyFields.osVersion =
      osVersion.1 <<< 11 ||| osPatchLevel.1 := rfl
  rw [hrun, yearMonth_eq_none_iff hy]
  constructor
  · intro hfaithful
    by_contra hcond
    simp only [not_or, not_not] at hcond
    obtain ⟨hne, hpatch, hmem⟩ := hcond
    obtain rfl := hversion.resolve_right hne
    have hwritten : ∃ out, (Variant.page4096, out) ∈ (writeVariants unicodeDigit sha1 avbtool outPath
        kernel (bootArgs kernel osVersion osPatchLevel 0).legacyFields requested).written :=
      exists_mem_written hy hword hkernel hpatch hmem
    obtain ⟨out, hout⟩ := hwritten
    obtain ⟨-, -, hmake⟩ := of_mem_written hy hword hout
    have hsame := hfaithful.page4096 out _ hout (readHeader_variant hkernel hmake)
    have hone : (1 : ℕ) = 0 := congrArg Header.headerVersion hsame
    cases hone
  · intro hcond
    constructor
    · intro variant out hout
      obtain ⟨-, -, hmake⟩ := of_mem_written hy hword hout
      have hlegacy := variant_legacy hkernel osVersion osPatchLevel variant
      have hpayload := extractKernel_legacy (outPath variant) hlegacy.version hmake
      rw [variant_kernel] at hpayload
      exact ⟨_, hpayload⟩
    · intro out header hout hread
      obtain ⟨hmem, hpatch, -⟩ := of_mem_written hy hword hout
      obtain rfl : n = 1 := by
        rcases hcond with hone | hzero | hnot
        · exact hone
        · exact absurd hzero (hpatch rfl)
        · exact absurd hmem hnot
      rw [eq_legacyFields_of_mem_written hy hword hkernel hout hread]
      rfl
    · intro out header out' header' hout hread hout' hread'
      rw [eq_legacyFields_of_mem_written hy hword hkernel hout hread,
        eq_legacyFields_of_mem_written hy hword hkernel hout' hread']
      rfl
    · intro out header out' header' hout hread hout' hread'
      rw [eq_legacyFields_of_mem_written hy hword hkernel hout hread,
        eq_legacyFields_of_mem_written hy hword hkernel hout' hread']
      rfl

/-- The options of the device whose image has header version 0, with a kernel of one byte. -/
def nb1Argv : List (Opt × Value) :=
  buildArgv [1] "9.0.0".toList "2020-10".toList "0".toList

/-- The image of the Nokia 8 is written. -/
theorem nb1Argv_isOk : ∃ image,
    runMkbootimg (fun _ => none) (fun _ => List.replicate 20 0)
      (fun _ _ => .error .calledProcessError) nb1Argv = .ok image := by
  have hversion : parseInt (fun _ => none) "0".toList = .ok 0 :=
    parseInt_of_ascii (ascii_of_all rfl) rfl
  have hparse : parseCmdline (fun _ => none) (nb1Argv ++ []) =
      .ok (splitCmdline (bootArgs [1] stockVersion stockPatchLevel 0)) :=
    (parseCmdline_buildArgv (g := id) (by simp) fun _ _ => rfl).mpr
      ⟨stockVersion, stockPatchLevel, 0, parseOsVersion_stock, parseOsPatchLevel_stock, hversion,
        rfl⟩
  have hlegacy : (splitCmdline (bootArgs [1] stockVersion stockPatchLevel 0)).Legacy :=
    legacy_of_words (.inl rfl) rfl (by decide)
  obtain ⟨image, himage⟩ := mkbootimg_legacy_isOk (fun _ => List.replicate 20 0)
    (fun _ _ => .error .calledProcessError) hlegacy
  rw [List.append_nil] at hparse
  exact ⟨image, bind_eq_ok.mpr ⟨_, hparse, himage⟩⟩

/-- The criterion at that image. -/
theorem remux_faithful_nb1 : ∃ image source,
    Faithful (fun _ => "out.img") source [1]
        (remux (fun _ => none) (fun _ => List.replicate 20 0)
          (fun _ _ => .error .calledProcessError) (fun _ => "out.img") "boot-nb1.img" image
          [.page4096, .hdr0, .stocklike]).written ↔
      (0 : ℤ) = 1 ∨ yearMonth (fun _ => none) "2020-10".toList = none ∨
        Variant.page4096 ∉ [Variant.page4096, .hdr0, .stocklike] := by
  obtain ⟨image, himage⟩ := nb1Argv_isOk
  have hversion : parseInt (fun _ => none) "0".toList = .ok 0 :=
    parseInt_of_ascii (ascii_of_all rfl) rfl
  obtain ⟨osVersion, osPatchLevel, -, -, hextract⟩ :=
    runMkbootimg_buildArgv (.inl rfl) hversion himage
  exact ⟨image, _, remux_faithful _ _ _ [1] _ _ _ 0 hversion (.inl rfl) image himage "boot-nb1.img" _
    (readHeader_of_extractKernel (hextract "boot-nb1.img")) _ _⟩

/-- From that image, whose header version is 0, `page4096` has header version 1. -/
theorem remux_nb1_headerVersion : ∃ image source out header,
    runMkbootimg (fun _ => none) (fun _ => List.replicate 20 0)
      (fun _ _ => .error .calledProcessError) nb1Argv = .ok image ∧
    readHeader "boot-nb1.img" image = .ok source ∧
    (Variant.page4096, out) ∈ (remux (fun _ => none) (fun _ => List.replicate 20 0)
      (fun _ _ => .error .calledProcessError) (fun _ => "out.img") "boot-nb1.img" image
      [.page4096, .hdr0, .stocklike]).written ∧
    readHeader "out.img" out = .ok header ∧ source.headerVersion = 0 ∧ header.headerVersion = 1 := by
  obtain ⟨image, himage⟩ := nb1Argv_isOk
  have hversion : parseInt (fun _ => none) "0".toList = .ok 0 :=
    parseInt_of_ascii (ascii_of_all rfl) rfl
  obtain ⟨osVersion, osPatchLevel, hy, hkernel, hextract⟩ :=
    runMkbootimg_buildArgv (.inl rfl) hversion himage
  have hpatch : osPatchLevel.1 ≠ 0 := by
    rw [parseOsPatchLevel_stock, Except.ok.injEq] at hy
    rw [← hy]
    decide
  have hwritten : ∃ out, (Variant.page4096, out) ∈ (writeVariants (fun _ => none)
      (fun _ => List.replicate 20 0) (fun _ _ => .error .calledProcessError) (fun _ => "out.img") [1]
      (bootArgs [1] osVersion osPatchLevel 0).legacyFields [.page4096, .hdr0, .stocklike]).written :=
    exists_mem_written hy rfl hkernel hpatch (by decide)
  obtain ⟨out, hout⟩ := hwritten
  obtain ⟨-, -, hmake⟩ := of_mem_written hy rfl hout
  refine ⟨image, _, out, _, himage, readHeader_of_extractKernel (hextract "boot-nb1.img"), ?_,
    readHeader_variant hkernel hmake, rfl, rfl⟩
  rw [remux, hextract]
  exact hout

end BootImage

end Msm8998
