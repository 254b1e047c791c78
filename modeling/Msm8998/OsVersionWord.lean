import Msm8998.RemuxVariants

/-!
# The Version Word of a Re-Muxed Image

`remux-boot-image.py` prints the version word of an image as two texts, and `mkbootimg.py`
reads two texts into a version word. The version always comes back. A word without a patch
level is printed with month zero, which `mkbootimg.py` refuses.

## Main results

* `hasPatchText_of_parseCmdline`: every patch level comes from a text, the default among them.
* `osWordSurvives_iff`: the word comes back exactly when it has a patch level.
-/

open Fallible

namespace Msm8998

namespace BootImage

open Fdt (Str)

/-- The texts that are printed for a version word are read back as that word. -/
def OsWordSurvives (unicodeDigit : Char → Option (Fin 10)) (word : ℕ) : Prop :=
  ∃ osVersion osPatchLevel,
    parseOsVersion unicodeDigit (decodeVersion word) = .ok osVersion ∧
    parseOsPatchLevel unicodeDigit (decodePatch word) = .ok osPatchLevel ∧
    osVersion.1 <<< 11 ||| osPatchLevel.1 = word

section

variable {unicodeDigit : Char → Option (Fin 10)} {args args' : Args} {size : ℕ}

/-- The patch level is what some text is read as. -/
def Args.HasPatchText (unicodeDigit : Char → Option (Fin 10)) (args : Args) : Prop :=
  ∃ y, parseOsPatchLevel unicodeDigit y = .ok args.osPatchLevel

/-- The default is what the empty text is read as. -/
theorem default_hasPatchText : Args.HasPatchText unicodeDigit {} := ⟨[], rfl⟩

/-- Only its own option touches the patch level, and reads it from a text. -/
theorem applyOption_hasPatchText {o : Opt × Value} (hargs : args.HasPatchText unicodeDigit)
    (h : applyOption unicodeDigit size args o = .ok args') : args'.HasPatchText unicodeDigit := by
  obtain ⟨opt, value⟩ := o
  cases opt
  case osPatchLevel =>
    obtain ⟨osPatchLevel, hvalue, h⟩ := bind_eq_ok.mp h
    cases h
    cases value with
    | file contents => cases hvalue
    | text y => exact ⟨y, typed_eq_ok.mp hvalue⟩
  all_goals
    obtain ⟨v, -, h⟩ := bind_eq_ok.mp h
    cases h
    exact hargs

/-- Splitting the command line keeps the patch level. -/
theorem splitCmdline_osPatchLevel (args : Args) :
    (splitCmdline args).osPatchLevel = args.osPatchLevel := by
  rw [splitCmdline]
  split <;> rfl

/-- Options are taken in one after another. -/
theorem foldlM_hasPatchText {argv : List (Opt × Value)} (hargs : args.HasPatchText unicodeDigit)
    (h : argv.foldlM (applyOption unicodeDigit size) args = .ok args') :
    args'.HasPatchText unicodeDigit := by
  induction argv generalizing args with
  | nil =>
      cases h
      exact hargs
  | cons o argv ih =>
      obtain ⟨next, hnext, hrest⟩ := bind_eq_ok.mp h
      exact ih (applyOption_hasPatchText hargs hnext) hrest

/-- **Where a patch level comes from.** -/
theorem hasPatchText_of_parseCmdline {argv : List (Opt × Value)}
    (h : parseCmdline unicodeDigit argv = .ok args) : args.HasPatchText unicodeDigit := by
  obtain ⟨headerVersion, -, h⟩ := bind_eq_ok.mp h
  dsimp only at h
  split at h
  · cases h
  · obtain ⟨read, hread, h⟩ := bind_eq_ok.mp h
    cases h
    obtain ⟨y, hy⟩ := foldlM_hasPatchText default_hasPatchText hread
    exact ⟨y, hy.trans (congrArg Except.ok (splitCmdline_osPatchLevel read).symm)⟩

end

/-- **The version word.** For every command line that `mkbootimg.py` takes, the version word
it writes comes back from the texts printed for it exactly when it has a patch level. -/
theorem osWordSurvives_iff (unicodeDigit : Char → Option (Fin 10)) (argv : List (Opt × Value))
    (args : Args) (h : parseCmdline unicodeDigit argv = .ok args) :
    OsWordSurvives unicodeDigit args.osWord ↔ args.osPatchLevel.1 ≠ 0 := by
  obtain ⟨y, hy⟩ := hasPatchText_of_parseCmdline h
  rw [OsWordSurvives, Args.osWord]
  simp only [parseOsVersion_decode, parseOsPatchLevel_decode hy, Except.ok.injEq]
  constructor
  · rintro ⟨v, p, rfl, ⟨rfl, hne⟩, -⟩
    exact hne
  · intro hne
    exact ⟨_, _, rfl, ⟨rfl, hne⟩, rfl⟩

/-- The word of a command line without options. -/
theorem osWordSurvives_noOptions :
    OsWordSurvives (fun _ => none) (splitCmdline {}).osWord ↔
      (splitCmdline {}).osPatchLevel.1 ≠ 0 :=
  osWordSurvives_iff _ [] _ rfl

/-- That word is zero, and the patch level `2000-00` that is printed for it is refused. -/
theorem zeroWord_refused :
    parseCmdline (fun _ => none) [] = .ok (splitCmdline {}) ∧ (splitCmdline {}).osWord = 0 ∧
      decodePatch 0 = "2000-00".toList ∧ ¬ OsWordSurvives (fun _ => none) 0 := by
  refine ⟨rfl, rfl, by decide, ?_⟩
  rintro ⟨osVersion, osPatchLevel, -, hpatch, -⟩
  have hrefused : parseOsPatchLevel (fun _ => none) (decodePatch 0) = .error .assertionError :=
    parseOsPatchLevel_format_zero (y := 0) (by omega)
  rw [hrefused] at hpatch
  cases hpatch

end BootImage

end Msm8998
