import Msm8998.Mkbootimg

/-!
# The Command Line of `mkbootimg.py`

This module models how `mkbootimg.py` reads its options: the numbers, the two regular
expressions for the operating system version and its patch level, and `parse_cmdline`. A
command line is a list of options with their values, where a file's path is stood for by the
file's contents.

Which characters beyond ASCII are decimal digits depends on the Unicode version of the
interpreter, so that table is a parameter.

## Main results

* `parseInt_pyHex`: the text that `hex` gives is read back;
* `parseOsVersion_format`, `parseOsPatchLevel_format`: the texts that the tools print for a
  version and a patch level are read back.
-/

namespace Msm8998

namespace BootImage

open Fdt (Bytes Str)

/-! ### Numbers -/

section Numbers

variable (unicodeDigit : Char → Option (Fin 10))

/-- The value of a character that `\\d` matches. -/
def decimalValue (c : Char) : Option ℕ :=
  if c.toNat < 128 then
    if 48 ≤ c.toNat ∧ c.toNat ≤ 57 then some (c.toNat - 48) else none
  else (unicodeDigit c).map Fin.val

/-- White space beyond ASCII. -/
def isUnicodeSpace (c : Char) : Bool :=
  c.toNat = 0x85 || c.toNat = 0xA0 || c.toNat = 0x1680 ||
    (0x2000 ≤ c.toNat && c.toNat ≤ 0x200A) || c.toNat = 0x2028 || c.toNat = 0x2029 ||
    c.toNat = 0x202F || c.toNat = 0x205F || c.toNat = 0x3000

/-- The ASCII character that `int` reads in place of a character. -/
def toAscii (c : Char) : Char :=
  if c.toNat < 127 then c
  else if isUnicodeSpace c then ' '
  else
    match unicodeDigit c with
    | some d => Nat.digitChar d
    | none => '?'

/-- White space that `int` allows around a number. -/
def isAsciiSpace (c : Char) : Bool := c.toNat = 32 || (9 ≤ c.toNat && c.toNat ≤ 13)

/-- The value of a digit in any base up to 36. -/
def digitValue (c : Char) : Option ℕ :=
  if 48 ≤ c.toNat ∧ c.toNat ≤ 57 then some (c.toNat - 48)
  else if 97 ≤ c.toNat ∧ c.toNat ≤ 122 then some (c.toNat - 87)
  else if 65 ≤ c.toNat ∧ c.toNat ≤ 90 then some (c.toNat - 55)
  else none

/-- Digits with single underscores between them; `prev` tells whether a digit came last. -/
def intDigits (base : ℕ) : Bool → ℕ → Str → Option ℕ
  | prev, acc, [] => if prev then some acc else none
  | prev, acc, c :: cs =>
      if c = '_' then
        if prev then intDigits base false acc cs else none
      else
        match digitValue c with
        | some d => if d < base then intDigits base true (acc * base + d) cs else none
        | none => none

/-- The digits after a prefix such as `0x`, where one underscore may come first. -/
def prefixedDigits (base : ℕ) : Str → Option ℕ
  | [] => none
  | c :: cs => intDigits base false 0 (if c = '_' then cs else c :: cs)

/-- A number without its sign; a leading zero of a decimal number allows only zeros. -/
def magnitude : Str → Option ℕ
  | '0' :: c :: cs =>
      if c = 'x' ∨ c = 'X' then prefixedDigits 16 cs
      else if c = 'o' ∨ c = 'O' then prefixedDigits 8 cs
      else if c = 'b' ∨ c = 'B' then prefixedDigits 2 cs
      else (intDigits 10 false 0 ('0' :: c :: cs)).filter (· = 0)
  | cs => intDigits 10 false 0 cs

/-- A number after white space has been removed. -/
def signedMagnitude : Str → Option ℤ
  | '+' :: cs => (magnitude cs).map Int.ofNat
  | '-' :: cs => (magnitude cs).map fun n => -(n : ℤ)
  | cs => (magnitude cs).map Int.ofNat

/-- `parse_int`, which is `int(x, 0)`. -/
def parseInt (x : Str) : Except ToolError ℤ :=
  let s := ((x.map (toAscii unicodeDigit)).dropWhile isAsciiSpace).reverse
  match signedMagnitude (s.dropWhile isAsciiSpace).reverse with
  | some v => .ok v
  | none => .error (.valueError "invalid literal for int() with base 0")

/-- `\\d{1,n}`: as many digits as there are, but at most `n`, and what follows. -/
def digitsUpTo : ℕ → Str → List ℕ × Str
  | 0, x => ([], x)
  | _ + 1, [] => ([], [])
  | n + 1, c :: cs =>
      match decimalValue unicodeDigit c with
      | some d => (d :: (digitsUpTo n cs).1, (digitsUpTo n cs).2)
      | none => ([], c :: cs)

/-- `int` of digits that were matched. -/
def groupValue (ds : List ℕ) : ℕ := ds.foldl (fun acc d => acc * 10 + d) 0

/-- A dot and up to three digits. -/
def dottedGroup : Str → Option (ℕ × Str)
  | '.' :: cs =>
      match digitsUpTo unicodeDigit 3 cs with
      | ([], _) => none
      | (d :: ds, rest) => some (groupValue (d :: ds), rest)
  | _ => none

/-- Three parts of seven bits are a version of 21. -/
theorem osVersion_lt {a b c : ℕ} (h : a < 128 ∧ b < 128 ∧ c < 128) :
    (a <<< 14 ||| b <<< 7 ||| c) < 2 ^ 21 := by
  obtain ⟨ha, hb, hc⟩ := h
  apply Nat.or_lt_two_pow
  · apply Nat.or_lt_two_pow
    · rw [Nat.shiftLeft_eq]
      omega
    · rw [Nat.shiftLeft_eq]
      omega
  · omega

/-- `parse_os_version`. -/
def parseOsVersion (x : Str) : Except ToolError {n : ℕ // n < 2 ^ 21} :=
  match digitsUpTo unicodeDigit 3 x with
  | ([], _) => .ok ⟨0, Nat.two_pow_pos 21⟩
  | (d :: ds, rest) =>
      let a := groupValue (d :: ds)
      let second := dottedGroup unicodeDigit rest
      let b := (second.map Prod.fst).getD 0
      let third := second.bind fun g => dottedGroup unicodeDigit g.2
      let c := (third.map Prod.fst).getD 0
      if h : a < 128 ∧ b < 128 ∧ c < 128 then
        .ok ⟨a <<< 14 ||| b <<< 7 ||| c, osVersion_lt h⟩
      else .error .assertionError

/-- A year of seven bits and a month are a level of 11. -/
theorem osPatchLevel_lt {y m : ℕ} (h : y < 128 ∧ 0 < m ∧ m ≤ 12) :
    (y <<< 4 ||| m) < 2 ^ 11 := by
  obtain ⟨hy, -, hm⟩ := h
  apply Nat.or_lt_two_pow
  · rw [Nat.shiftLeft_eq]
    omega
  · omega

/-- The year and the month at the start of a text: `(\\d{4})-(\\d{2})`. -/
def yearMonth (x : Str) : Option (ℕ × ℕ) :=
  match digitsUpTo unicodeDigit 4 x with
  | ([d₁, d₂, d₃, d₄], '-' :: rest) =>
      match digitsUpTo unicodeDigit 2 rest with
      | ([e₁, e₂], _) => some (groupValue [d₁, d₂, d₃, d₄], groupValue [e₁, e₂])
      | _ => none
  | _ => none

/-- `parse_os_patch_level`; the year must not be before 2000. -/
def parseOsPatchLevel (x : Str) : Except ToolError {n : ℕ // n < 2 ^ 11} :=
  match yearMonth unicodeDigit x with
  | none => .ok ⟨0, Nat.two_pow_pos 11⟩
  | some (year, m) =>
      let y := year - 2000
      if h : 2000 ≤ year ∧ y < 128 ∧ 0 < m ∧ m ≤ 12 then
        .ok ⟨y <<< 4 ||| m, osPatchLevel_lt h.2⟩
      else .error .assertionError

end Numbers

/-! ### Numbers printed and read back -/

/-- `hex(n)`. -/
def pyHex (n : ℕ) : Str := '0' :: 'x' :: Nat.toDigits 16 n

/-- `"%d" % n`. -/
def pyDecimal (n : ℕ) : Str := Nat.toDigits 10 n

/-- `"%02d" % n`. -/
def pyDecimal2 (n : ℕ) : Str := List.replicate (2 - (pyDecimal n).length) '0' ++ pyDecimal n

section

variable {unicodeDigit : Char → Option (Fin 10)} {b : ℕ}

/-- The digits of a number, as numbers. -/
theorem toDigits_spec (hb : 1 < b) (n : ℕ) : ∃ ds : List ℕ, ds ≠ [] ∧
    Nat.toDigits b n = ds.map Nat.digitChar ∧ (∀ d ∈ ds, d < b) ∧
    ds.foldl (fun acc d => acc * b + d) 0 = n := by
  induction n using Nat.strongRecOn with
  | ind n ih =>
      by_cases hn : n < b
      · exact ⟨[n], by simp, by rw [Nat.toDigits_of_lt_base hn]; rfl, by simpa using hn, by simp⟩
      · have hdiv : n / b < n := Nat.div_lt_self (by omega) hb
        obtain ⟨ds, hne, hds, hlt, hval⟩ := ih (n / b) hdiv
        refine ⟨ds ++ [n % b], by simp, ?_, ?_, ?_⟩
        · rw [Nat.toDigits_of_base_le hb (by omega), hds, List.map_append]
          rfl
        · intro d hd
          rcases List.mem_append.mp hd with hd | hd
          · exact hlt d hd
          · rw [List.mem_singleton.mp hd]
            exact Nat.mod_lt n (by omega)
        · rw [List.foldl_append, hval, List.foldl_cons, List.foldl_nil, Nat.mul_comm]
          exact Nat.div_add_mod n b

/-- What a digit is to the readers. -/
theorem digitChar_spec : ∀ d < 16, digitValue (Nat.digitChar d) = some d ∧
    (Nat.digitChar d).toNat < 127 ∧ Nat.digitChar d ≠ '_' ∧
    isAsciiSpace (Nat.digitChar d) = false := by
  decide

/-- The digits of a number are read back. -/
theorem intDigits_digits (hb : b ≤ 16) {ds : List ℕ} (hds : ∀ d ∈ ds, d < b) (hne : ds ≠ [])
    (prev : Bool) (acc : ℕ) : intDigits b prev acc (ds.map Nat.digitChar) =
      some (ds.foldl (fun acc d => acc * b + d) acc) := by
  induction ds generalizing prev acc with
  | nil => exact absurd rfl hne
  | cons d ds ih =>
      obtain ⟨hd, hrest⟩ := List.forall_mem_cons.mp hds
      obtain ⟨hvalue, -, hunderscore, -⟩ := digitChar_spec d (by omega)
      rw [List.map_cons, intDigits, if_neg hunderscore, hvalue]
      simp only [if_pos hd, List.foldl_cons]
      cases ds with
      | nil => rfl
      | cons e ds => exact ih hrest (by simp) true (acc * b + d)

/-- Nothing is dropped where nothing is to be dropped. -/
theorem dropWhile_eq_self {p : Char → Bool} {cs : Str} (h : ∀ c ∈ cs, p c = false) :
    cs.dropWhile p = cs := by
  cases cs with
  | nil => rfl
  | cons c cs => rw [List.dropWhile_cons, if_neg (by simp [h c List.mem_cons_self])]

/-- The test that a text has only ASCII characters, and no white space. -/
theorem ascii_of_all {x : Str}
    (h : x.all (fun c => decide (c.toNat < 127) && !isAsciiSpace c) = true) :
    ∀ c ∈ x, c.toNat < 127 ∧ isAsciiSpace c = false := by
  intro c hc
  have htest := List.all_eq_true.mp h c hc
  simpa using htest

/-- A text of ASCII characters without white space is read as it stands. -/
theorem parseInt_of_ascii {x : Str} {v : ℤ}
    (hx : ∀ c ∈ x, c.toNat < 127 ∧ isAsciiSpace c = false) (hv : signedMagnitude x = some v) :
    parseInt unicodeDigit x = .ok v := by
  have hmap : x.map (toAscii unicodeDigit) = x := by
    rw [List.map_congr_left (g := id), List.map_id]
    intro c hc
    exact if_pos (hx c hc).1
  have hfront : x.dropWhile isAsciiSpace = x := dropWhile_eq_self fun c hc => (hx c hc).2
  have hback : x.reverse.dropWhile isAsciiSpace = x.reverse :=
    dropWhile_eq_self fun c hc => (hx c (List.mem_reverse.mp hc)).2
  simp only [parseInt, hmap, hfront, hback, List.reverse_reverse, hv]

/-- What `hex` prints is read back. -/
theorem parseInt_pyHex (n : ℕ) : parseInt unicodeDigit (pyHex n) = .ok n := by
  obtain ⟨ds, hne, hds, hlt, hval⟩ := toDigits_spec (b := 16) (by omega) n
  have hascii : ∀ c ∈ pyHex n, c.toNat < 127 ∧ isAsciiSpace c = false := by
    intro c hc
    rw [pyHex, hds] at hc
    rcases List.mem_cons.mp hc with rfl | hc
    · decide
    · rcases List.mem_cons.mp hc with rfl | hc
      · decide
      · obtain ⟨d, hd, rfl⟩ := List.mem_map.mp hc
        obtain ⟨-, hlow, -, hspace⟩ := digitChar_spec d (hlt d hd)
        exact ⟨hlow, hspace⟩
  refine parseInt_of_ascii hascii ?_
  have hdigits := intDigits_digits (b := 16) (by omega) hlt hne false 0
  obtain ⟨c, cs, hcons⟩ := List.exists_cons_of_ne_nil (l := ds.map Nat.digitChar) (by simpa using hne)
  have hc : c ≠ '_' := by
    obtain ⟨d, hd, rfl⟩ := List.mem_map.mp (hcons ▸ List.mem_cons_self : c ∈ ds.map Nat.digitChar)
    exact (digitChar_spec d (hlt d hd)).2.2.1
  have hprefixed : prefixedDigits 16 (Nat.toDigits 16 n) = some n := by
    rw [hds, hcons, prefixedDigits, if_neg hc, ← hcons, hdigits, hval]
  simp [pyHex, signedMagnitude, magnitude, hprefixed]

/-- A digit has its value. -/
theorem decimalValue_digitChar : ∀ d < 10,
    decimalValue unicodeDigit (Nat.digitChar d) = some d := by
  intro d hd
  have hd' := digitChar_spec d (by omega)
  have hrange : ∀ d < 10, 48 ≤ (Nat.digitChar d).toNat ∧ (Nat.digitChar d).toNat ≤ 57 ∧
      (Nat.digitChar d).toNat - 48 = d := by decide
  obtain ⟨hlo, hhi, hval⟩ := hrange d hd
  rw [decimalValue, if_pos (by omega), if_pos ⟨hlo, hhi⟩, hval]

/-- No digit stands at the start. -/
def NoDigit (unicodeDigit : Char → Option (Fin 10)) (rest : Str) : Prop :=
  ∀ c ∈ rest.head?, decimalValue unicodeDigit c = none

/-- Digits are matched up to the bound, or to the first character that is none. -/
theorem digitsUpTo_digits (n : ℕ) {ds : List ℕ} (rest : Str) (hds : ∀ d ∈ ds, d < 10)
    (hlen : ds.length ≤ n) (hrest : ds.length = n ∨ NoDigit unicodeDigit rest) :
    digitsUpTo unicodeDigit n (ds.map Nat.digitChar ++ rest) = (ds, rest) := by
  induction ds generalizing n with
  | nil =>
      cases n with
      | zero => rfl
      | succ n =>
          obtain hrest := hrest.resolve_left (by simp)
          cases rest with
          | nil => rfl
          | cons c cs =>
              have hc := hrest c rfl
              simp only [List.map_nil, List.nil_append, digitsUpTo, hc]
  | cons d ds ih =>
      obtain ⟨hd, hds⟩ := List.forall_mem_cons.mp hds
      cases n with
      | zero => simp at hlen
      | succ n =>
          have hih := ih n hds (by simpa using hlen) (by simpa using hrest)
          simp only [List.map_cons, List.cons_append, digitsUpTo, decimalValue_digitChar d hd, hih]

/-- The digits of a decimal number. -/
theorem pyDecimal_spec {k n : ℕ} (hk : 0 < k) (hn : n < 10 ^ k) : ∃ d ds,
    pyDecimal n = (d :: ds).map Nat.digitChar ∧ (∀ e ∈ d :: ds, e < 10) ∧
    (d :: ds).length ≤ k ∧ groupValue (d :: ds) = n := by
  obtain ⟨ds, hne, hds, hlt, hval⟩ := toDigits_spec (b := 10) (by omega) n
  obtain ⟨d, ds, rfl⟩ := List.exists_cons_of_ne_nil hne
  refine ⟨d, ds, hds, hlt, ?_, hval⟩
  have hlen := (Nat.length_toDigits_le_iff (b := 10) (by omega) hk).mpr hn
  rwa [hds, List.length_map] at hlen

/-- A dot ends a number. -/
theorem dot_noDigit (rest : Str) : NoDigit unicodeDigit ('.' :: rest) := by
  intro c hc
  obtain rfl := Option.some.inj hc
  rfl

/-- So does the end of the text. -/
theorem nil_noDigit : NoDigit unicodeDigit [] := by
  intro c hc
  cases hc

/-- A number below 128 after a dot is matched. -/
theorem dottedGroup_pyDecimal {n : ℕ} {rest : Str} (hn : n < 128)
    (hrest : NoDigit unicodeDigit rest) :
    dottedGroup unicodeDigit ('.' :: (pyDecimal n ++ rest)) = some (n, rest) := by
  obtain ⟨d, ds, hdec, hlt, hlen, hval⟩ := pyDecimal_spec (k := 3) (n := n) (by omega) (by omega)
  simp only [dottedGroup, hdec, digitsUpTo_digits 3 rest hlt hlen (.inr hrest), hval]

/-- The text that the tools print for a version is read back. -/
theorem parseOsVersion_format {a b c : ℕ} (h : a < 128 ∧ b < 128 ∧ c < 128) :
    parseOsVersion unicodeDigit
        (pyDecimal a ++ '.' :: (pyDecimal b ++ '.' :: (pyDecimal c ++ []))) =
      .ok ⟨a <<< 14 ||| b <<< 7 ||| c, osVersion_lt h⟩ := by
  obtain ⟨d, ds, hdec, hlt, hlen, hval⟩ :=
    pyDecimal_spec (k := 3) (n := a) (by omega) (by omega)
  have hfirst : digitsUpTo unicodeDigit 3 ((d :: ds).map Nat.digitChar ++
      '.' :: (pyDecimal b ++ '.' :: (pyDecimal c ++ []))) = (d :: ds, _) :=
    digitsUpTo_digits 3 _ hlt hlen (.inr (dot_noDigit _))
  have hsecond : dottedGroup unicodeDigit ('.' :: (pyDecimal b ++ '.' :: (pyDecimal c ++ []))) =
      some (b, _) := dottedGroup_pyDecimal h.2.1 (dot_noDigit _)
  have hthird : dottedGroup unicodeDigit ('.' :: (pyDecimal c ++ [])) = some (c, []) :=
    dottedGroup_pyDecimal h.2.2 nil_noDigit
  simp only [parseOsVersion, hdec, hfirst, hsecond, hval, Option.map_some, Option.getD_some,
    Option.bind_some, hthird, dif_pos h]

/-- Two digits are printed for a month. -/
theorem pyDecimal2_spec {n : ℕ} (hn : n < 16) : ∃ e₁ e₂,
    pyDecimal2 n = [e₁, e₂].map Nat.digitChar ∧ (∀ e ∈ [e₁, e₂], e < 10) ∧
    groupValue [e₁, e₂] = n := by
  have hall : ∀ n < 16, pyDecimal2 n = [n / 10, n % 10].map Nat.digitChar ∧
      groupValue [n / 10, n % 10] = n ∧ n / 10 < 10 ∧ n % 10 < 10 := by decide
  obtain ⟨hdec, hval, hhigh, hlow⟩ := hall n hn
  exact ⟨n / 10, n % 10, hdec, by simp [hhigh, hlow], hval⟩

/-- The text that the tools print for a patch level is matched. -/
theorem yearMonth_format {y m : ℕ} (hy : y < 128) (hm : m < 16) :
    yearMonth unicodeDigit (pyDecimal (2000 + y) ++ '-' :: pyDecimal2 m) =
      some (2000 + y, m) := by
  obtain ⟨d, ds, hdec, hlt, hlen, hval⟩ :=
    pyDecimal_spec (k := 4) (n := 2000 + y) (by omega) (by omega)
  obtain ⟨e₁, e₂, hmonth, helt, hmval⟩ := pyDecimal2_spec hm
  have hlong : ¬ (d :: ds).length ≤ 3 := by
    intro hle
    have hsmall := (Nat.length_toDigits_le_iff (b := 10) (k := 3) (n := 2000 + y)
      (by omega) (by omega)).mp
      (by rw [← pyDecimal, hdec, List.length_map]; exact hle)
    omega
  have hfour : (d :: ds).length = 4 := by omega
  have hmatch : digitsUpTo unicodeDigit 4 ((d :: ds).map Nat.digitChar ++ '-' :: pyDecimal2 m) =
      (d :: ds, _) := digitsUpTo_digits 4 _ hlt hlen (.inl hfour)
  have hrest : digitsUpTo unicodeDigit 2 ([e₁, e₂].map Nat.digitChar ++ []) = ([e₁, e₂], []) :=
    digitsUpTo_digits 2 [] helt (by simp) (.inl rfl)
  rw [List.append_nil, ← hmonth] at hrest
  obtain ⟨d₂, d₃, d₄, rfl⟩ := List.length_eq_three.mp (by simpa using hfour)
  rw [yearMonth, hdec, hmatch]
  simp only [hrest, hval, hmval]

/-- A patch level as it is printed is read back. -/
theorem parseOsPatchLevel_format {y m : ℕ} (h : y < 128 ∧ 0 < m ∧ m ≤ 12) :
    parseOsPatchLevel unicodeDigit (pyDecimal (2000 + y) ++ '-' :: pyDecimal2 m) =
      .ok ⟨y <<< 4 ||| m, osPatchLevel_lt h⟩ := by
  rw [parseOsPatchLevel, yearMonth_format h.1 (by omega)]
  simp only [Nat.add_sub_cancel_left]
  rw [dif_pos ⟨by omega, h⟩]

/-- Month zero, which is what the tools print when there is no patch level, is refused. -/
theorem parseOsPatchLevel_format_zero {y : ℕ} (hy : y < 128) :
    parseOsPatchLevel unicodeDigit (pyDecimal (2000 + y) ++ '-' :: pyDecimal2 0) =
      .error .assertionError := by
  rw [parseOsPatchLevel, yearMonth_format hy (by omega)]
  exact dif_neg (by simp)

/-- The patch levels that are accepted. -/
theorem parseOsPatchLevel_cases {x : Str} {p : {n : ℕ // n < 2 ^ 11}}
    (h : parseOsPatchLevel unicodeDigit x = .ok p) :
    p.1 = 0 ∨ ∃ y m, (y < 128 ∧ 0 < m ∧ m ≤ 12) ∧ p.1 = y <<< 4 ||| m := by
  rw [parseOsPatchLevel] at h
  split at h
  · cases h
    exact .inl rfl
  · dsimp only at h
    split at h
    · rename_i year m hmatch hrange
      cases h
      exact .inr ⟨_, m, hrange.2, rfl⟩
    · cases h

end

/-- `AsciizBytes(bufsize)(arg)`. -/
def asciizBytes (bufsize : ℕ) (arg : Str) : Except ToolError Bytes :=
  let argBytes := arg.flatMap String.utf8EncodeChar ++ [0]
  if argBytes.length > bufsize then
    .error (.argumentTypeError ("Encoded asciiz length exceeded: max " ++ toString bufsize ++
      ", got " ++ toString argBytes.length))
  else .ok argBytes

/-! ### `parse_cmdline` -/

/-- The options of the boot image. -/
inductive Opt
  | kernel | ramdisk | second | dtb | recoveryDtbo | recoveryAcpio | cmdline | base
  | kernelOffset | ramdiskOffset | secondOffset | dtbOffset | osVersion | osPatchLevel
  | tagsOffset | board | pagesize | headerVersion | gkiSigningAlgorithm | gkiSigningKey
  | gkiSigningSignatureArgs | gkiSigningAvbtoolPath
deriving Repr, DecidableEq

/-- A value on the command line: a text, or the path of a file with these contents. -/
inductive Value
  | text (x : Str)
  | file (contents : Bytes)
deriving Repr, DecidableEq

/-- `argparse` turns two exceptions of a `type` function into an error of its own. -/
def typed {α : Type} : Except ToolError α → Except ToolError α
  | .error (.valueError _) => .error .parserError
  | .error (.argumentTypeError _) => .error .parserError
  | r => r

/-- An error of a value type does not change a success. -/
theorem typed_eq_ok {α : Type} {r : Except ToolError α} {a : α} : typed r = .ok a ↔ r = .ok a := by
  cases r with
  | ok b => rfl
  | error e => cases e <;> simp [typed]

section Cmdline

variable (unicodeDigit : Char → Option (Fin 10))

/-- A value of `type=parse_int`. -/
def intValue : Value → Except ToolError ℤ
  | .text x => typed (parseInt unicodeDigit x)
  | .file _ => .error .parserError

/-- A value of `type=AsciizBytes(bufsize)`. -/
def asciizValue (bufsize : ℕ) : Value → Except ToolError Bytes
  | .text x => typed (asciizBytes bufsize x)
  | .file _ => .error .parserError

/-- A value of `type=FileType('rb')`. -/
def fileValue : Value → Except ToolError Bytes
  | .text _ => .error .parserError
  | .file contents => .ok contents

/-- A value without a `type`. -/
def textValue : Value → Except ToolError Str
  | .text x => .ok x
  | .file _ => .error .parserError

/-- A value of one of the two version options. -/
def versionValue {α : Type} (parse : Str → Except ToolError α) : Value → Except ToolError α
  | .text x => typed (parse x)
  | .file _ => .error .parserError

/-- The value of `--pagesize`. -/
def pagesizeValue (value : Value) : Except ToolError {n : ℕ // n ∈ pagesizeChoices} := do
  let v ← intValue unicodeDigit value
  if h : 0 ≤ v ∧ v.toNat ∈ pagesizeChoices then .ok ⟨v.toNat, h.2⟩ else .error .parserError

/-- Take in one option. -/
def applyOption (cmdlineSize : ℕ) (args : Args) (o : Opt × Value) : Except ToolError Args :=
  match o.1 with
  | .kernel => do return { args with kernel := some (← fileValue o.2) }
  | .ramdisk => do return { args with ramdisk := some (← fileValue o.2) }
  | .second => do return { args with second := some (← fileValue o.2) }
  | .dtb => do return { args with dtb := some (← fileValue o.2) }
  | .recoveryDtbo => do return { args with recoveryDtbo := some (← fileValue o.2) }
  | .recoveryAcpio => do return { args with recoveryDtbo := some (← fileValue o.2) }
  | .cmdline => do return { args with cmdline := ← asciizValue cmdlineSize o.2 }
  | .base => do return { args with base := ← intValue unicodeDigit o.2 }
  | .kernelOffset => do return { args with kernelOffset := ← intValue unicodeDigit o.2 }
  | .ramdiskOffset => do return { args with ramdiskOffset := ← intValue unicodeDigit o.2 }
  | .secondOffset => do return { args with secondOffset := ← intValue unicodeDigit o.2 }
  | .dtbOffset => do return { args with dtbOffset := ← intValue unicodeDigit o.2 }
  | .osVersion => do
      return { args with osVersion := ← versionValue (parseOsVersion unicodeDigit) o.2 }
  | .osPatchLevel => do
      return { args with osPatchLevel := ← versionValue (parseOsPatchLevel unicodeDigit) o.2 }
  | .tagsOffset => do return { args with tagsOffset := ← intValue unicodeDigit o.2 }
  | .board => do return { args with board := ← asciizValue bootNameSize o.2 }
  | .pagesize => do return { args with pagesize := ← pagesizeValue unicodeDigit o.2 }
  | .headerVersion => do return { args with headerVersion := ← intValue unicodeDigit o.2 }
  | .gkiSigningAlgorithm => do return { args with gkiSigningAlgorithm := some (← textValue o.2) }
  | .gkiSigningKey => do return { args with gkiSigningKey := some (← textValue o.2) }
  | .gkiSigningSignatureArgs => do
      return { args with gkiSigningSignatureArgs := some (← textValue o.2) }
  | .gkiSigningAvbtoolPath => do
      return { args with gkiSigningAvbtoolPath := some (← textValue o.2) }

/-- What `version_parser` finds. -/
def headerVersionOf (argv : List (Opt × Value)) : Except ToolError ℤ :=
  argv.foldlM
    (fun v o => if o.1 = .headerVersion then intValue unicodeDigit o.2 else .ok v) 0

/-- The command line is split where the first of its two fields ends. -/
def splitCmdline (args : Args) : Args :=
  if args.headerVersion < 3 then
    { args with
      extraCmdline := args.cmdline.drop (bootArgsSize - 1)
      cmdline := args.cmdline.take (bootArgsSize - 1) ++ [0] }
  else args

/-- `parse_cmdline`. Of `--recovery_dtbo` and `--recovery_acpio` only one may be given. -/
def parseCmdline (argv : List (Opt × Value)) : Except ToolError Args := do
  let headerVersion ← headerVersionOf unicodeDigit argv
  let cmdlineSize :=
    if headerVersion < 3 then bootArgsSize + bootExtraArgsSize - 1
    else bootArgsSize + bootExtraArgsSize
  if .recoveryDtbo ∈ argv.map Prod.fst ∧ .recoveryAcpio ∈ argv.map Prod.fst then
    .error .parserError
  else do
    let args ← argv.foldlM (applyOption unicodeDigit cmdlineSize) {}
    return splitCmdline args

end Cmdline

end BootImage

end Msm8998
