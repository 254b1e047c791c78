import Msm8998.IntervalShift
import Msm8998.TouchDriver

/-!
# Reported Touch Coordinates

This module adds the polling of `SynapticsTouchDxe` to its model: `SyncGetTouchData`,
`SyncPollCallback` and `AbsPGetState`. The driver advertises each axis as the interval from
zero to the length of the range of raw coordinates.

A raw coordinate is moved away from zero by the minimum of its axis where it should be moved
towards zero. In 16 bits the two are the same only for a minimum of zero, or of half the
range.

## Main results

* `getState_eq`: what the state holds after a poll that read a sample;
* `coordinatesFaithful_iff`: for which ranges the reported coordinates span the advertised
  ones.
-/

namespace Msm8998

namespace Touch


@[simp] theorem efiError_efiNotReady : efiError efiNotReady = true := rfl

/-- `TOUCH_DATA_BYTES` bytes of data registers. -/
abbrev TouchCoordinates := Vector UInt8 8

/-- `TOUCH_DATA`. -/
structure TouchData where
  touchX : UInt16
  touchY : UInt16
  touchStatus : UInt8
deriving Repr, DecidableEq

/-- `EFI_ABSOLUTE_POINTER_STATE`. -/
structure AbsolutePointerState where
  currentX : UInt64
  currentY : UInt64
  currentZ : UInt64
  activeButtons : UInt32
deriving Repr, DecidableEq

/-- `RMI4_INTERNAL_DATA` with the members that polling uses, and the two inversion settings of
its device. -/
structure Pointer where
  inst : Instance
  xInverted : Bool
  yInverted : Bool
  lastX : UInt16
  lastY : UInt16
  stateChanged : Bool
deriving Repr, DecidableEq

/-- The outcomes of the transfers of one poll: whether the page switch works, and the data
registers if the read does. -/
structure PollEnv where
  write : Bool
  read : Option TouchCoordinates

/-- The status of `SynaI2cRead` and `SynaI2cWrite`, given whether the transfer works. -/
def transferStatus (inst : Instance) (ok : Bool) : StatusCode :=
  if inst.i2cController = 0 then efiInvalidParameter
  else if ok then efiSuccess else efiDeviceError

/-- Two registers, the low byte first. -/
def coordinate (low high : UInt8) : UInt16 :=
  (low.toUInt16 &&& (0xFF : UInt16)) ||| ((high.toUInt16 &&& (0xFF : UInt16)) <<< (8 : UInt16))

/-- What `SyncGetTouchData` stores into its buffer. -/
def touchData (registers : TouchCoordinates) : TouchData where
  touchStatus := registers[0]
  touchX := coordinate registers[1] registers[2]
  touchY := coordinate registers[3] registers[4]

/-- `SyncGetTouchData`. -/
def syncGetTouchData (env : PollEnv) (inst : Instance) : Except StatusCode TouchData :=
  if !inst.initialized then .error efiNotReady
  else
    let status := transferStatus inst env.write
    if efiError status then .error status
    else
      let status := transferStatus inst env.read.isSome
      match env.read with
      | some c => if efiError status then .error status else .ok (touchData c)
      | none => .error status

/-- One coordinate in `SyncPollCallback`: the sum is 32 bits wide and the difference 64, and
both are stored into 16. -/
def lastCoordinate (touch : UInt16) (min : UInt32) (inverted : Bool) (absoluteMax : UInt64) :
    UInt16 :=
  let last := (touch.toUInt32 + min).toUInt16
  if inverted then (absoluteMax - last.toUInt64).toUInt16 else last

/-- `SyncPollCallback`. -/
def syncPollCallback (env : PollEnv) (p : Pointer) : Pointer :=
  match syncGetTouchData env p.inst with
  | .error _ => p
  | .ok data =>
      if data.touchStatus > 0 then
        { p with
          lastX := lastCoordinate data.touchX p.inst.rmi4Device.xMin p.xInverted
            p.inst.absoluteMaxX
          lastY := lastCoordinate data.touchY p.inst.rmi4Device.yMin p.yInverted
            p.inst.absoluteMaxY
          stateChanged := true }
      else p

/-- `AbsPGetState`: the state or the error, and the instance after the call. -/
def absPGetState (p : Pointer) : Except StatusCode AbsolutePointerState × Pointer :=
  if !p.stateChanged then (.error efiNotReady, p)
  else
    (.ok { currentX := p.lastX.toUInt64, currentY := p.lastY.toUInt64, currentZ := 0,
           activeButtons := 1 },
      { p with stateChanged := false })

/-! ### What is reported -/

/-- The raw range of one axis: 16-bit coordinates between two 32-bit settings. -/
structure AxisRange (min max : UInt32) : Prop where
  le : min ≤ max
  max_le : max ≤ 65535

/-- The device is polled: `Start` set the limits of both axes and opened the bus. -/
structure Pointer.Live (p : Pointer) : Prop where
  initialized : p.inst.initialized = true
  handle : p.inst.i2cController ≠ 0
  absoluteMaxX : p.inst.absoluteMaxX = (newInstance p.inst.rmi4Device).absoluteMaxX
  absoluteMaxY : p.inst.absoluteMaxY = (newInstance p.inst.rmi4Device).absoluteMaxY

/-- A poll whose transfers work and that reads a touch with both coordinates in range. -/
structure PollEnv.Samples (env : PollEnv) (device : Rmi4Device) (data : TouchData) : Prop where
  write : env.write = true
  read : env.read.map touchData = some data
  touched : 0 < data.touchStatus
  x : data.touchX.toNat ∈ Set.Icc device.xMin.toNat device.xMax.toNat
  y : data.touchY.toNat ∈ Set.Icc device.yMin.toNat device.yMax.toNat

/-- **The reported coordinates are faithful**: there are maps from raw to reported coordinates
that span what is advertised, in the order of the raw ones or in the opposite order on an
inverted axis, and after every poll the state holds what they give. -/
def CoordinatesFaithful (p : Pointer) : Prop :=
  ∃ reportX reportY : ℕ → ℕ,
    Spans p.inst.rmi4Device.xMin.toNat p.inst.rmi4Device.xMax.toNat p.inst.absoluteMaxX.toNat
      p.xInverted reportX ∧
    Spans p.inst.rmi4Device.yMin.toNat p.inst.rmi4Device.yMax.toNat p.inst.absoluteMaxY.toNat
      p.yInverted reportY ∧
    ∀ env data, env.Samples p.inst.rmi4Device data →
      ∃ state, (absPGetState (syncPollCallback env p)).1 = .ok state ∧
        state.currentX.toNat = reportX data.touchX.toNat ∧
        state.currentY.toNat = reportY data.touchY.toNat

/-- After a poll that read a sample, the state holds its two coordinates. -/
theorem getState_eq {p : Pointer} (h : p.Live) {env : PollEnv} {data : TouchData}
    (henv : env.Samples p.inst.rmi4Device data) :
    (absPGetState (syncPollCallback env p)).1 = .ok
      { currentX := (lastCoordinate data.touchX p.inst.rmi4Device.xMin p.xInverted
          p.inst.absoluteMaxX).toUInt64
        currentY := (lastCoordinate data.touchY p.inst.rmi4Device.yMin p.yInverted
          p.inst.absoluteMaxY).toUInt64
        currentZ := 0
        activeButtons := 1 } := by
  obtain ⟨c, hc, hdata⟩ := Option.map_eq_some_iff.mp henv.read
  have htouched := henv.touched
  have hget : syncGetTouchData env p.inst = .ok data := by
    simp [syncGetTouchData, transferStatus, h.initialized, h.handle, henv.write, hc, hdata]
  simp only [syncPollCallback, hget, gt_iff_lt, htouched, if_true, absPGetState, Bool.not_true,
    Bool.false_eq_true, if_false]

/-! ### One axis -/

/-- The ends of an axis, in order and in 16 bits. -/
theorem AxisRange.bounds {min max : UInt32} (hrange : AxisRange min max) :
    min.toNat ≤ max.toNat ∧ max.toNat ≤ 65535 :=
  ⟨UInt32.le_iff_toNat_le.mp hrange.le, UInt32.le_iff_toNat_le.mp hrange.max_le⟩

/-- The lower end of a range is a raw coordinate. -/
theorem AxisRange.low {min max : UInt32} (hrange : AxisRange min max) :
    (UInt16.ofNat min.toNat).toNat = min.toNat := by
  obtain ⟨hle, hmax⟩ := hrange.bounds
  exact UInt16.toNat_ofNat_of_lt' (by rw [UInt16.size]; omega)

/-- The lower end is on the axis. -/
theorem AxisRange.low_mem {min max : UInt32} (hrange : AxisRange min max) :
    (UInt16.ofNat min.toNat).toNat ∈ Set.Icc min.toNat max.toNat := by
  rw [hrange.low]
  exact ⟨le_rfl, hrange.bounds.1⟩

/-- Where a raw coordinate ends up. -/
theorem lastCoordinate_toNat {min max : UInt32} (hrange : AxisRange min max) (touch : UInt16)
    (inverted : Bool) :
    (lastCoordinate touch min inverted (max - min).toUInt64).toNat =
      if inverted then
        (max.toNat - min.toNat + 65536 - (touch.toNat + min.toNat) % 65536) % 65536
      else (touch.toNat + min.toNat) % 65536 := by
  obtain ⟨hle, hmax⟩ := hrange.bounds
  have htouch := touch.toNat_lt
  have hlast : (touch.toUInt32 + min).toUInt16.toNat = (touch.toNat + min.toNat) % 65536 := by
    rw [UInt32.toNat_toUInt16, UInt32.toNat_add, UInt16.toNat_toUInt32]
    omega
  rw [lastCoordinate]
  cases inverted with
  | false => exact hlast
  | true =>
      have hsub := UInt32.toNat_sub_of_le max min hrange.le
      simp only [if_true, UInt64.toNat_toUInt16, UInt64.toNat_sub, UInt32.toNat_toUInt64,
        UInt16.toNat_toUInt64, hsub, hlast]
      omega

/-- The minimum of an axis can be added as well as subtracted: twice the minimum is a multiple
of what a coordinate wraps at. -/
def SignFree (min : UInt32) : Prop := min = 0 ∨ min = 32768

/-- For the minimum of an axis, this is that twice the minimum is a multiple of 65536. -/
theorem signFree_iff {min max : UInt32} (hrange : AxisRange min max) :
    SignFree min ↔ 2 * min.toNat % 65536 = 0 := by
  obtain ⟨hle, hmax⟩ := hrange.bounds
  rw [SignFree, ← UInt32.toNat_inj, ← UInt32.toNat_inj]
  change min.toNat = 0 ∨ min.toNat = 32768 ↔ _
  omega

/-- **One axis.** The coordinates stored for a range are the distances from its end exactly
when the minimum may have either sign. -/
theorem lastCoordinate_eq_endDistance_iff {min max : UInt32} (hrange : AxisRange min max)
    (inverted : Bool) :
    (∀ touch : UInt16, touch.toNat ∈ Set.Icc min.toNat max.toNat →
      (lastCoordinate touch min inverted (max - min).toUInt64).toNat =
        endDistance min.toNat max.toNat inverted touch.toNat) ↔ SignFree min := by
  obtain ⟨hle, hmax⟩ := hrange.bounds
  rw [signFree_iff hrange]
  constructor
  · intro h
    -- the lower end of the range tells
    have hend := h (UInt16.ofNat min.toNat) hrange.low_mem
    rw [lastCoordinate_toNat hrange, hrange.low, endDistance] at hend
    cases inverted with
    | false =>
        simp only [Bool.false_eq_true, if_false] at hend
        omega
    | true =>
        simp only [if_true] at hend
        omega
  · rintro h touch ⟨hlo, hhi⟩
    rw [lastCoordinate_toNat hrange, endDistance]
    cases inverted with
    | false =>
        simp only [Bool.false_eq_true, if_false]
        omega
    | true =>
        simp only [if_true]
        omega

/-! ### Both axes -/

/-- What two registers hold. -/
theorem coordinate_toNat (low high : UInt8) :
    (coordinate low high).toNat = high.toNat * 256 + low.toNat := by
  have hlow : low.toNat < 2 ^ 8 := low.toNat_lt
  have hhigh := high.toNat_lt
  have hmask : ∀ b : UInt8, (b.toUInt16 &&& (0xFF : UInt16)).toNat = b.toNat := by
    intro b
    have hb := b.toNat_lt
    rw [UInt16.toNat_and, UInt8.toNat_toUInt16]
    exact (Nat.and_two_pow_sub_one_eq_mod b.toNat 8).trans (Nat.mod_eq_of_lt hb)
  rw [coordinate, UInt16.toNat_or, UInt16.toNat_shiftLeft, hmask, hmask, Nat.or_comm]
  change high.toNat <<< 8 % 2 ^ 16 ||| low.toNat = _
  rw [Nat.mod_eq_of_lt (by rw [Nat.shiftLeft_eq]; omega),
    ← Nat.shiftLeft_add_eq_or_of_lt hlow, Nat.shiftLeft_eq]

/-- Every pair of coordinates is read from some registers. -/
theorem exists_touchData (x y : UInt16) :
    ∃ c, touchData c = { touchX := x, touchY := y, touchStatus := 1 } := by
  have hbytes : ∀ z : UInt16, coordinate z.toUInt8 (z >>> 8).toUInt8 = z := by
    intro z
    have hz := z.toNat_lt
    rw [← UInt16.toNat_inj, coordinate_toNat, UInt16.toNat_toUInt8, UInt16.toNat_toUInt8,
      UInt16.toNat_shiftRight]
    change z.toNat >>> 8 % 2 ^ 8 * 256 + z.toNat % 2 ^ 8 = _
    rw [Nat.shiftRight_eq_div_pow]
    omega
  refine ⟨#v[1, x.toUInt8, (x >>> 8).toUInt8, y.toUInt8, (y >>> 8).toUInt8, 0, 0, 0], ?_⟩
  exact congrArg₂ (fun a b => TouchData.mk a b 1) (hbytes x) (hbytes y)

/-- The limits that a live device advertises. -/
theorem Pointer.Live.absoluteMax {p : Pointer} (h : p.Live)
    (hx : AxisRange p.inst.rmi4Device.xMin p.inst.rmi4Device.xMax)
    (hy : AxisRange p.inst.rmi4Device.yMin p.inst.rmi4Device.yMax) :
    p.inst.absoluteMaxX.toNat = p.inst.rmi4Device.xMax.toNat - p.inst.rmi4Device.xMin.toNat ∧
      p.inst.absoluteMaxY.toNat =
        p.inst.rmi4Device.yMax.toNat - p.inst.rmi4Device.yMin.toNat := by
  rw [h.absoluteMaxX, h.absoluteMaxY, newInstance, UInt32.toNat_toUInt64, UInt32.toNat_toUInt64,
    UInt32.toNat_sub_of_le _ _ hx.le, UInt32.toNat_sub_of_le _ _ hy.le]
  exact ⟨rfl, rfl⟩

/-- What the state is to hold after every poll is what is stored for every pair of raw
coordinates. -/
theorem sample_eq {p : Pointer} (h : p.Live) {reportX reportY : ℕ → ℕ}
    (hreport : ∀ env data, env.Samples p.inst.rmi4Device data →
      ∃ state, (absPGetState (syncPollCallback env p)).1 = .ok state ∧
        state.currentX.toNat = reportX data.touchX.toNat ∧
        state.currentY.toNat = reportY data.touchY.toNat)
    {x y : UInt16}
    (hx : x.toNat ∈ Set.Icc p.inst.rmi4Device.xMin.toNat p.inst.rmi4Device.xMax.toNat)
    (hy : y.toNat ∈ Set.Icc p.inst.rmi4Device.yMin.toNat p.inst.rmi4Device.yMax.toNat) :
    (lastCoordinate x p.inst.rmi4Device.xMin p.xInverted p.inst.absoluteMaxX).toNat =
        reportX x.toNat ∧
      (lastCoordinate y p.inst.rmi4Device.yMin p.yInverted p.inst.absoluteMaxY).toNat =
        reportY y.toNat := by
  obtain ⟨c, hc⟩ := exists_touchData x y
  have henv : PollEnv.Samples ⟨true, some c⟩ p.inst.rmi4Device ⟨x, y, 1⟩ :=
    ⟨rfl, congrArg some hc, show (0 : UInt8) < 1 by decide, hx, hy⟩
  obtain ⟨state, hstate, hstateX, hstateY⟩ := hreport _ _ henv
  rw [getState_eq h henv] at hstate
  cases hstate
  rw [← hstateX, ← hstateY]
  exact ⟨UInt16.toNat_toUInt64 _, UInt16.toNat_toUInt64 _⟩

/-- **When the reported coordinates are faithful.** On a live device with 16-bit ranges, the
coordinates that `AbsPGetState` returns after a poll span the advertised ranges exactly when
both minima are zero or half of what a coordinate wraps at. -/
theorem coordinatesFaithful_iff {p : Pointer} (h : p.Live)
    (hx : AxisRange p.inst.rmi4Device.xMin p.inst.rmi4Device.xMax)
    (hy : AxisRange p.inst.rmi4Device.yMin p.inst.rmi4Device.yMax) :
    CoordinatesFaithful p ↔
      SignFree p.inst.rmi4Device.xMin ∧ SignFree p.inst.rmi4Device.yMin := by
  obtain ⟨hmaxX, hmaxY⟩ := h.absoluteMax hx hy
  have hlimitX : p.inst.absoluteMaxX =
      (p.inst.rmi4Device.xMax - p.inst.rmi4Device.xMin).toUInt64 := h.absoluteMaxX
  have hlimitY : p.inst.absoluteMaxY =
      (p.inst.rmi4Device.yMax - p.inst.rmi4Device.yMin).toUInt64 := h.absoluteMaxY
  have hxle := hx.bounds.1
  have hyle := hy.bounds.1
  rw [← lastCoordinate_eq_endDistance_iff hx p.xInverted,
    ← lastCoordinate_eq_endDistance_iff hy p.yInverted, ← hlimitX, ← hlimitY]
  constructor
  · rintro ⟨reportX, reportY, hspansX, hspansY, hreport⟩
    rw [hmaxX, Spans.iff_forall hxle] at hspansX
    rw [hmaxY, Spans.iff_forall hyle] at hspansY
    -- a coordinate of one axis is sampled with the lower end of the other
    refine ⟨fun x hxmem => ?_, fun y hymem => ?_⟩
    · rw [(sample_eq h hreport hxmem hy.low_mem).1, hspansX _ hxmem]
    · rw [(sample_eq h hreport hx.low_mem hymem).2, hspansY _ hymem]
  · rintro ⟨heqX, heqY⟩
    refine ⟨endDistance _ _ p.xInverted, endDistance _ _ p.yInverted,
      hmaxX ▸ (Spans.iff_forall hxle).mpr fun _ _ => rfl,
      hmaxY ▸ (Spans.iff_forall hyle).mpr fun _ _ => rfl, fun env data henv => ?_⟩
    refine ⟨_, getState_eq h henv, ?_, ?_⟩
    · rw [UInt16.toNat_toUInt64]
      exact heqX data.touchX henv.x
    · rw [UInt16.toNat_toUInt64]
      exact heqY data.touchY henv.y

/-- A live device with a range of raw coordinates. -/
def pointerWith (xMin xMax yMin yMax : UInt32) (inverted : Bool) : Pointer where
  inst := { newInstance
      { xMin, xMax, yMin, yMax, controllerResetPin := 89, controllerVddPin := 0,
        controllerVddIoPin := 0, controllerVddCtlActiveLow := false, controllerI2cDevice := 5,
        gpioTlmmProtocol := true } with
    i2cController := 1, initialized := true }
  xInverted := inverted
  yInverted := inverted
  lastX := 0
  lastY := 0
  stateChanged := false

/-- The pointer is live. -/
theorem pointerWith_live (xMin xMax yMin yMax : UInt32) (inverted : Bool) :
    (pointerWith xMin xMax yMin yMax inverted).Live :=
  ⟨rfl, nofun, rfl, rfl⟩

/-- A panel whose ranges start at zero, with both axes inverted. -/
theorem coordinatesFaithful_zero : CoordinatesFaithful (pointerWith 0 1079 0 1919 true) :=
  (coordinatesFaithful_iff (pointerWith_live ..) ⟨by decide, by decide⟩
    ⟨by decide, by decide⟩).mpr ⟨.inl rfl, .inl rfl⟩

/-- A panel whose raw coordinates start at 100: the last column is reported 100 past the
limit. -/
theorem not_coordinatesFaithful_offset :
    ¬ CoordinatesFaithful (pointerWith 100 1179 0 1919 false) := by
  rintro ⟨reportX, reportY, hspansX, -, hreport⟩
  obtain ⟨c, hc⟩ := exists_touchData 1179 0
  have henv : PollEnv.Samples ⟨true, some c⟩ (pointerWith 100 1179 0 1919 false).inst.rmi4Device
      ⟨1179, 0, 1⟩ := ⟨rfl, congrArg some hc, by decide, by decide, by decide⟩
  obtain ⟨state, hstate, hstateX, -⟩ := hreport _ _ henv
  rw [getState_eq (pointerWith_live ..) henv] at hstate
  cases hstate
  have hmem : reportX 1179 ∈ Set.Icc 0 1079 := hspansX.bijOn.mapsTo (by decide)
  have hreported : (1279 : ℕ) = reportX 1179 := hstateX
  rw [← hreported] at hmem
  exact absurd hmem.2 (by decide)

end Touch

end Msm8998
