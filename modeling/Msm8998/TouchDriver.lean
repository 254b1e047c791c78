import Mathlib.Algebra.Group.Nat.Defs
import Mathlib.Data.Nat.Count
import Msm8998.StatusCode

/-!
# The Touch Controller Driver

This module models `Rmi4AbsolutePointerDriverBindingStart` of `SynapticsTouchDxe`, with
`SynaPowerUpController`, `SynaI2cRead` and `SynaI2cWrite`.

What the driver does not decide is an environment: the result of each boot service, the
handle the I2C driver gives out, and the outcome of every single transfer, so that the
controller may answer differently on every read and fail at any of them. A successful
read fills the whole buffer.

The results of `CreateEvent` and `AbsStartPolling` are overwritten before they are looked
at, the name table is never read back, and the protocol pointer of the I2C driver has been
called through before `SynaI2cRead` compares it with `NULL`; these are left out.
-/

namespace Msm8998

namespace Touch

def touchRmiPageInfoBytes : UInt8 := 6
def touchRmiPageInfoAddress : UInt8 := 0xE9
def touchRmiMaxFunctions : UInt8 := 10
def touchRmiF12Function : UInt8 := 0x12
def rmiChangePageAddress : UInt8 := 0xFF

/-- One entry of a page description table, as `InfoData` holds it. -/
abbrev InfoData := Vector UInt8 6

/-- `InfoData[3]`, where the data registers of the function start. -/
def InfoData.dataBase (infoData : InfoData) : UInt8 := infoData[3]

/-- `InfoData[5]`, the number of the function; zero ends the table. -/
def InfoData.function (infoData : InfoData) : UInt8 := infoData[5]

/-- `SYNAPTICS_I2C_DEVICE`, with the GPIO protocol pointer reduced to whether it is set. -/
structure Rmi4Device where
  xMax : UInt32
  yMax : UInt32
  xMin : UInt32
  yMin : UInt32
  controllerResetPin : UInt32
  controllerVddPin : UInt32
  controllerVddIoPin : UInt32
  controllerVddCtlActiveLow : Bool
  controllerI2cDevice : UInt32
  gpioTlmmProtocol : Bool
deriving Repr, DecidableEq

/-- `RMI4_INTERNAL_DATA`; the null handle is `0`. -/
structure Instance where
  rmi4Device : Rmi4Device
  absoluteMaxX : UInt64
  absoluteMaxY : UInt64
  i2cController : ℕ
  initialized : Bool
  pageF12 : UInt8
  touchDataAddress : UInt32
deriving Repr, DecidableEq

/-- What the driver makes the platform do, in order. -/
inductive Event
  | i2cOpen (device : UInt32) (handle : ℕ)
  | i2cClose (handle : ℕ)
  | configGpio (pin : UInt32)
  | gpioOut (pin : UInt32) (high : Bool)
  | i2cRead (address : UInt8) (data : Option InfoData)
  | i2cWrite (address : UInt8) (data : UInt8) (ok : Bool)
deriving Repr, DecidableEq

/-- The outcome of every call that one `Start` makes: the status and the device of
`OpenProtocol`, the handle of the I2C `Open`, the `k`-th read, the `k`-th write, and the
status of `InstallProtocolInterface`. -/
structure Env where
  openStatus : StatusCode
  device : Rmi4Device
  openI2c : Option ℕ
  read : ℕ → Option InfoData
  write : ℕ → Bool
  installStatus : StatusCode

/-- The transfers made so far and everything that went out. -/
structure Bus where
  reads : ℕ
  writes : ℕ
  trace : List Event

/-- Record one event. -/
def Bus.log (bus : Bus) (e : Event) : Bus := { bus with trace := bus.trace ++ [e] }

@[simp] theorem Bus.log_writes (bus : Bus) (e : Event) : (bus.log e).writes = bus.writes := rfl
@[simp] theorem Bus.log_trace (bus : Bus) (e : Event) :
    (bus.log e).trace = bus.trace ++ [e] := rfl

/-- `SynaI2cRead` of one entry into `data`. -/
def synaI2cRead (env : Env) (inst : Instance) (address : UInt8) (data : InfoData) (bus : Bus) :
    StatusCode × InfoData × Bus :=
  if inst.i2cController = 0 then (efiInvalidParameter, data, bus)
  else
    let called := { bus with reads := bus.reads + 1 }
    match env.read bus.reads with
    | none => (efiDeviceError, data, called.log (.i2cRead address none))
    | some d => (efiSuccess, d, called.log (.i2cRead address (some d)))

/-- `SynaI2cWrite` of one byte. -/
def synaI2cWrite (env : Env) (inst : Instance) (address data : UInt8) (bus : Bus) :
    StatusCode × Bus :=
  if inst.i2cController = 0 then (efiInvalidParameter, bus)
  else
    let called := { bus with writes := bus.writes + 1 }
    let ok := env.write bus.writes
    (if ok then efiSuccess else efiDeviceError, called.log (.i2cWrite address data ok))

/-- Switch on one supply whose control pin is given; pin `0` means that there is none. -/
def supplyOn (pin : UInt32) (activeLow : Bool) (bus : Bus) : Bus :=
  if pin ≠ 0 then (bus.log (.configGpio pin)).log (.gpioOut pin (!activeLow)) else bus

/-- `SynaPowerUpController`. The results of the GPIO calls are overwritten. -/
def synaPowerUpController (inst : Instance) (bus : Bus) : StatusCode × Bus :=
  let device := inst.rmi4Device
  if !device.gpioTlmmProtocol then (efiInvalidParameter, bus)
  else
    let resetLine := device.controllerResetPin
    if resetLine ≤ 0 then (efiInvalidParameter, bus)
    else
      let bus := supplyOn device.controllerVddPin device.controllerVddCtlActiveLow bus
      let bus := supplyOn device.controllerVddIoPin device.controllerVddCtlActiveLow bus
      let bus := bus.log (.configGpio resetLine)
      let bus := bus.log (.gpioOut resetLine false)
      (efiSuccess, bus.log (.gpioOut resetLine true))

/-! ### The probe -/

/-- The variables of the probe loop. -/
structure Probe where
  inst : Instance
  infoData : InfoData
  address : UInt8
  page : UInt8
  function : UInt8
  status : StatusCode
  bus : Bus

/-- How one pass of the loop body ends: at the loop condition, at a `break`, or at a
`goto exit`. -/
inductive Flow
  | condition (p : Probe)
  | leave (p : Probe)
  | exit (p : Probe)

/-- One pass of the loop body. -/
def probeStep (env : Env) (p : Probe) : Flow :=
  let (status, infoData, bus) := synaI2cRead env p.inst p.address p.infoData p.bus
  let p := { p with status, infoData, bus }
  if efiError status then .exit p
  else if infoData.function = touchRmiF12Function then
    .leave { p with inst := { p.inst with
      pageF12 := p.page, touchDataAddress := infoData.dataBase.toUInt32 } }
  else if infoData.function = 0 ∧ p.address = touchRmiPageInfoAddress then .leave p
  else if infoData.function = 0 ∧ p.address ≠ touchRmiPageInfoAddress then
    let page := p.page + 1
    let (status, bus) := synaI2cWrite env p.inst rmiChangePageAddress page p.bus
    let p := { p with page, address := touchRmiPageInfoAddress, status, bus }
    if efiError status then .exit p else .condition p
  else .condition { p with
    function := p.function + 1, address := p.address - touchRmiPageInfoBytes }

/-- The `do … while` loop; `none` when the fuel is spent. -/
def probeLoop (env : Env) : ℕ → Probe → Option Flow
  | 0, _ => none
  | fuel + 1, p =>
      match probeStep env p with
      | .condition p' =>
          if p'.address > 0 ∧ p'.function < touchRmiMaxFunctions then probeLoop env fuel p'
          else some (.leave p')
      | stop => some stop

/-- Enough passes for every controller. -/
def probeFuel : ℕ := 20

/-! ### Starting the driver -/

/-- The two global pointers of the driver. -/
structure Globals where
  rmi4I2cDeviceIo : Option Rmi4Device
  i2cInstance : Option Instance

/-- What `Start` leaves behind: its status, the instance it allocated, whether the
absolute-pointer protocol went onto the controller, the globals, and the bus. -/
structure StartRun where
  status : StatusCode
  inst : Option Instance
  installed : Bool
  globals : Globals
  bus : Bus

/-- The template copied by `AllocateCopyPool`, with the device filled in. -/
def newInstance (device : Rmi4Device) : Instance :=
  { rmi4Device := device
    absoluteMaxX := (device.xMax - device.xMin).toUInt64
    absoluteMaxY := (device.yMax - device.yMin).toUInt64
    i2cController := 0
    initialized := false
    pageF12 := 0
    touchDataAddress := 0 }

/-- The code at the label `exit`, reached after the I2C handle was opened. -/
def exitStart (status : StatusCode) (inst : Instance) (installed : Bool) (bus : Bus) : StartRun :=
  { status, installed
    inst := some inst
    globals := ⟨some inst.rmi4Device, some inst⟩
    bus := if status = efiDeviceError then bus.log (.i2cClose inst.i2cController) else bus }

/-- What follows the probe loop: the result is taken from the loop variables. -/
def finishProbe (env : Env) (p : Probe) : StartRun :=
  if p.function ≥ touchRmiMaxFunctions then exitStart efiDeviceError p.inst false p.bus
  else if p.address ≤ 0 then exitStart efiDeviceError p.inst false p.bus
  else exitStart env.installStatus { p.inst with initialized := true }
    (!efiError env.installStatus) p.bus

/-- Where the loop hands over to. -/
def afterLoop (env : Env) : Flow → StartRun
  | .exit p => exitStart p.status p.inst false p.bus
  | .leave p | .condition p => finishProbe env p

/-- The variables of the probe loop on entry. -/
def startProbe (inst : Instance) (bus : Bus) : Probe :=
  { inst, bus
    infoData := Vector.replicate 6 0
    address := touchRmiPageInfoAddress
    page := 0
    function := 0
    status := efiSuccess }

/-- `Rmi4AbsolutePointerDriverBindingStart`; `none` only when the fuel of the probe loop
is spent. -/
def rmi4AbsolutePointerDriverBindingStart (env : Env) (globals : Globals) : Option StartRun :=
  let idle : Bus := ⟨0, 0, []⟩
  if efiError env.openStatus then some ⟨env.openStatus, none, false, globals, idle⟩
  else
    let inst := newInstance env.device
    match env.openI2c with
    | none => some ⟨efiDeviceError, some inst, false, globals, idle⟩
    | some handle =>
        let inst := { inst with i2cController := handle }
        let bus := idle.log (.i2cOpen env.device.controllerI2cDevice handle)
        let (status, bus) := synaPowerUpController inst bus
        if efiError status then some (exitStart status inst false bus)
        else
          (probeLoop env probeFuel (startProbe inst bus)).map (afterLoop env)

end Touch

end Msm8998
