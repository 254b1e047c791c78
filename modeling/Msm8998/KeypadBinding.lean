import Msm8998.Custody
import Msm8998.KeypadNotify
import Msm8998.KeypadToggles

/-!
# The Driver Binding of the Keypad

`KeypadControllerDriverSupported`, `Start` and `Stop` with everything that they take from the boot
services: the keypad device protocol, the memory of the device, its events, its name table, the
memory of the registrations, and the two text-input interfaces. What the boot services answer is
an input of each call.

The periodic timer may go off inside a `Start` once it is set. The protocol database is modelled
by the one controller, whose interfaces are there when the driver has installed them. That
`OpenProtocol` does not open the keypad device again for a driver that has it is an assumption on
the runs, `DriverCall.Fits`.
-/

namespace Msm8998

namespace Keypad

namespace Binding

variable {α : Type} [Keyed α]

/-! ### What the driver takes -/

/-- The events of the device, by the field that stores them. -/
inductive EventKind
  | waitForKey
  | waitForKeyEx
  | timer
  | keyNotifyProcess
  deriving DecidableEq, Repr

/-- What the driver takes from the boot services. A device is named by its address, and what is
stored in it says in which. -/
inductive Resource
  | keypadDevice
  | consoleIn (pool : ℕ)
  | event (kind : EventKind) (event consoleIn : ℕ)
  | names (table consoleIn : ℕ)
  | notify (node consoleIn : ℕ)
  | interfaces (consoleIn : ℕ)
  deriving DecidableEq, Repr

inductive Action
  | acquire (r : Resource)
  | release (r : Resource)
  deriving DecidableEq, Repr

/-- What must be there as long as a resource is. All that is stored in a device needs its memory.
The timer and the interfaces, which are used from outside, need the keypad device as well.
`KeypadWaitForKey` reads the keypad device too, but it runs only when somebody waits on one of the
two events. These are handed out as fields of the interfaces, which need the keypad device
themselves, so nobody waits on them any more once `Stop` has taken the interfaces away. -/
def Resource.rests : Resource → List Resource
  | .keypadDevice | .consoleIn _ => []
  | .event .timer _ p | .interfaces p => [.consoleIn p, .keypadDevice]
  | .event _ _ p | .names _ p | .notify _ p => [.consoleIn p]

/-- The books of the boot services. -/
def services : Custody Action Resource where
  acquires
    | .acquire r => some r
    | .release _ => none
  releases
    | .acquire _ => none
    | .release r => some r
  rests a b := b ∈ a.rests

/-! ### The device -/

/-- `KEYPAD_CONSOLE_IN_DEV` with its address, its events and its name table, `none` for `NULL`. -/
@[ext]
structure ConsoleIn (α : Type) where
  pool : ℕ
  events : EventKind → Option ℕ
  controllerNameTable : Option ℕ
  dev : KeypadConsoleInDev α

/-- The device memory as `AllocateZeroPool` and the assignments after it leave it. -/
def zeroed [Inhabited α] : KeypadConsoleInDev α :=
  let queue : EfiKeyQueue α := ⟨fun _ => default, 0, 0⟩
  { last := 0xFFFFFFFFFFFFFFFF, modifiers := {}, capsLock := false, numLock := false,
    scrollLock := false, isSupportPartialKey := false, efiKeyQueue := queue,
    efiKeyQueueForNotify := queue, keypadErr := false, notifyList := [] }

def ConsoleIn.setEvent (c : ConsoleIn α) (kind : EventKind) (event : Option ℕ) : ConsoleIn α :=
  { c with events := Function.update c.events kind event }

variable (consoleIn : ConsoleIn α)

/-- `CloseEvent` on a field that is not `NULL`. -/
def closeEvent (kind : EventKind) : List Action :=
  match consoleIn.events kind with
  | none => []
  | some event => [.release (.event kind event consoleIn.pool)]

/-- `KbdFreeNotifyList`. -/
def kbdFreeNotifyList : List Action :=
  consoleIn.dev.notifyList.map fun notifyNode => .release (.notify notifyNode.handle consoleIn.pool)

/-- `FreeUnicodeStringTable`, which does nothing for `NULL`. -/
def freeUnicodeStringTable : List Action :=
  match consoleIn.controllerNameTable with
  | none => []
  | some table => [.release (.names table consoleIn.pool)]

/-- The label `ErrorExit`, for a device that was allocated. -/
def errorExit : List Action :=
  closeEvent consoleIn .waitForKey ++ closeEvent consoleIn .timer ++
    closeEvent consoleIn .waitForKeyEx ++ closeEvent consoleIn .keyNotifyProcess ++
    kbdFreeNotifyList consoleIn ++ freeUnicodeStringTable consoleIn ++
    [.release (.consoleIn consoleIn.pool), .release .keypadDevice]

/-! ### `KeypadControllerDriverStart` -/

/-- The outcomes of the calls that one `Start` makes: of `OpenProtocol`, of `AllocateZeroPool`, of
`CreateEvent` for each event, of `SetTimer`, of `AddUnicodeString2` and of
`InstallMultipleProtocolInterfaces`; and the polls of the timer before and after the reset. -/
structure StartEnv (α : Type) where
  openStatus : UInt64
  pool : Option ℕ
  event : EventKind → Option ℕ
  setTimerStatus : UInt64
  early : List (Poll α)
  controllerNameTable : Option ℕ
  late : List (Poll α)
  installStatus : UInt64

/-- The device under construction and what was done so far. -/
structure Setup (α : Type) where
  consoleIn : ConsoleIn α
  trace : List Action

/-- A part of `Start`, which jumps to `ErrorExit` with a status or goes on. -/
abbrev Stage (α : Type) := Setup α → Except (UInt64 × Setup α) (Setup α)

def createEvent (kind : EventKind) (event : Option ℕ) : Stage α := fun s =>
  match event with
  | none => .error (Status.outOfResources.code, s)
  | some e =>
      .ok ⟨s.consoleIn.setEvent kind (some e),
        s.trace ++ [.acquire (.event kind e s.consoleIn.pool)]⟩

def setTimer (status : UInt64) : Stage α := fun s =>
  if efiError status then .error (Status.outOfResources.code, s) else .ok s

/-- The timer goes off. -/
def Setup.ticks (s : Setup α) (polls : List (Poll α)) : Setup α :=
  { s with consoleIn := { s.consoleIn with dev := polls.foldl keypadTimerHandler s.consoleIn.dev } }

/-- `ConInEx.Reset`. -/
def reset : Stage α := fun s =>
  let (status, dev) := keypadEfiReset s.consoleIn.dev
  let s := { s with consoleIn := { s.consoleIn with dev := dev } }
  if efiError status.code then .error (Status.deviceError.code, s) else .ok s

/-- `AddUnicodeString2`, whose status is not looked at. -/
def Setup.addUnicodeString2 (s : Setup α) (table : Option ℕ) : Setup α :=
  match table with
  | none => s
  | some t =>
      ⟨{ s.consoleIn with controllerNameTable := some t },
        s.trace ++ [.acquire (.names t s.consoleIn.pool)]⟩

def installMultipleProtocolInterfaces (status : UInt64) : Stage α := fun s =>
  if efiError status then .error (status, s)
  else .ok { s with trace := s.trace ++ [.acquire (.interfaces s.consoleIn.pool)] }

/-- The part of `Start` that may jump to `ErrorExit` with a device. -/
def setUp (env : StartEnv α) : Stage α := fun s => do
  let s ← createEvent .waitForKey (env.event .waitForKey) s
  let s ← createEvent .waitForKeyEx (env.event .waitForKeyEx) s
  let s ← createEvent .timer (env.event .timer) s
  let s ← setTimer env.setTimerStatus s
  let s ← createEvent .keyNotifyProcess (env.event .keyNotifyProcess) (s.ticks env.early)
  let s ← reset s
  installMultipleProtocolInterfaces env.installStatus
    ((s.addUnicodeString2 env.controllerNameTable).ticks env.late)

/-- What a `Start` leaves behind: its status, the device whose interfaces it installed, and what
it did. -/
structure StartRun (α : Type) where
  status : UInt64
  consoleIn : Option (ConsoleIn α)
  trace : List Action

/-- The device before its first event. -/
def Setup.init [Inhabited α] (pool : ℕ) : Setup α :=
  ⟨⟨pool, fun _ => none, none, zeroed⟩, [.acquire .keypadDevice, .acquire (.consoleIn pool)]⟩

/-- `KeypadControllerDriverStart`; `none` when `ErrorExit` follows the list of the device that
was not allocated. -/
def keypadControllerDriverStart [Inhabited α] (env : StartEnv α) : Option (StartRun α) :=
  if efiError env.openStatus then some ⟨env.openStatus, none, []⟩
  else
    match env.pool with
    | none => none
    | some pool =>
        match setUp env (.init pool) with
        | .error (status, s) => some ⟨status, none, s.trace ++ errorExit s.consoleIn⟩
        | .ok s => some ⟨env.installStatus, some s.consoleIn, s.trace⟩

/-! ### `KeypadControllerDriverSupported` and `KeypadControllerDriverStop` -/

/-- `KeypadControllerDriverSupported`. -/
def keypadControllerDriverSupported (openStatus : UInt64) : UInt64 × List Action :=
  if efiError openStatus then (openStatus, [])
  else (openStatus, [.acquire .keypadDevice, .release .keypadDevice])

/-- The outcomes of the calls that one `Stop` makes. -/
structure StopEnv where
  openStatus : UInt64
  testStatus : UInt64
  uninstallStatus : UInt64

/-- The end of `KeypadControllerDriverStop`, once the interfaces are gone. -/
def freeOtherResources : List Action :=
  closeEvent consoleIn .waitForKey ++ closeEvent consoleIn .waitForKeyEx ++
    closeEvent consoleIn .keyNotifyProcess ++ kbdFreeNotifyList consoleIn ++
    freeUnicodeStringTable consoleIn ++ [.release (.consoleIn consoleIn.pool)]

/-- `KeypadControllerDriverStop`, on the device whose interfaces are installed. -/
def keypadControllerDriverStop (env : StopEnv) : Option (ConsoleIn α) → StartRun α
  | none => ⟨Status.unsupported.code, none, []⟩
  | some consoleIn =>
      if efiError env.openStatus then ⟨env.openStatus, some consoleIn, []⟩
      else if efiError env.testStatus then ⟨env.testStatus, some consoleIn, []⟩
      else
        let stopped := consoleIn.setEvent .timer none
        if efiError env.uninstallStatus then
          ⟨env.uninstallStatus, some stopped, closeEvent consoleIn .timer⟩
        else
          ⟨Status.success.code, none, closeEvent consoleIn .timer ++
            [.release (.interfaces stopped.pool), .release .keypadDevice] ++
            freeOtherResources stopped⟩

/-! ### Sequences of calls -/

/-- The memory that an entry takes or gives back. -/
def entryTrace : Event α → List Action
  | .notify (.register (some key) fn out pool) =>
      if out = true ∧ fn ≠ 0 ∧ alreadyRegistered consoleIn.dev key fn = none ∧ pool ≠ 0 then
        [.acquire (.notify pool consoleIn.pool)]
      else []
  | .notify (.unregister handle) =>
      if handle ≠ 0 ∧ consoleIn.dev.notifyList.any (·.handle == handle) = true then
        [.release (.notify handle consoleIn.pool)]
      else []
  | _ => []

/-- The timer goes off only as long as its event is open. -/
def reaches : Event α → Bool
  | .timer _ => (consoleIn.events .timer).isSome
  | _ => true

/-- A call of the driver binding, or an entry through the interfaces and events of the device. -/
inductive DriverCall (α : Type)
  | supported (openStatus : UInt64)
  | start (env : StartEnv α)
  | stop (env : StopEnv)
  | entry (e : Event α)

/-- The driver between calls: the device whose interfaces are installed, and what was done. -/
structure Driver (α : Type) where
  consoleIn : Option (ConsoleIn α)
  trace : List Action

def Driver.init : Driver α := ⟨none, []⟩

/-- One call, and its status. An entry finds a device only when one is installed. -/
def Driver.step [Inhabited α] (d : Driver α) : DriverCall α → Option (UInt64 × Driver α)
  | .supported openStatus =>
      let (status, trace) := keypadControllerDriverSupported openStatus
      some (status, { d with trace := d.trace ++ trace })
  | .start env =>
      (keypadControllerDriverStart env).map fun run =>
        (run.status, ⟨run.consoleIn.or d.consoleIn, d.trace ++ run.trace⟩)
  | .stop env =>
      let run := keypadControllerDriverStop env d.consoleIn
      some (run.status, ⟨run.consoleIn, d.trace ++ run.trace⟩)
  | .entry e =>
      match d.consoleIn with
      | none => some (Status.success.code, d)
      | some c =>
          if reaches c e then
            some (Status.success.code,
              ⟨some { c with dev := e.step c.dev }, d.trace ++ entryTrace c e⟩)
          else some (Status.success.code, d)

end Binding

end Keypad

end Msm8998
