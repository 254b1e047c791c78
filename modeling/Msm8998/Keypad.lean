import Msm8998.RingBuffer

/-!
# The Keypad Driver

The part of `KeypadDxe` behind the two text-input protocols: the key queues, the API through
which the keypad device hands in keys, the readers, `Reset`, `SetState` and the key
notifications. A critical section of the driver is one step of the model.

The driver copies `EFI_KEY_DATA` whole and looks at it only through its fields, so the queues
and all functions on them are generic in what carries the key data. The driver itself is the
instance `EfiKeyData`; a carrier with a label tells two presses of one key apart.

What the device does in `GetKeys` is an input of the poll: the keys that it hands in.
-/

namespace Msm8998

namespace Keypad

/-! ### Keys -/

inductive Status
  | success
  | notReady
  | deviceError
  | invalidParameter
  | outOfResources
  | unsupported
  deriving DecidableEq, Repr

def scanNull : UInt16 := 0
def charNull : UInt16 := 0

def efiRightControlPressed : UInt32 := 0x4
def efiLeftControlPressed : UInt32 := 0x8

def efiToggleStateValid : UInt8 := 0x80
def efiKeyStateExposed : UInt8 := 0x40
def efiScrollLockActive : UInt8 := 0x1
def efiNumLockActive : UInt8 := 0x2
def efiCapsLockActive : UInt8 := 0x4

/-- `EFI_INPUT_KEY`. -/
structure EfiInputKey where
  scanCode : UInt16
  unicodeChar : UInt16
  deriving DecidableEq, Repr

/-- `EFI_KEY_STATE`. -/
structure EfiKeyState where
  keyShiftState : UInt32
  keyToggleState : UInt8
  deriving DecidableEq, Repr

/-- `EFI_KEY_DATA`. -/
structure EfiKeyData where
  key : EfiInputKey
  keyState : EfiKeyState
  deriving DecidableEq, Repr

/-- What can stand in a key queue: it carries the data of a key. -/
class Keyed (α : Type) where
  keyData : α → EfiKeyData

export Keyed (keyData)

instance : Keyed EfiKeyData := ⟨id⟩

/-- `IsKeyRegistered`: a zero shift or toggle state of the registered key matches any. -/
def isKeyRegistered (registeredData inputData : EfiKeyData) : Bool :=
  if registeredData.key.scanCode ≠ inputData.key.scanCode ∨
      registeredData.key.unicodeChar ≠ inputData.key.unicodeChar then false
  else if registeredData.keyState.keyShiftState ≠ 0 ∧
      registeredData.keyState.keyShiftState ≠ inputData.keyState.keyShiftState then false
  else if registeredData.keyState.keyToggleState ≠ 0 ∧
      registeredData.keyState.keyToggleState ≠ inputData.keyState.keyToggleState then false
  else true

variable {α : Type} [Keyed α]

/-- A partial keystroke: neither a scan code nor a character. -/
def isPartial (k : α) : Bool :=
  (keyData k).key.scanCode == scanNull && (keyData k).key.unicodeChar == charNull

/-! ### Key queues -/

/-- `KEYPAD_EFI_KEY_MAX_COUNT`. -/
def keypadEfiKeyMaxCount : ℕ := 256

/-- `EFI_KEY_QUEUE`. -/
abbrev EfiKeyQueue (α : Type) := RingBuffer α

omit [Keyed α] in
/-- `IsEfikeyBufEmpty`. -/
def isEfikeyBufEmpty (queue : EfiKeyQueue α) : Bool := queue.isEmpty

/-- `PopEfikeyBufHead`; `none` is `EFI_NOT_READY`. -/
def popEfikeyBufHead (queue : EfiKeyQueue α) : Option (α × EfiKeyQueue α) :=
  queue.pop keypadEfiKeyMaxCount

/-- `PushEfikeyBufTail`. -/
def pushEfikeyBufTail (queue : EfiKeyQueue α) (k : α) : EfiKeyQueue α :=
  queue.push keypadEfiKeyMaxCount k

/-- The key that `KeypadWaitForKey` looks at without taking it. -/
def peekEfikeyBufHead (queue : EfiKeyQueue α) : α := queue.slots queue.head

/-! ### The device -/

/-- `KEYPAD_CONSOLE_IN_EX_NOTIFY`; `handle` is its address. -/
structure KeypadConsoleInExNotify where
  handle : ℕ
  keyData : EfiKeyData
  keyNotificationFn : ℕ
  deriving DecidableEq, Repr

/-- The modifier keys of `KEYPAD_CONSOLE_IN_DEV`. -/
structure Modifiers where
  leftCtrl : Bool := false
  rightCtrl : Bool := false
  leftAlt : Bool := false
  rightAlt : Bool := false
  leftShift : Bool := false
  rightShift : Bool := false
  leftLogo : Bool := false
  rightLogo : Bool := false
  menu : Bool := false
  sysReq : Bool := false

/-- `KEYPAD_CONSOLE_IN_DEV`. -/
structure KeypadConsoleInDev (α : Type) where
  last : UInt64
  modifiers : Modifiers
  capsLock : Bool
  numLock : Bool
  scrollLock : Bool
  isSupportPartialKey : Bool
  efiKeyQueue : EfiKeyQueue α
  efiKeyQueueForNotify : EfiKeyQueue α
  keypadErr : Bool
  notifyList : List KeypadConsoleInExNotify

variable (consoleIn : KeypadConsoleInDev α)

/-- One call of `GetKeys`: the performance counter before it, and the keys that the device
hands in. -/
structure Poll (α : Type) where
  counter : UInt64
  keys : List α

/-- A partial keystroke is not converted unless the partial keys were asked for. -/
def ignoresKey (k : α) : Bool := isPartial k && !consoleIn.isSupportPartialKey

/-- The registrations that a key matches. -/
def matching (k : α) : List KeypadConsoleInExNotify :=
  consoleIn.notifyList.filter fun currentNotify => isKeyRegistered currentNotify.keyData (keyData k)

/-- `KeypadReturnApiPushEfikeyBufTail`. The event that it signals schedules
`keyNotifyProcessHandler`. -/
def keypadReturnApiPushEfikeyBufTail (k : α) : KeypadConsoleInDev α :=
  if ignoresKey consoleIn k then consoleIn
  else
    { consoleIn with
      efiKeyQueueForNotify := consoleIn.notifyList.foldl
        (fun queue currentNotify =>
          if isKeyRegistered currentNotify.keyData (keyData k) then pushEfikeyBufTail queue k
          else queue)
        consoleIn.efiKeyQueueForNotify
      efiKeyQueue := pushEfikeyBufTail consoleIn.efiKeyQueue k }

/-- `KeypadError`. -/
def keypadError : KeypadConsoleInDev α := { consoleIn with keypadErr := true }

/-- `KeypadTimerHandler`. -/
def keypadTimerHandler (poll : Poll α) : KeypadConsoleInDev α :=
  if consoleIn.keypadErr then consoleIn
  else poll.keys.foldl keypadReturnApiPushEfikeyBufTail { consoleIn with last := poll.counter }

/-- `InitKeypad`. -/
def initKeypad : Status × KeypadConsoleInDev α :=
  (.success,
    { consoleIn with
      efiKeyQueue := consoleIn.efiKeyQueue.clear
      efiKeyQueueForNotify := consoleIn.efiKeyQueueForNotify.clear
      capsLock := false
      numLock := false
      scrollLock := false
      modifiers := {}
      isSupportPartialKey := false })

/-- `KeypadEfiReset`, which is also `KeypadEfiResetEx`. -/
def keypadEfiReset : Status × KeypadConsoleInDev α :=
  if consoleIn.keypadErr then (.deviceError, consoleIn)
  else
    let (status, consoleIn) := initKeypad consoleIn
    if status ≠ .success then (.deviceError, consoleIn) else (.success, consoleIn)

/-! ### Readers -/

/-- `KeypadReadKeyStrokeWorker`; `buffer` says that `KeyData` is not `NULL`. -/
def keypadReadKeyStrokeWorker (buffer : Bool) (poll : Poll α) :
    Except Status α × KeypadConsoleInDev α :=
  if !buffer then (.error .invalidParameter, consoleIn)
  else
    let consoleIn := keypadTimerHandler consoleIn poll
    if consoleIn.keypadErr then (.error .deviceError, consoleIn)
    else
      match popEfikeyBufHead consoleIn.efiKeyQueue with
      | none => (.error .notReady, consoleIn)
      | some (k, queue) => (.ok k, { consoleIn with efiKeyQueue := queue })

/-- `KeypadReadKeyStrokeEx`. -/
def keypadReadKeyStrokeEx (buffer : Bool) (poll : Poll α) :
    Except Status α × KeypadConsoleInDev α :=
  if !buffer then (.error .invalidParameter, consoleIn)
  else keypadReadKeyStrokeWorker consoleIn buffer poll

/-- The key that `KeypadReadKeyStroke` gives out: with a control key held, a letter becomes its
control character. -/
def controlKey (data : EfiKeyData) : EfiInputKey :=
  let c := data.key.unicodeChar
  if data.keyState.keyShiftState &&& (efiLeftControlPressed ||| efiRightControlPressed) ≠ 0 then
    if 'a'.toNat.toUInt16 ≤ c ∧ c ≤ 'z'.toNat.toUInt16 then
      { data.key with unicodeChar := c - 'a'.toNat.toUInt16 + 1 }
    else if 'A'.toNat.toUInt16 ≤ c ∧ c ≤ 'Z'.toNat.toUInt16 then
      { data.key with unicodeChar := c - 'A'.toNat.toUInt16 + 1 }
    else data.key
  else data.key

/-- How one pass through the loop of `KeypadReadKeyStroke` ends: it returns an error, goes on
after a partial keystroke, or returns a key. -/
inductive Pass (α : Type)
  | error (status : Status)
  | skip (k : α)
  | success (k : α) (key : EfiInputKey)

/-- One pass through the loop of `KeypadReadKeyStroke`. -/
def keypadReadKeyStrokePass (poll : Poll α) : Pass α × KeypadConsoleInDev α :=
  match keypadReadKeyStrokeWorker consoleIn true poll with
  | (.error status, consoleIn) => (.error status, consoleIn)
  | (.ok k, consoleIn) =>
      if isPartial k then (.skip k, consoleIn) else (.success k (controlKey (keyData k)), consoleIn)

/-- `KeypadReadKeyStroke`, given what the device does at each poll; `none` when the loop goes
on after the last of them. -/
def keypadReadKeyStroke (consoleIn : KeypadConsoleInDev α) :
    List (Poll α) → Option (Except Status EfiInputKey × KeypadConsoleInDev α)
  | [] => none
  | poll :: polls =>
      match keypadReadKeyStrokePass consoleIn poll with
      | (.error status, consoleIn) => some (.error status, consoleIn)
      | (.skip _, consoleIn) => keypadReadKeyStroke consoleIn polls
      | (.success _ key, consoleIn) => some (.ok key, consoleIn)

/-- The loop of `KeypadWaitForKey`: whether it signals the event, and what it leaves queued.
Each pass but the last takes a key, so as many passes as the queue has slots are enough. -/
def waitLoop : ℕ → EfiKeyQueue α → Bool × EfiKeyQueue α
  | 0, queue => (false, queue)
  | fuel + 1, queue =>
      if isEfikeyBufEmpty queue then (false, queue)
      else if isPartial (peekEfikeyBufHead queue) then
        match popEfikeyBufHead queue with
        | some (_, rest) => waitLoop fuel rest
        | none => waitLoop fuel queue
      else (true, queue)

/-- `KeypadWaitForKey`, which is also `KeypadWaitForKeyEx`: whether it signals the event. -/
def keypadWaitForKey (poll : Poll α) : Bool × KeypadConsoleInDev α :=
  let consoleIn := keypadTimerHandler consoleIn poll
  if consoleIn.keypadErr then (false, consoleIn)
  else
    let (signal, queue) := waitLoop keypadEfiKeyMaxCount consoleIn.efiKeyQueue
    (signal, { consoleIn with efiKeyQueue := queue })

/-- `KeypadSetState`; when it sets the state it returns a status that was never assigned,
`none`. -/
def keypadSetState (keyToggleState : Option UInt8) : Option Status × KeypadConsoleInDev α :=
  match keyToggleState with
  | none => (some .invalidParameter, consoleIn)
  | some state =>
      if consoleIn.keypadErr then (some .deviceError, consoleIn)
      else if state &&& efiToggleStateValid ≠ efiToggleStateValid then
        (some .unsupported, consoleIn)
      else
        (none,
          { consoleIn with
            scrollLock := state &&& efiScrollLockActive == efiScrollLockActive
            numLock := state &&& efiNumLockActive == efiNumLockActive
            capsLock := state &&& efiCapsLockActive == efiCapsLockActive
            isSupportPartialKey := state &&& efiKeyStateExposed == efiKeyStateExposed })

/-! ### Key notifications -/

/-- What `KeypadRegisterKeyNotify` returns, and the handle it stores. -/
structure Registered (α : Type) where
  status : Status
  notifyHandle : Option ℕ
  consoleIn : KeypadConsoleInDev α

/-- The first registration of a function that a key to be registered matches. -/
def alreadyRegistered (key : EfiKeyData) (keyNotificationFunction : ℕ) :
    Option KeypadConsoleInExNotify :=
  consoleIn.notifyList.find? fun currentNotify =>
    isKeyRegistered currentNotify.keyData key &&
      currentNotify.keyNotificationFn == keyNotificationFunction

/-- `KeypadRegisterKeyNotify`. A function and an address are `0` for `NULL`, `out` says that
`NotifyHandle` is not `NULL`, and `pool` is what `AllocateZeroPool` returns. -/
def keypadRegisterKeyNotify (key : Option EfiKeyData) (keyNotificationFunction : ℕ) (out : Bool)
    (pool : ℕ) : Registered α :=
  match key with
  | none => ⟨.invalidParameter, none, consoleIn⟩
  | some key =>
      if !out || keyNotificationFunction == 0 then ⟨.invalidParameter, none, consoleIn⟩
      else
        match alreadyRegistered consoleIn key keyNotificationFunction with
        | some currentNotify => ⟨.success, some currentNotify.handle, consoleIn⟩
        | none =>
            if pool = 0 then ⟨.outOfResources, none, consoleIn⟩
            else
              ⟨.success, some pool,
                { consoleIn with
                  notifyList := consoleIn.notifyList ++ [⟨pool, key, keyNotificationFunction⟩] }⟩

/-- `KeypadUnregisterKeyNotify`. -/
def keypadUnregisterKeyNotify (notificationHandle : ℕ) : Status × KeypadConsoleInDev α :=
  if notificationHandle = 0 then (.invalidParameter, consoleIn)
  else if consoleIn.notifyList.any (·.handle == notificationHandle) then
    (.success,
      { consoleIn with
        notifyList := consoleIn.notifyList.eraseP (·.handle == notificationHandle) })
  else (.invalidParameter, consoleIn)

section Registration

variable {d : KeypadConsoleInDev α} {key : EfiKeyData} {fn pool : ℕ} {out : Bool}
  {currentNotify : KeypadConsoleInExNotify}

omit [Keyed α]

/-- A key that is registered already is answered by the entry that it matches. -/
theorem register_found (hargs : out = true ∧ fn ≠ 0)
    (hfind : alreadyRegistered d key fn = some currentNotify) :
    keypadRegisterKeyNotify d (some key) fn out pool =
      ⟨.success, some currentNotify.handle, d⟩ := by
  obtain ⟨rfl, hfn⟩ := hargs
  simp [keypadRegisterKeyNotify, hfn, hfind]

/-- Any other key gets an entry of its own. -/
theorem register_added (hargs : out = true ∧ fn ≠ 0) (hpool : pool ≠ 0)
    (hfind : alreadyRegistered d key fn = none) :
    keypadRegisterKeyNotify d (some key) fn out pool =
      ⟨.success, some pool, { d with notifyList := d.notifyList ++ [⟨pool, key, fn⟩] }⟩ := by
  obtain ⟨rfl, hfn⟩ := hargs
  simp [keypadRegisterKeyNotify, hfn, hfind, hpool]

/-- **What a registration can do**: fail, find an entry, or add one. -/
theorem register_cases (d : KeypadConsoleInDev α) (key : Option EfiKeyData) (fn : ℕ) (out : Bool)
    (pool : ℕ) :
    (∃ status, status ≠ .success ∧
        keypadRegisterKeyNotify d key fn out pool = ⟨status, none, d⟩) ∨
      ∃ data, key = some data ∧ (out = true ∧ fn ≠ 0) ∧
        ((∃ currentNotify, alreadyRegistered d data fn = some currentNotify) ∨
          alreadyRegistered d data fn = none ∧ pool ≠ 0) := by
  cases key with
  | none => exact .inl ⟨.invalidParameter, nofun, rfl⟩
  | some data =>
    by_cases hargs : (!out || fn == 0) = true
    · refine .inl ⟨.invalidParameter, nofun, ?_⟩
      rw [keypadRegisterKeyNotify, if_pos hargs]
    · have hargs' : out = true ∧ fn ≠ 0 := by simpa using hargs
      cases hfind : alreadyRegistered d data fn with
      | some currentNotify => exact .inr ⟨data, rfl, hargs', .inl ⟨currentNotify, hfind⟩⟩
      | none =>
        by_cases hpool : pool = 0
        · refine .inl ⟨.outOfResources, nofun, ?_⟩
          simp [keypadRegisterKeyNotify, hargs, hfind, hpool]
        · exact .inr ⟨data, rfl, hargs', .inr ⟨hfind, hpool⟩⟩

/-- **What an end of a registration can do**: fail, or remove the entry. -/
theorem unregister_cases (d : KeypadConsoleInDev α) (handle : ℕ) :
    (keypadUnregisterKeyNotify d handle = (.invalidParameter, d) ∧
        ∀ currentNotify ∈ d.notifyList, currentNotify.handle ≠ 0 →
          currentNotify.handle ≠ handle) ∨
      keypadUnregisterKeyNotify d handle =
        (.success, { d with notifyList := d.notifyList.eraseP (·.handle == handle) }) := by
  rw [keypadUnregisterKeyNotify]
  by_cases hzero : handle = 0
  · rw [if_pos hzero]
    exact .inl ⟨rfl, fun _ _ hne heq => hne (heq.trans hzero)⟩
  · rw [if_neg hzero]
    by_cases hany : d.notifyList.any (·.handle == handle) = true
    · exact .inr (if_pos hany)
    · refine .inl ⟨if_neg hany, ?_⟩
      rintro currentNotify hmem - rfl
      exact hany (List.any_eq_true.mpr ⟨currentNotify, hmem, beq_self_eq_true _⟩)

end Registration

/-- A call of a notification function: the registration it is made for, the function, and the
key. -/
structure Call (α : Type) where
  handle : ℕ
  keyNotificationFn : ℕ
  key : α
  deriving DecidableEq

/-- One pass through the loop of `KeyNotifyProcessHandler`; `none` when there is no key to
process. -/
def keyNotifyProcessPass : Option (List (Call α) × KeypadConsoleInDev α) :=
  match popEfikeyBufHead consoleIn.efiKeyQueueForNotify with
  | none => none
  | some (k, queue) =>
      some ((matching consoleIn k).map fun currentNotify =>
          ⟨currentNotify.handle, currentNotify.keyNotificationFn, k⟩,
        { consoleIn with efiKeyQueueForNotify := queue })

/-- The loop of `KeyNotifyProcessHandler`, for so many passes. -/
def keyNotifyProcessLoop : ℕ → KeypadConsoleInDev α → List (Call α) × KeypadConsoleInDev α
  | 0, consoleIn => ([], consoleIn)
  | fuel + 1, consoleIn =>
      match keyNotifyProcessPass consoleIn with
      | none => ([], consoleIn)
      | some (calls, consoleIn) =>
          let (later, consoleIn) := keyNotifyProcessLoop fuel consoleIn
          (calls ++ later, consoleIn)

/-- `KeyNotifyProcessHandler`. Each pass takes a key, so as many passes as the queue has slots
are enough. -/
def keyNotifyProcessHandler : List (Call α) × KeypadConsoleInDev α :=
  keyNotifyProcessLoop keypadEfiKeyMaxCount consoleIn

/-! ### Start of the driver -/

/-- The device as `KeypadControllerDriverStart` leaves it: zeroed, and reset. -/
def keypadControllerDriverStart [Inhabited α] : KeypadConsoleInDev α :=
  let queue : EfiKeyQueue α := ⟨fun _ => default, 0, 0⟩
  (keypadEfiReset
    { last := 0xFFFFFFFFFFFFFFFF, modifiers := {}, capsLock := false, numLock := false,
      scrollLock := false, isSupportPartialKey := false, efiKeyQueue := queue,
      efiKeyQueueForNotify := queue, keypadErr := false, notifyList := [] }).2

/-! ### Entries into the driver -/

/-- An entry that key notifications depend on: an arrival of a key, a registration, its end, or
a pass of the handler. -/
inductive NotifyEvent (α : Type)
  | arrive (k : α)
  | register (key : Option EfiKeyData) (keyNotificationFunction : ℕ) (out : Bool) (pool : ℕ)
  | unregister (notificationHandle : ℕ)
  | process
  deriving DecidableEq

/-- The notification functions that an entry calls, and the device after it. -/
def NotifyEvent.step : NotifyEvent α → List (Call α) × KeypadConsoleInDev α
  | .arrive k => ([], keypadReturnApiPushEfikeyBufTail consoleIn k)
  | .register key fn out pool => ([], (keypadRegisterKeyNotify consoleIn key fn out pool).consoleIn)
  | .unregister handle => ([], (keypadUnregisterKeyNotify consoleIn handle).2)
  | .process => (keyNotifyProcessPass consoleIn).getD ([], consoleIn)

/-- An entry into the driver. Between two passes of `KeypadReadKeyStroke` the driver is outside
its critical section, so a pass is an entry of its own. -/
inductive Event (α : Type)
  | notify (e : NotifyEvent α)
  | timer (poll : Poll α)
  | readKeyStroke (poll : Poll α)
  | readKeyStrokeEx (buffer : Bool) (poll : Poll α)
  | waitForKey (poll : Poll α)
  | setState (keyToggleState : Option UInt8)
  | reset
  | error

/-- The device after an entry. -/
def Event.step : Event α → KeypadConsoleInDev α
  | .notify e => (e.step consoleIn).2
  | .timer poll => keypadTimerHandler consoleIn poll
  | .readKeyStroke poll => (keypadReadKeyStrokePass consoleIn poll).2
  | .readKeyStrokeEx buffer poll => (keypadReadKeyStrokeEx consoleIn buffer poll).2
  | .waitForKey poll => (keypadWaitForKey consoleIn poll).2
  | .setState state => (keypadSetState consoleIn state).2
  | .reset => (keypadEfiReset consoleIn).2
  | .error => keypadError consoleIn

/-- The device after a sequence of entries. -/
def run : KeypadConsoleInDev α → List (Event α) → KeypadConsoleInDev α :=
  List.foldl Event.step

end Keypad

end Msm8998
