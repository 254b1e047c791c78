import Msm8998.KeypadFrame
import Msm8998.StatusCode

/-!
# The Answers of `KeypadSetState`

`KeypadSetState` assigns its status only on the paths that refuse a request. Where it sets the
state it returns what the variable held before, which can be anything. So the caller learns
the outcome only if that value happens to tell it.

## Main results

* `Event.step_toggles`: no other entry but `Reset` touches the four settings;
* `truthful_iff`: for which requests and which value of the variable the answer is right;
* `Run.truthful`: in a run whose requests are all answered right, every further answer is right
  under the same condition, and partial keys are queued as the last successful request asked.
-/

namespace Msm8998

namespace Keypad

variable {α : Type} [Keyed α] {d : KeypadConsoleInDev α} {request : Option UInt8}
  {unassigned : UInt64} {k : α} {asked : Bool}

/-! ### Answers -/

/-- The `EFI_STATUS` codes. -/
def Status.code : Status → UInt64
  | .success => efiSuccess
  | .notReady => efiNotReady
  | .deviceError => efiDeviceError
  | .invalidParameter => efiInvalidParameter
  | .outOfResources => efiOutOfResources
  | .unsupported => efiUnsupported

/-- The settings of the keypad that a request is about. -/
structure Toggles where
  scrollLock : Bool
  numLock : Bool
  capsLock : Bool
  partialKey : Bool
  deriving DecidableEq, Repr

/-- The settings as they are. -/
def toggles (d : KeypadConsoleInDev α) : Toggles :=
  ⟨d.scrollLock, d.numLock, d.capsLock, d.isSupportPartialKey⟩

/-- The settings that a request asks for. -/
def requested (keyToggleState : UInt8) : Toggles where
  scrollLock := keyToggleState &&& efiScrollLockActive == efiScrollLockActive
  numLock := keyToggleState &&& efiNumLockActive == efiNumLockActive
  capsLock := keyToggleState &&& efiCapsLockActive == efiCapsLockActive
  partialKey := keyToggleState &&& efiKeyStateExposed == efiKeyStateExposed

/-- What the caller of `KeypadSetState` is told, given what the variable `Status` holds on
entry. -/
def answer (d : KeypadConsoleInDev α) (request : Option UInt8) (unassigned : UInt64) : UInt64 :=
  ((keypadSetState d request).1.map Status.code).getD unassigned

/-- The answer is right: success, and the settings are those requested, or an error, and they
are as before. -/
def Truthful (d : KeypadConsoleInDev α) (request : Option UInt8) (unassigned : UInt64) : Prop :=
  (answer d request unassigned = 0 ∧
      request.map requested = some (toggles (keypadSetState d request).2)) ∨
    (efiError (answer d request unassigned) = true ∧
      toggles (keypadSetState d request).2 = toggles d)

/-- `KeypadSetState` accepts the request. -/
def Accepts (d : KeypadConsoleInDev α) (state : UInt8) : Prop :=
  d.keypadErr = false ∧ state &&& efiToggleStateValid = efiToggleStateValid

/-- The variable holds what the caller should be told: success, or an error where the request
asks for the settings as they are. -/
def Holds (d : KeypadConsoleInDev α) (state : UInt8) (unassigned : UInt64) : Prop :=
  unassigned = 0 ∨ efiError unassigned = true ∧ requested state = toggles d

omit [Keyed α] in
/-- A request that is accepted. -/
theorem keypadSetState_accepts {state : UInt8} (h : Accepts d state) :
    (keypadSetState d (some state)).1 = none ∧
      toggles (keypadSetState d (some state)).2 = requested state := by
  simp [keypadSetState, h.1, h.2, toggles, requested]

omit [Keyed α] in
/-- A request that is refused. -/
theorem keypadSetState_refuses (h : ∀ state, request = some state → ¬ Accepts d state) :
    ∃ status : Status, keypadSetState d request = (some status, d) ∧
      efiError status.code = true := by
  cases request with
  | none => exact ⟨.invalidParameter, rfl, rfl⟩
  | some state =>
      simp only [keypadSetState]
      split
      · exact ⟨.deviceError, rfl, rfl⟩
      · rename_i herr
        split
        · exact ⟨.unsupported, rfl, rfl⟩
        · rename_i hvalid
          exact absurd ⟨Bool.not_eq_true _ ▸ herr, not_not.mp hvalid⟩ (h state rfl)

omit [Keyed α] in
/-- **When an answer is right**: when the request is refused, or the variable holds what the
caller should be told. -/
theorem truthful_iff : Truthful d request unassigned ↔
    ∀ state, request = some state → Accepts d state → Holds d state unassigned := by
  by_cases hacc : ∃ state, request = some state ∧ Accepts d state
  · obtain ⟨state, rfl, hacc⟩ := hacc
    obtain ⟨hnone, htoggles⟩ := keypadSetState_accepts hacc
    rw [Truthful, answer, hnone, htoggles]
    constructor
    · rintro (⟨hzero, -⟩ | hsame) state' hstate -
      · exact .inl hzero
      · cases hstate
        exact .inr hsame
    · intro h
      exact (h state rfl hacc).imp (fun hzero => ⟨hzero, rfl⟩) id
  · have hno : ∀ state, request = some state → ¬ Accepts d state :=
      fun state hstate h => hacc ⟨state, hstate, h⟩
    obtain ⟨status, heq, herr⟩ := keypadSetState_refuses hno
    refine iff_of_true (.inr ?_) fun state hstate h => absurd h (hno state hstate)
    rw [answer, heq]
    exact ⟨herr, rfl⟩

omit [Keyed α] in
/-- For a request that changes something, a right answer is success exactly when the settings
are those requested, and an error exactly when they are as before. -/
theorem Truthful.answer_iff (h : Truthful d request unassigned)
    (hchange : request.map requested ≠ some (toggles d)) :
    (answer d request unassigned = 0 ↔
        request.map requested = some (toggles (keypadSetState d request).2)) ∧
      (efiError (answer d request unassigned) = true ↔
        toggles (keypadSetState d request).2 = toggles d) := by
  rcases h with ⟨hzero, hset⟩ | ⟨herr, hsame⟩
  · refine ⟨iff_of_true hzero hset, iff_of_false (fun herr => ?_) fun hsame => ?_⟩
    · exact ne_efiSuccess_of_efiError herr hzero
    · exact hchange (hset.trans (congrArg some hsame))
  · refine ⟨iff_of_false (ne_efiSuccess_of_efiError herr) fun hset => ?_, iff_of_true herr hsame⟩
    exact hchange (hset.trans (congrArg some hsame))

/-! ### Other entries -/

omit [Keyed α] in
/-- The settings do not depend on the queues. -/
theorem apart_toggles : Apart fun d : KeypadConsoleInDev α => toggles d :=
  ⟨fun _ _ => rfl, fun _ _ => rfl, fun _ _ _ => rfl⟩

/-- Registrations, their ends and the handler of the notifications keep the settings. -/
theorem toggles_notify (d : KeypadConsoleInDev α) (e : NotifyEvent α) :
    toggles (e.step d).2 = toggles d := by
  cases e with
  | arrive k => exact apart_toggles.arrive d k
  | register key fn out pool =>
      rw [NotifyEvent.step]
      obtain ⟨_, -, heq⟩ | ⟨data, rfl, hargs, ⟨x, hfind⟩ | ⟨hfind, hpool⟩⟩ :=
        register_cases d key fn out pool
      · rw [heq]
      · rw [register_found hargs hfind]
      · rw [register_added hargs hpool hfind]
        rfl
  | unregister handle =>
      rw [NotifyEvent.step]
      rcases unregister_cases d handle with ⟨heq, -⟩ | heq
      · rw [heq]
      · rw [heq]
        rfl
  | process =>
      simp only [NotifyEvent.step, keyNotifyProcessPass]
      cases popEfikeyBufHead d.efiKeyQueueForNotify with
      | none => rfl
      | some popped => rfl

/-- **No other entry touches the settings.** -/
theorem Event.step_toggles (d : KeypadConsoleInDev α) (e : Event α)
    (hset : ∀ state, e ≠ .setState state) (hreset : e ≠ .reset) :
    toggles (e.step d) = toggles d := by
  cases e with
  | notify e => exact toggles_notify d e
  | timer poll => exact apart_toggles.timer d poll
  | readKeyStroke poll => exact apart_toggles.pass d poll
  | readKeyStrokeEx buffer poll =>
      rw [Event.step, keypadReadKeyStrokeEx]
      split
      · rfl
      · exact apart_toggles.worker d buffer poll
  | waitForKey poll => exact apart_toggles.wait d poll
  | setState state => exact absurd rfl (hset state)
  | reset => exact absurd rfl hreset
  | error => rfl

/-! ### Runs -/

/-- An entry into the driver, with what the variable `Status` of `KeypadSetState` holds. -/
structure Entry (α : Type) where
  event : Event α
  unassigned : UInt64

/-- Whether the last successful request since the last `Reset` asked for partial keys, after
an entry. -/
def Entry.asksPartial (d : KeypadConsoleInDev α) (e : Entry α) (asked : Bool) : Bool :=
  match e.event with
  | .setState request =>
      if answer d request e.unassigned = 0 then
        (request.map fun state => (requested state).partialKey).getD asked
      else asked
  | .reset => if (keypadEfiReset d).1 = .success then false else asked
  | _ => asked

/-- The condition on an entry: the caller of `KeypadSetState` is told the truth. -/
def Entry.Fits (d : KeypadConsoleInDev α) (e : Entry α) : Prop :=
  ∀ state, e.event = .setState (some state) → Accepts d state → Holds d state e.unassigned

/-- The devices that entries which fit lead to from the start of the driver, each with whether
partial keys were asked for. -/
inductive Run [Inhabited α] : KeypadConsoleInDev α → Bool → Prop
  | start : Run keypadControllerDriverStart false
  | entry {d : KeypadConsoleInDev α} {asked : Bool} (e : Entry α) (h : Run d asked)
      (hfits : e.Fits d) : Run (e.event.step d) (e.asksPartial d asked)

/-- The device queues a key that is handed in. -/
def Queues (d : KeypadConsoleInDev α) (k : α) : Prop :=
  (keypadReturnApiPushEfikeyBufTail d k).efiKeyQueue = pushEfikeyBufTail d.efiKeyQueue k

/-- One entry keeps the record of what was asked. -/
theorem Entry.step_partialKey {e : Entry α} (hfits : e.Fits d) (h : d.isSupportPartialKey = asked) :
    (e.event.step d).isSupportPartialKey = e.asksPartial d asked := by
  obtain ⟨event, unassigned⟩ := e
  have hother : (∀ state, event ≠ .setState state) → event ≠ .reset →
      (event.step d).isSupportPartialKey = asked := by
    intro hset hreset
    have htoggles := congrArg Toggles.partialKey (event.step_toggles d hset hreset)
    exact htoggles.trans h
  cases event with
  | setState request =>
      have htruthful : Truthful d request unassigned :=
        truthful_iff.mpr fun state hstate => hfits state (congrArg Event.setState hstate)
      simp only [Event.step, Entry.asksPartial]
      rcases htruthful with ⟨hzero, hset⟩ | ⟨herr, hsame⟩
      · obtain ⟨state, rfl, htoggles⟩ := Option.map_eq_some_iff.mp hset
        rw [if_pos hzero, Option.map_some, Option.getD_some, htoggles]
        rfl
      · have hne : answer d request unassigned ≠ 0 := ne_efiSuccess_of_efiError herr
        rw [if_neg hne, ← h]
        exact congrArg Toggles.partialKey hsame
  | reset =>
      simp only [Event.step, Entry.asksPartial]
      by_cases herr : d.keypadErr = true
      · have hreset : keypadEfiReset d = (.deviceError, d) := if_pos herr
        rw [hreset, if_neg (by simp)]
        exact h
      · have hreset : keypadEfiReset d = (.success, (initKeypad d).2) := if_neg herr
        rw [hreset, if_pos rfl]
        rfl
  | notify e => exact hother (by simp) (by simp)
  | timer poll => exact hother (by simp) (by simp)
  | readKeyStroke poll => exact hother (by simp) (by simp)
  | readKeyStrokeEx buffer poll => exact hother (by simp) (by simp)
  | waitForKey poll => exact hother (by simp) (by simp)
  | error => exact hother (by simp) (by simp)

/-- What a run keeps. -/
theorem Run.spec [Inhabited α] (h : Run d asked) : Sound d ∧ d.isSupportPartialKey = asked := by
  induction h with
  | start => exact ⟨sound_start, rfl⟩
  | entry e _ hfits ih => exact ⟨(e.event.refines ih.1).2, e.step_partialKey hfits ih.2⟩

omit [Keyed α] in
/-- A queued key moves the tail of the queue. -/
theorem pushEfikeyBufTail_ne {q : EfiKeyQueue α} (h : q.WellFormed keypadEfiKeyMaxCount) (k : α) :
    pushEfikeyBufTail q k ≠ q := by
  intro heq
  have htail : (pushEfikeyBufTail q k).tail = (q.tail + 1) % keypadEfiKeyMaxCount := by
    rw [pushEfikeyBufTail, RingBuffer.push, RingBuffer.store]
    split
    · rw [RingBuffer.dropOldest, RingBuffer.pop]
      split <;> rfl
    · rfl
  have hlt := h.tail_lt
  rw [heq] at htail
  rw [keypadEfiKeyMaxCount] at htail hlt
  omega

/-- A partial key is queued when the driver was asked for them. -/
theorem queues_iff (h : Sound d) (hk : isPartial k = true) :
    Queues d k ↔ d.isSupportPartialKey = true := by
  rw [Queues, keypadReturnApiPushEfikeyBufTail, ignoresKey, hk, Bool.true_and]
  cases d.isSupportPartialKey with
  | false =>
      refine iff_of_false (fun hq => ?_) Bool.false_ne_true
      exact pushEfikeyBufTail_ne h.efiKeyQueue k hq.symm
  | true => exact iff_of_true rfl rfl

/-- **`KeypadSetState` in a run.** After entries which fit, the next request is answered right
exactly when it fits, too, and a partial key is queued exactly when the last successful request
since the last `Reset` asked for them. -/
theorem Run.truthful [Inhabited α] (h : Run d asked) :
    (∀ request unassigned, Truthful d request unassigned ↔
        Entry.Fits d ⟨.setState request, unassigned⟩) ∧
      ∀ k, isPartial k = true → (Queues d k ↔ asked = true) := by
  obtain ⟨hsound, hasked⟩ := h.spec
  refine ⟨fun request unassigned => truthful_iff.trans ?_, fun k hk => ?_⟩
  · refine forall_congr' fun state => imp_congr_left ⟨?_, ?_⟩
    · exact congrArg Event.setState
    · exact Event.setState.inj
  · rw [queues_iff hsound hk, hasked]

instance : Inhabited EfiKeyData := ⟨⟨⟨scanNull, charNull⟩, ⟨0, 0⟩⟩⟩

/-- The driver after its start. -/
def startedKeypad : KeypadConsoleInDev EfiKeyData := keypadControllerDriverStart

/-- The first request turns the scroll lock on and asks for partial keys, and finds the code of
success in the variable: a partial key is queued after it. -/
theorem partialKey_queued :
    Queues (keypadSetState startedKeypad (some 0xC1)).2 (default : EfiKeyData) := by
  have hrun : Run (keypadSetState startedKeypad (some 0xC1)).2 true :=
    .entry ⟨.setState (some 0xC1), 0⟩ .start fun _ _ _ => .inl rfl
  exact (hrun.truthful.2 _ rfl).mpr rfl

/-- The same request with the code of a device error in the variable: the caller is told that
it failed, but the settings are as requested, and partial keys are queued. -/
theorem not_truthful_first :
    ¬ Truthful startedKeypad (some 0xC1) 0x8000000000000007 ∧
      (keypadSetState startedKeypad (some 0xC1)).2.isSupportPartialKey = true := by
  refine ⟨?_, rfl⟩
  rintro (⟨hzero, -⟩ | ⟨-, hsame⟩)
  · exact absurd hzero (by decide)
  · exact absurd (congrArg Toggles.scrollLock hsame) (by decide)

end Keypad

end Msm8998
