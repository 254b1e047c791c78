import Msm8998.KeypadCustody

/-!
# The Life of the Keypad Driver

This module follows the keypad driver through any sequence of calls of its driver binding, with
any outcomes, and of entries through the interfaces and the events of the device.

## Main results

* `entry_spec`: an entry takes and gives back just the memory of a registration;
* `Driver.Run.kept`: in every run the driver holds exactly what its state says;
* `driver_managed`: what every call does in every run, and when it goes astray;
* `device_accounted`: every device begins empty, and no key or registration outlives it.
-/

namespace Msm8998

namespace Keypad

namespace Binding

open Custody (Run)

variable {α : Type} [Keyed α]

/-! ### Entries -/

/-- What `AllocateZeroPool` promises an entry: what it returns is not in use. -/
def FreshEntry (dev : KeypadConsoleInDev α) : Event α → Prop
  | .notify n => Fresh dev n
  | _ => True

/-- The registrations keep handles of their own, and the indices stay in range. -/
theorem registry_event {dev : KeypadConsoleInDev α} (h : Registry dev) {e : Event α}
    (hfresh : FreshEntry dev e) : Registry (e.step dev) := by
  by_cases he : ∃ n, e = .notify n
  · obtain ⟨n, rfl⟩ := he
    exact h.step hfresh
  · have hlist := notifyList_event dev (e := e) fun n hn => he ⟨n, hn⟩
    exact ⟨(e.refines h.sound).2, by rw [hlist]; exact h.nodup, by rw [hlist]; exact h.handle_ne⟩

omit [Keyed α] in
/-- Only registrations and their ends take or give back memory. -/
theorem entryTrace_of_not_notify (c : ConsoleIn α) {e : Event α} (he : ∀ n, e ≠ .notify n) :
    entryTrace c e = [] := by
  cases e with
  | notify n => exact absurd rfl (he n)
  | _ => rfl

variable {c : ConsoleIn α} {opened installed : Bool}

omit [Keyed α] in
/-- A registration. -/
theorem register_spec (key : Option EfiKeyData) (fn : ℕ) (out : Bool) (pool : ℕ)
    (hfresh : Fresh c.dev (.register key fn out pool)) :
    services.Run (c.held opened installed) (entryTrace c (.notify (.register key fn out pool)))
      ({ c with dev := (keypadRegisterKeyNotify c.dev key fn out pool).consoleIn }.held opened
        installed) := by
  obtain ⟨status, hstatus, heq⟩ | ⟨data, rfl, hargs, ⟨x, hfind⟩ | ⟨hfind, hpool⟩⟩ :=
    register_cases c.dev key fn out pool
  · have htrace : entryTrace c (.notify (.register key fn out pool)) = [] := by
      cases key with
      | none => rfl
      | some data =>
          refine if_neg ?_
          rintro ⟨hout, hfn, hfind, hpool⟩
          rw [register_added ⟨hout, hfn⟩ hpool hfind] at heq
          exact hstatus (congrArg Registered.status heq).symm
    rw [htrace, heq]
    exact .nil _
  · have htrace : entryTrace c (.notify (.register (some data) fn out pool)) = [] := by
      refine if_neg ?_
      rintro ⟨-, -, hnone, -⟩
      rw [hfind] at hnone
      cases hnone
    rw [htrace, register_found hargs hfind]
    exact .nil _
  · have htrace : entryTrace c (.notify (.register (some data) fn out pool)) =
        [.acquire (.notify pool c.pool)] := if_pos ⟨hargs.1, hargs.2, hfind, hpool⟩
    rw [htrace, register_added hargs hpool hfind]
    refine acquire_run ?_ ?_ fun a => ?_
    · rintro ⟨hmem, -⟩
      obtain ⟨x, hx, hhandle⟩ := List.mem_map.mp hmem
      exact hfresh x hx hhandle
    · simp [Resource.rests, mem_held, ConsoleIn.Holds]
    · cases a with
      | notify node p =>
          simp only [mem_held, ConsoleIn.Holds, List.map_append, List.map_cons, List.map_nil,
            List.mem_append, List.mem_singleton, Resource.notify.injEq]
          tauto
      | _ => simp [mem_held, ConsoleIn.Holds]

omit [Keyed α] in
/-- The end of a registration. -/
theorem unregister_spec (hreg : Registry c.dev) (handle : ℕ) :
    services.Run (c.held opened installed) (entryTrace c (.notify (.unregister handle)))
      ({ c with dev := (keypadUnregisterKeyNotify c.dev handle).2 }.held opened installed) := by
  rw [entryTrace, keypadUnregisterKeyNotify]
  by_cases hzero : handle = 0
  · rw [if_neg (by simp [hzero]), if_pos hzero]
    exact .nil _
  by_cases hany : c.dev.notifyList.any (·.handle == handle) = true
  · rw [if_pos ⟨hzero, hany⟩, if_neg hzero, if_pos hany]
    obtain ⟨x, hx, hhandle⟩ := List.any_eq_true.mp hany
    have hmem : handle ∈ c.dev.notifyList.map (·.handle) :=
      List.mem_map.mpr ⟨x, hx, beq_iff_eq.mp hhandle⟩
    refine release_run ⟨hmem, rfl⟩ (fun b _ hb => ?_) fun a => ?_
    · rcases mem_rests hb with h | ⟨p, h⟩ <;> cases h
    · cases a with
      | notify node p =>
          have herase : node ∈ (c.dev.notifyList.eraseP (·.handle == handle)).map (·.handle) ↔
              node ∈ c.dev.notifyList.map (·.handle) ∧ node ≠ handle := by
            constructor
            · intro hnode
              obtain ⟨y, hy, rfl⟩ := List.mem_map.mp hnode
              exact ⟨List.mem_map_of_mem (List.mem_of_mem_eraseP hy),
                handle_ne_of_mem_eraseP hreg.nodup hy⟩
            · rintro ⟨hnode, hne⟩
              obtain ⟨y, hy, rfl⟩ := List.mem_map.mp hnode
              exact List.mem_map_of_mem ((List.mem_eraseP_of_neg (by simpa using hne)).mpr hy)
          simp only [mem_held, ConsoleIn.Holds, herase, ne_eq, Resource.notify.injEq]
          tauto
      | _ => simp [mem_held, ConsoleIn.Holds]
  · rw [if_neg (fun h => hany h.2), if_neg hzero, if_neg hany]
    exact .nil _

/-- **An entry** takes and gives back just the memory of a registration. -/
theorem entry_spec (hreg : Registry c.dev) {e : Event α} (hfresh : FreshEntry c.dev e) :
    services.Run (c.held opened installed) (entryTrace c e)
      ({ c with dev := e.step c.dev }.held opened installed) := by
  by_cases he : ∃ n, e = .notify n
  · obtain ⟨n, rfl⟩ := he
    cases n with
    | register key fn out pool => exact register_spec key fn out pool hfresh
    | unregister handle => exact unregister_spec hreg handle
    | arrive k =>
        have hlist : (Event.step c.dev (.notify (.arrive k))).notifyList = c.dev.notifyList :=
          apart_notifyList.arrive c.dev k
        rw [held_dev c hlist]
        exact .nil _
    | process =>
        have hlist : (Event.step c.dev (.notify .process)).notifyList = c.dev.notifyList := by
          simp only [Event.step, NotifyEvent.step, keyNotifyProcessPass]
          cases popEfikeyBufHead c.dev.efiKeyQueueForNotify <;> rfl
        rw [held_dev c hlist]
        exact .nil _
  · have hne : ∀ n, e ≠ .notify n := fun n hn => he ⟨n, hn⟩
    rw [entryTrace_of_not_notify c hne, held_dev c (notifyList_event c.dev hne)]
    exact .nil _

/-! ### Runs -/

variable [Inhabited α]

/-- What the driver holds. -/
def Driver.held (d : Driver α) : Set Resource :=
  match d.consoleIn with
  | none => ∅
  | some c => c.held true true

/-- What is promised to a call: `OpenProtocol` is as documented, where the keypad device is open
`BY_DRIVER` as long as the driver has a device, and memory that is given out is not in use. -/
def DriverCall.Fits (d : Driver α) : DriverCall α → Prop
  | .supported openStatus => ByDriver d.consoleIn.isSome openStatus
  | .start env => ByDriver d.consoleIn.isSome env.openStatus
  | .stop _ => True
  | .entry e => ∀ c, d.consoleIn = some c → FreshEntry c.dev e

/-- The entries into the device since its reset, after one more call. -/
def DriverCall.entries (d : Driver α) (es : List (Event α)) (status : UInt64) :
    DriverCall α → List (Event α)
  | .start env => if efiError status then es else env.late.map .timer
  | .entry e =>
      match d.consoleIn with
      | none => es
      | some c => if reaches c e then es ++ [e] else es
  | _ => es

/-- The runs of the driver, with the entries into its device. -/
inductive Driver.Run : Driver α → List (Event α) → Prop
  | init : Driver.Run Driver.init []
  | step {d d' : Driver α} {es : List (Event α)} {call : DriverCall α} {status : UInt64}
      (h : Driver.Run d es) (hfits : call.Fits d) (hstep : d.step call = some (status, d')) :
      Driver.Run d' (call.entries d es status)

/-- A device without keys, registrations and settings. -/
structure Blank (dev : KeypadConsoleInDev α) : Prop where
  sound : Sound dev
  pending : pending dev = []
  notifyKeys : notifyKeys dev = []
  notifyList : dev.notifyList = []
  toggles : toggles dev = ⟨false, false, false, false⟩
  keypadErr : dev.keypadErr = false

/-- The device that a driver with these entries has. -/
structure Device (c : ConsoleIn α) (es : List (Event α)) : Prop where
  registry : Registry c.dev
  events : ∀ kind, kind ≠ .timer → (c.events kind).isSome
  born : ∃ dev, Blank dev ∧ c.dev = Keypad.run dev es

/-- What holds between the calls. -/
structure Kept (d : Driver α) (es : List (Event α)) : Prop where
  run : services.Run ∅ d.trace d.held
  device : ∀ c, d.consoleIn = some c → Device c es

/-- What is asked of a call that led from `d` to `d'`. -/
structure Managed (d : Driver α) (call : DriverCall α) (status : UInt64) (d' : Driver α) :
    Prop where
  custody : services.Run ∅ d'.trace d'.held
  once : services.Balanced d'.trace
  grounded : services.Grounded d'.held
  unchanged : ((∃ openStatus, call = .supported openStatus) ∨
      ∃ env, call = .start env ∧ efiError status = true) →
    d'.consoleIn = d.consoleIn ∧ ∃ new, d'.trace = d.trace ++ new ∧ services.Idle new
  started : ∀ env, call = .start env → efiError status = false →
    d.consoleIn = none ∧ ∃ c, d'.consoleIn = some c ∧ ∀ kind, (c.events kind).isSome
  stopped : ∀ env, call = .stop env → efiError status = false →
    d'.consoleIn = none ∧ services.Idle d'.trace
  notStopped : ∀ env c, call = .stop env → efiError status = true → d.consoleIn = some c →
    d'.consoleIn = some c ∨ d'.consoleIn = some (c.clear [.timer])

section Born

omit [Keyed α] in
/-- The queues of a zeroed device are empty and in range. -/
theorem sound_zeroed : Sound (zeroed : KeypadConsoleInDev α) :=
  have hpos : 0 < keypadEfiKeyMaxCount := by decide
  have hqueue := RingBuffer.wellFormed_clear hpos (zeroed : KeypadConsoleInDev α).efiKeyQueue
  ⟨hqueue, hqueue⟩

/-- The timer reports no keypad error. -/
theorem keypadErr_early (polls : List (Poll α)) :
    (polls.foldl keypadTimerHandler (zeroed : KeypadConsoleInDev α)).keypadErr = false :=
  have hapart : Apart fun d : KeypadConsoleInDev α => d.keypadErr :=
    ⟨fun _ _ => rfl, fun _ _ => rfl, fun _ _ _ => rfl⟩
  hapart.polls zeroed polls

omit [Inhabited α] in
/-- Polls are entries of the timer. -/
theorem timers_eq_run (d : KeypadConsoleInDev α) (polls : List (Poll α)) :
    polls.foldl keypadTimerHandler d = Keypad.run d (polls.map .timer) := by
  rw [Keypad.run, List.foldl_map]
  rfl

/-- A reset leaves nothing of what the timer brought before. -/
theorem blank_early (polls : List (Poll α)) :
    Blank (keypadEfiReset (polls.foldl keypadTimerHandler (zeroed : KeypadConsoleInDev α))).2 where
  sound := by
    rw [timers_eq_run]
    exact (reset_refines (run_refines sound_zeroed _).2).2
  pending := by
    rw [keypadEfiReset, if_neg (by simp [keypadErr_early])]
    exact RingBuffer.contents_clear _ _
  notifyKeys := by
    rw [keypadEfiReset, if_neg (by simp [keypadErr_early])]
    exact RingBuffer.contents_clear _ _
  notifyList := (reset_notifyList _).trans (apart_notifyList.polls zeroed polls)
  toggles := by
    rw [keypadEfiReset, if_neg (by simp [keypadErr_early])]
    rfl
  keypadErr := by
    rw [keypadEfiReset, if_neg (by simp [keypadErr_early])]
    exact keypadErr_early polls

/-- A device comes out of its `Start` with what the timer brought since the reset. -/
theorem device_of_start {c : ConsoleIn α} {env : StartEnv α}
    (hevents : ∀ kind, (c.events kind).isSome) (hdev : c.dev = startedDev env) :
    Device c (env.late.map .timer) := by
  have hblank := blank_early env.early
  have hrun : c.dev = Keypad.run _ (env.late.map .timer) := hdev.trans (timers_eq_run _ _)
  have hlist : c.dev.notifyList = [] :=
    (congrArg (·.notifyList) hdev).trans ((apart_notifyList.polls _ _).trans hblank.notifyList)
  refine ⟨⟨?_, ?_, ?_⟩, fun kind _ => hevents kind, _, hblank, hrun⟩
  · rw [hrun]
    exact (run_refines hblank.sound _).2
  · rw [hlist]
    exact List.nodup_nil
  · simp [hlist]

end Born

/-! ### One call -/

variable {d d' : Driver α} {es : List (Event α)} {call : DriverCall α} {status : UInt64}

omit [Keyed α] [Inhabited α] in
/-- Opening and closing the keypad device when no device is there. -/
theorem supported_run (openStatus : UInt64) :
    services.Run ∅ (keypadControllerDriverSupported openStatus).2 ∅ := by
  rw [keypadControllerDriverSupported]
  split
  · exact .nil _
  · refine Run.append (s := [.acquire .keypadDevice]) (K := {.keypadDevice})
      (acquire_run ?_ ?_ fun a => ?_) (release_run ?_ ?_ fun a => ?_)
    · exact Set.notMem_empty _
    · simp [Resource.rests]
    · simp
    · simp
    · simp [Resource.rests]
    · simp

omit [Keyed α] [Inhabited α] in
/-- As long as there is a device, the keypad device cannot be opened. -/
theorem byDriver_some {c : ConsoleIn α} {openStatus : StatusCode}
    (hfits : ByDriver d.consoleIn.isSome openStatus) (h : d.consoleIn = some c) :
    openStatus = efiAlreadyStarted := hfits (by rw [h]; rfl)

omit [Keyed α] [Inhabited α] in
/-- Without a device nothing is held. -/
theorem held_none (h : d.consoleIn = none) : d.held = ∅ := by rw [Driver.held, h]

omit [Keyed α] [Inhabited α] in
/-- With a device all that it has is held. -/
theorem held_some {c : ConsoleIn α} (h : d.consoleIn = some c) : d.held = c.held true true := by
  rw [Driver.held, h]

/-- A `Start` that is told that the device is open does nothing. -/
theorem already_started {env : StartEnv α} (h : env.openStatus = efiAlreadyStarted) :
    keypadControllerDriverStart env = some ⟨efiAlreadyStarted, none, []⟩ := by
  rw [keypadControllerDriverStart, h, if_pos efiError_efiAlreadyStarted]

/-- **A `Supported` in a run** leaves everything as it was. -/
theorem supported_step (h : Kept d es) {openStatus : StatusCode}
    (hfits : DriverCall.Fits d (.supported openStatus))
    (hstep : d.step (.supported openStatus) = some (status, d')) :
    Kept d' es ∧ d'.consoleIn = d.consoleIn ∧
      ∃ new, d'.trace = d.trace ++ new ∧ services.Run d.held new d.held := by
  cases hstep
  have hrun : services.Run d.held (keypadControllerDriverSupported openStatus).2 d.held := by
    cases hc : d.consoleIn with
    | none =>
        rw [held_none hc]
        exact supported_run _
    | some c =>
        rw [byDriver_some hfits hc]
        exact .nil _
  exact ⟨⟨h.run.append hrun, h.device⟩, rfl, _, rfl, hrun⟩

/-- **A `Start` in a run** leaves everything as it was, or a device where there was none. -/
theorem start_step (h : Kept d es) {env : StartEnv α} (hfits : DriverCall.Fits d (.start env))
    (hstep : d.step (.start env) = some (status, d')) :
    (efiError status = true ∧ Kept d' es ∧ d'.consoleIn = d.consoleIn ∧
        ∃ new, d'.trace = d.trace ++ new ∧ services.Run d.held new d.held) ∨
      (efiError status = false ∧ Kept d' (env.late.map .timer) ∧ d.consoleIn = none ∧
        ∃ c, d'.consoleIn = some c ∧ ∀ kind, (c.events kind).isSome) := by
  rw [Driver.step] at hstep
  cases hc : d.consoleIn with
  | some c =>
      rw [already_started (byDriver_some hfits hc)] at hstep
      cases hstep
      refine .inl ⟨rfl, ⟨?_, ?_⟩, ?_, [], ?_, .nil _⟩
      · have hheld := held_some (d := ⟨Option.or none d.consoleIn, d.trace ++ []⟩) hc
        rw [hheld, List.append_nil, ← held_some hc]
        exact h.run
      · exact h.device
      · exact hc
      · rfl
  | none =>
      obtain ⟨run, hrun, hout⟩ := Option.map_eq_some_iff.mp hstep
      cases hout
      have htrace := h.run
      rw [held_none hc] at htrace ⊢
      rcases start_spec hrun with ⟨herror, hnone, hspec⟩ | ⟨hok, c, hsome, hspec, hevents, hdev⟩
      · have hgone : run.consoleIn.or d.consoleIn = none := by rw [hnone, hc]; rfl
        refine .inl ⟨herror, ⟨?_, fun c hc' => ?_⟩, hgone, _, rfl, hspec⟩
        · rw [held_none hgone]
          exact htrace.append hspec
        · rw [hgone] at hc'
          cases hc'
      · have hthere : run.consoleIn.or d.consoleIn = some c := by rw [hsome]; rfl
        refine .inr ⟨hok, ⟨?_, fun c' hc' => ?_⟩, rfl, c, hthere, hevents⟩
        · rw [held_some hthere]
          exact htrace.append hspec
        · rw [hthere] at hc'
          cases hc'
          exact device_of_start hevents hdev

omit [Keyed α] [Inhabited α] in
/-- A device without its timer is still the one that the entries made. -/
theorem Device.clear_timer [Keyed α] {c : ConsoleIn α} (h : Device c es) :
    Device (c.clear [.timer]) es where
  registry := h.registry
  events kind hkind := by
    rw [clear_events (by simpa using hkind)]
    exact h.events kind hkind
  born := h.born

/-- **A `Stop` in a run** leaves nothing, or the device, perhaps without its timer. -/
theorem stop_step (h : Kept d es) {env : StopEnv}
    (hstep : d.step (.stop env) = some (status, d')) :
    Kept d' es ∧ (efiError status = false → d'.consoleIn = none) ∧
      ∀ c, efiError status = true → d.consoleIn = some c →
        d'.consoleIn = some c ∨ d'.consoleIn = some (c.clear [.timer]) := by
  cases hstep
  have htrace := h.run
  cases hc : d.consoleIn with
  | none =>
      rw [held_none hc] at htrace
      refine ⟨⟨htrace.append (.nil _), ?_⟩, fun _ => rfl, ?_⟩
      · rintro c hc'
        cases hc'
      · rintro c - hc'
        cases hc'
  | some c =>
      rw [held_some hc] at htrace
      have hdevice := h.device c hc
      obtain ⟨run, hrun, hspec⟩ := stop_spec env (c := c) hdevice.registry.nodup
      rw [hrun]
      rcases hspec with ⟨herror, c', hthere, hspec, hc'⟩ | ⟨hok, hgone, hspec⟩
      · have hdevice' : Device c' es := by
          rcases hc' with rfl | rfl
          · exact hdevice
          · exact hdevice.clear_timer
        refine ⟨⟨?_, fun c'' hc'' => ?_⟩, fun hok => ?_, fun c'' _ hc'' => ?_⟩
        · rw [held_some (c := c') hthere]
          exact htrace.append hspec
        · cases hthere.symm.trans hc''
          exact hdevice'
        · rw [herror] at hok
          cases hok
        · cases hc''
          rw [hthere]
          rcases hc' with rfl | rfl
          · exact .inl rfl
          · exact .inr rfl
      · refine ⟨⟨?_, fun c'' hc'' => ?_⟩, fun _ => hgone, fun c'' herror => ?_⟩
        · rw [held_none (d := ⟨run.consoleIn, _⟩) hgone]
          exact htrace.append hspec
        · cases hgone.symm.trans hc''
        · rw [hok] at herror
          cases herror

/-- **An entry in a run** goes to the device, if it reaches one. -/
theorem entry_step (h : Kept d es) {e : Event α} (hfits : DriverCall.Fits d (.entry e))
    (hstep : d.step (.entry e) = some (status, d')) :
    efiError status = false ∧ Kept d' (DriverCall.entries d es status (.entry e)) := by
  rw [Driver.step] at hstep
  simp only [DriverCall.entries]
  cases hc : d.consoleIn with
  | none =>
      rw [hc] at hstep
      cases hstep
      exact ⟨rfl, h⟩
  | some c =>
      rw [hc] at hstep
      dsimp only at hstep ⊢
      by_cases hreaches : reaches c e = true
      · rw [if_pos hreaches] at hstep ⊢
        cases hstep
        obtain ⟨dev, hblank, hdev⟩ := (h.device c hc).born
        have hregistry := (h.device c hc).registry
        have htrace := h.run
        rw [held_some hc] at htrace
        refine ⟨rfl, htrace.append (entry_spec hregistry (hfits c hc)), fun c' hc' => ?_⟩
        cases hc'
        refine ⟨registry_event hregistry (hfits c hc), (h.device c hc).events, dev, hblank, ?_⟩
        rw [Keypad.run, List.foldl_append, ← Keypad.run, ← hdev]
        rfl
      · rw [if_neg hreaches] at hstep ⊢
        cases hstep
        exact ⟨rfl, h⟩

/-! ### The results -/

/-- **In every run the driver holds exactly what its state says**, and its device is a run of the
entries since the reset. -/
theorem Driver.Run.kept (h : d.Run es) : Kept d es := by
  induction h with
  | init => exact ⟨.nil _, fun c hc => by cases hc⟩
  | @step d d' es call status h hfits hstep ih =>
      cases call with
      | supported openStatus => exact (supported_step ih hfits hstep).1
      | start env =>
          rw [DriverCall.entries]
          rcases start_step ih hfits hstep with ⟨herror, hkept, -⟩ | ⟨hok, hkept, -⟩
          · rw [if_pos herror]
            exact hkept
          · rw [if_neg (by simp [hok])]
            exact hkept
      | stop env => exact (stop_step ih hstep).1
      | entry e => exact (entry_step ih hfits hstep).2

/-- A call goes astray just when a `Start` that opened the keypad device gets no memory. -/
theorem step_eq_none_iff (hfits : call.Fits d) : d.step call = none ↔
    d.consoleIn = none ∧ ∃ env, call = .start env ∧ efiError env.openStatus = false ∧
      env.pool = none := by
  cases call with
  | supported openStatus => simp [Driver.step]
  | stop env => simp [Driver.step]
  | entry e =>
      rw [Driver.step]
      cases d.consoleIn with
      | none => simp
      | some c =>
          dsimp only
          split <;> simp
  | start env =>
      rw [Driver.step, Option.map_eq_none_iff]
      cases hc : d.consoleIn with
      | none => simp [start_eq_none_iff]
      | some c => simp [start_eq_none_iff, byDriver_some hfits hc]

/-- What every call does to the books and to the device. -/
theorem Kept.managed (h : Kept d es) (hfits : call.Fits d)
    (hstep : d.step call = some (status, d')) (hkept : Kept d' (call.entries d es status)) :
    Managed d call status d' := by
  have hrun := hkept.run
  have hground := hrun.grounded Custody.grounded_empty
  cases call with
  | supported openStatus =>
      obtain ⟨-, hsame, new, hnew, hidle⟩ := supported_step h hfits hstep
      refine ⟨hrun, hrun.balanced, hground, fun _ => ⟨hsame, new, hnew, hidle.idle⟩, ?_, ?_, ?_⟩
      · rintro env ⟨⟩
      · rintro env ⟨⟩
      · rintro env c ⟨⟩
  | start env =>
      have hcases := start_step h hfits hstep
      refine ⟨hrun, hrun.balanced, hground, ?_, ?_, ?_, ?_⟩
      · rintro (⟨_, ⟨⟩⟩ | ⟨env', -, herror⟩)
        rcases hcases with ⟨-, -, hsame, new, hnew, hidle⟩ | ⟨hok, -⟩
        · exact ⟨hsame, new, hnew, hidle.idle⟩
        · rw [hok] at herror
          cases herror
      · rintro env' ⟨⟩ hok
        rcases hcases with ⟨herror, -⟩ | ⟨-, -, hnone, hthere⟩
        · rw [hok] at herror
          cases herror
        · exact ⟨hnone, hthere⟩
      · rintro env' ⟨⟩
      · rintro env' c ⟨⟩
  | stop env =>
      obtain ⟨-, hgone, hleft⟩ := stop_step h hstep
      refine ⟨hrun, hrun.balanced, hground, ?_, ?_, ?_, ?_⟩
      · rintro (⟨_, ⟨⟩⟩ | ⟨_, ⟨⟩, -⟩)
      · rintro env' ⟨⟩
      · rintro env' ⟨⟩ hok
        rw [held_none (hgone hok)] at hrun
        exact ⟨hgone hok, hrun.idle⟩
      · rintro env' c ⟨⟩ herror hc
        exact hleft c herror hc
  | entry e =>
      refine ⟨hrun, hrun.balanced, hground, ?_, ?_, ?_, ?_⟩
      · rintro (⟨_, ⟨⟩⟩ | ⟨_, ⟨⟩, -⟩)
      · rintro env ⟨⟩
      · rintro env ⟨⟩
      · rintro env c ⟨⟩

/-- **Every call in every run is managed**: nothing is taken twice or without its ground, nothing is
given back twice or from under what rests on it, a `Start` that fails gives back all it took, and
after a `Stop` that succeeds nothing is left. Only a `Start` without memory goes astray. -/
theorem driver_managed (h : d.Run es) (hfits : call.Fits d) :
    (d.step call = none ↔ d.consoleIn = none ∧ ∃ env, call = .start env ∧
        efiError env.openStatus = false ∧ env.pool = none) ∧
      ∀ status d', d.step call = some (status, d') → Managed d call status d' :=
  ⟨step_eq_none_iff hfits, fun _ _ hstep =>
    h.kept.managed hfits hstep (Driver.Run.step h hfits hstep).kept⟩

/-- A `Start` whose calls all succeed. -/
def plainStart : StartEnv EfiKeyData where
  openStatus := 0
  pool := some 16
  event
    | .waitForKey => some 1
    | .waitForKeyEx => some 2
    | .timer => some 3
    | .keyNotifyProcess => some 4
  setTimerStatus := 0
  early := []
  controllerNameTable := some 5
  late := []
  installStatus := 0

/-- A registration for the letter `a`. -/
def listen : Event EfiKeyData := .notify (.register (some letterA) 7 true 32)

/-- The driver after the `Start`, and after the registration. -/
def afterStart : Driver EfiKeyData :=
  ((Driver.init.step (.start plainStart)).map Prod.snd).getD .init

def listening : Driver EfiKeyData :=
  ((afterStart.step (.entry listen)).map Prod.snd).getD .init

/-- The run that leads there. -/
theorem run_listening : listening.Run [listen] := by
  have hstart : Driver.init.step (.start plainStart) = some (0, afterStart) := rfl
  have hentry : afterStart.step (.entry listen) = some (0, listening) := rfl
  have hfresh : DriverCall.Fits afterStart (.entry listen) := by
    rintro c hc x hx
    cases hc
    cases hx
  have hfits : DriverCall.Fits Driver.init (.start plainStart) := fun h => by cases h
  have hrun : afterStart.Run [] := .step .init hfits hstart
  exact .step hrun hfresh hentry

/-- So the driver can be stopped with a registration left. -/
theorem driver_managed_listening : ∃ status d',
    listening.step (.stop ⟨0, 0, 0⟩) = some (status, d') ∧ d'.consoleIn = none ∧
      services.Idle d'.trace := by
  have hfits : DriverCall.Fits listening (.stop ⟨0, 0, 0⟩) := trivial
  exact ⟨_, _, rfl, ((driver_managed run_listening hfits).2 _ _ rfl).stopped _ rfl rfl⟩

omit [Inhabited α] in
/-- From a blank device, no key is lost, duplicated or reordered. -/
theorem Blank.accounted {dev : KeypadConsoleInDev α} (h : Blank dev) (es : List (Event α)) :
    Accounted (history dev es) (Keypad.run dev es) := by
  obtain ⟨hrun, hsound⟩ := run_refines h.sound es
  rw [h.pending] at hrun
  exact
    { head_lt := hsound.efiKeyQueue.head_lt
      tail_lt := hsound.efiKeyQueue.tail_lt
      notifyHead_lt := hsound.efiKeyQueueForNotify.head_lt
      notifyTail_lt := hsound.efiKeyQueueForNotify.tail_lt
      conserved := hrun.conserves
      in_order := hrun.delivered_sublist
      stroke := fun _ _ hmem => hrun.shows hmem
      strokeEx := fun _ _ hmem => hrun.shows hmem
      fate := fun _ hmem => hrun.fate hmem }

/-- **No key or registration outlives its device**: whatever came before, a device is what the
entries since its reset made of a blank one. Its keys are accounted for from there, and its
registrations keep handles of their own. -/
theorem device_accounted (h : d.Run es) {c : ConsoleIn α} (hc : d.consoleIn = some c) :
    ∃ dev, Blank dev ∧ c.dev = Keypad.run dev es ∧ Accounted (history dev es) c.dev ∧
      (c.dev.notifyList.map (·.handle)).Nodup := by
  obtain ⟨dev, hblank, hdev⟩ := (h.kept.device c hc).born
  refine ⟨dev, hblank, hdev, ?_, (h.kept.device c hc).registry.nodup⟩
  rw [hdev]
  exact hblank.accounted es

/-- The device with its registration. -/
theorem device_accounted_listening : ∃ c dev, listening.consoleIn = some c ∧ Blank dev ∧
    c.dev = Keypad.run dev [listen] ∧ Accounted (history dev [listen]) c.dev ∧
    (c.dev.notifyList.map (·.handle)).Nodup := by
  obtain ⟨dev, h⟩ := device_accounted run_listening rfl
  exact ⟨_, dev, rfl, h⟩

end Binding

end Keypad

end Msm8998
