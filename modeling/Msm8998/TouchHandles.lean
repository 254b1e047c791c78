import Msm8998.Ledger
import Msm8998.TouchProbe

/-!
# The I2C Handle of the Touch Driver

This module adds `Rmi4AbsolutePointerDriverBindingStop` and the `ExitBootServices` callback to
the model of `SynapticsTouchDxe` and follows the I2C handle through any sequence of the three.

The protocol database is modelled by the one entry that matters: the absolute-pointer
interface on the controller, which can be opened while it is there and installed while it is
not. All other outcomes are inputs of the call.

## Main results

* `start_opened`: what a `Start` does with the handle it opened;
* `Held.step`: a call that meets `Call.Fits` returns, and after it at most one handle is open,
  the one the installed interface uses;
* `run_managed`: in a run of such calls every call returns, closes every handle at most once
  and leaves none behind.
-/

namespace Msm8998

namespace Touch

/-! ### Stopping the driver -/

/-- The outcomes of the calls that one `Stop` makes: the status of the first `OpenProtocol`
on a controller that has the interface, the status of `UninstallProtocolInterface`, and
whether the second `OpenProtocol`, whose status is not looked at, gives out a pointer. -/
structure StopEnv where
  openStatus : StatusCode
  uninstallStatus : StatusCode
  device : Bool

/-- What a `Stop` leaves behind: its status, the interface on the controller, and the
events. -/
structure StopRun where
  status : StatusCode
  interface : Option Instance
  trace : List Event

/-- `Rmi4AbsolutePointerDriverBindingStop`; `none` when it calls through the pointer that the
second `OpenProtocol` did not give out. -/
def rmi4AbsolutePointerDriverBindingStop (env : StopEnv) (interface : Option Instance) :
    Option StopRun :=
  match interface with
  | none => some ⟨efiUnsupported, none, []⟩
  | some inst =>
      if efiError env.openStatus then some ⟨efiUnsupported, interface, []⟩
      else if efiError env.uninstallStatus then some ⟨env.uninstallStatus, interface, []⟩
      else if !env.device then none
      else some ⟨efiSuccess, none, [.i2cClose inst.i2cController]⟩

/-- `SynapticsTouchDxeExitBootService`. -/
def synapticsTouchDxeExitBootService (globals : Globals) : List Event :=
  match globals.rmi4I2cDeviceIo, globals.i2cInstance with
  | some _, some inst => [.i2cClose inst.i2cController]
  | _, _ => []

/-! ### Sequences of calls -/

/-- A call of the driver, with the outcomes it meets. -/
inductive Call
  | start (env : Env)
  | stop (env : StopEnv)
  | exitBootServices

/-- How a call ended: a `Start` with or without success, and in the second case whether it
had opened a handle, a `Stop` likewise, or the callback and whether it closed a handle. -/
inductive Outcome
  | started
  | notStarted (opened : Bool)
  | stopped
  | notStopped
  | exited (closed : Bool)
deriving Repr, DecidableEq

/-- The driver between calls: its globals, the interface on the controller, all events, and
the outcomes of the calls so far, the last one first. -/
structure Driver where
  globals : Globals
  interface : Option Instance
  trace : List Event
  history : List Outcome

/-- The driver before its first call. -/
def Driver.init : Driver := ⟨⟨none, none⟩, none, [], []⟩

/-- The device protocol is opened and the I2C driver gives out a handle. -/
def Env.opens (env : Env) : Bool := !efiError env.openStatus && env.openI2c.isSome

/-- An interface that is there already cannot be installed again. -/
def Driver.envOf (d : Driver) (env : Env) : Env :=
  if d.interface.isSome then { env with installStatus := efiInvalidParameter } else env

/-- One call. -/
def Driver.step (d : Driver) : Call → Option Driver
  | .start env =>
      (rmi4AbsolutePointerDriverBindingStart (d.envOf env) d.globals).map fun run =>
        { globals := run.globals
          interface := if run.installed then run.inst else d.interface
          trace := d.trace ++ run.bus.trace
          history := (if efiError run.status then .notStarted env.opens else .started) ::
            d.history }
  | .stop env =>
      (rmi4AbsolutePointerDriverBindingStop env d.interface).map fun run =>
        { globals := d.globals
          interface := run.interface
          trace := d.trace ++ run.trace
          history := (if efiError run.status then .notStopped else .stopped) :: d.history }
  | .exitBootServices =>
      let closing := synapticsTouchDxeExitBootService d.globals
      some { d with
        trace := d.trace ++ closing
        history := .exited (!closing.isEmpty) :: d.history }

/-- The handles the I2C driver gave out and took back. -/
def handles : Ledger Event ℕ where
  acquires
    | .i2cOpen _ handle => some handle
    | _ => none
  releases
    | .i2cClose handle => some handle
    | _ => none

/-- What is asked of a call that led from `d` to `d'`. -/
structure Managed (d d' : Driver) : Prop where
  once : handles.Balanced d'.trace
  notStarted : ∀ opened, d'.history.head? = some (.notStarted opened) →
    ∃ new, d'.trace = d.trace ++ new ∧ handles.Balanced new ∧ handles.Idle new
  stopped : d'.history.head? = some .stopped → handles.Idle d'.trace
  exited : ∀ closed, d'.history.head? = some (.exited closed) → handles.Idle d'.trace

/-! ### The condition -/

/-- The answers of the controller lead the probe to `InstallProtocolInterface`: to an `F12`
entry or to the end of the page list. -/
def ReachesInstall (env : Env) : Prop :=
  ∃ n, Walked env n ∧ ((∃ d, env.read n = some d ∧ d.function = touchRmiF12Function) ∨
    (Blank env n ∧ FirstOnPage env n))

/-- A `Start` that opens a handle meets no failure which the driver reports other than with
`EFI_DEVICE_ERROR`. -/
structure Env.Fits (env : Env) (interface : Option Instance) : Prop where
  gpio : env.device.gpioTlmmProtocol = true
  reset : env.device.controllerResetPin ≠ 0
  handle : env.openI2c ≠ some 0
  install : ReachesInstall env → interface = none ∧
    (efiError env.installStatus = true → env.installStatus = efiDeviceError)

/-- After the last `Start` that succeeded, no `Stop` succeeded and no callback closed. -/
def live : List Outcome → Bool
  | .started :: _ => true
  | .stopped :: _ | .exited true :: _ => false
  | _ :: history => live history
  | [] => false

/-- After the last `Start` that succeeded, no other opened a handle, no `Stop` succeeded and
no callback closed. -/
def current : List Outcome → Bool
  | .started :: _ => true
  | .notStarted true :: _ | .stopped :: _ | .exited true :: _ => false
  | _ :: history => current history
  | [] => false

/-- The condition on one call. -/
def Call.Fits (d : Driver) : Call → Prop
  | .start env => env.opens = true → env.Fits d.interface
  | .stop env => d.interface.isSome = true → efiError env.openStatus = false →
      efiError env.uninstallStatus = false → live d.history = true ∧ env.device = true
  | .exitBootServices => d.globals.i2cInstance.isSome = true → current d.history = true

/-- The runs whose calls all meet the condition. -/
inductive Driver.Run : Driver → Prop
  | init : Run Driver.init
  | step {d d' : Driver} {call : Call} (h : Run d) (hfits : call.Fits d)
      (hstep : d.step call = some d') : Run d'

/-! ### What the probe does to the handle -/

/-- The loop variables with which a pass ends. -/
def Flow.probe : Flow → Probe
  | .condition p | .leave p | .exit p => p

/-- What went out in between neither opens nor closes a handle. -/
def Bus.Quietly (bus bus' : Bus) : Prop :=
  ∃ rest, bus'.trace = bus.trace ++ rest ∧ handles.Quiet rest

/-- Nothing happens quietly. -/
theorem Bus.Quietly.refl (bus : Bus) : bus.Quietly bus :=
  ⟨[], (List.append_nil _).symm, fun _ he => absurd he List.not_mem_nil⟩

/-- Quiet parts of a run behind each other are quiet. -/
theorem Bus.Quietly.trans {a b c : Bus} (h : a.Quietly b) (h' : b.Quietly c) : a.Quietly c := by
  obtain ⟨rest, hrest, hquiet⟩ := h
  obtain ⟨rest', hrest', hquiet'⟩ := h'
  exact ⟨rest ++ rest', by rw [hrest', hrest, List.append_assoc], hquiet.append hquiet'⟩

/-- An event without a handle is quiet. -/
theorem Bus.Quietly.log {a b : Bus} (h : a.Quietly b) {e : Event}
    (hacquires : handles.acquires e = none) (hreleases : handles.releases e = none) :
    a.Quietly (b.log e) := by
  refine h.trans ⟨[e], rfl, fun e' he => ?_⟩
  rw [List.mem_singleton.mp he]
  exact ⟨hacquires, hreleases⟩

/-- The probe goes on with the same handle and neither opens nor closes one. -/
structure SameHandle (p p' : Probe) : Prop where
  handle : p'.inst.i2cController = p.inst.i2cController
  quietly : p.bus.Quietly p'.bus

/-- The handle stays the same from step to step. -/
theorem SameHandle.trans {p q r : Probe} (h : SameHandle p q) (h' : SameHandle q r) :
    SameHandle p r where
  handle := h'.handle.trans h.handle
  quietly := h.quietly.trans h'.quietly

/-- A failed transfer ends the probe with `EFI_DEVICE_ERROR`. -/
theorem probeStep_sameHandle (env : Env) {p : Probe} (hnull : p.inst.i2cController ≠ 0) :
    SameHandle p (probeStep env p).probe ∧
      ∀ q, probeStep env p = .exit q → q.status = efiDeviceError := by
  have hread : ∀ a d, handles.Quiet [.i2cRead a d] := by simp [Ledger.Quiet, handles]
  have hboth : ∀ a d a' d' ok, handles.Quiet [.i2cRead a d, .i2cWrite a' d' ok] := by
    simp [Ledger.Quiet, handles]
  simp only [probeStep, synaI2cRead, synaI2cWrite, hnull, if_false]
  cases env.read p.bus.reads with
  | none =>
      refine ⟨⟨rfl, _, rfl, hread _ _⟩, ?_⟩
      rintro q hq
      cases hq
      rfl
  | some d =>
      simp only [efiError_efiSuccess, Bool.false_eq_true, if_false, Bus.log_writes]
      split
      · exact ⟨⟨rfl, _, rfl, hread _ _⟩, fun _ hq => by cases hq⟩
      split
      · exact ⟨⟨rfl, _, rfl, hread _ _⟩, fun _ hq => by cases hq⟩
      split
      · rcases Bool.eq_false_or_eq_true (env.write p.bus.writes) with hwrite | hwrite
        · simp only [hwrite, if_true, efiError_efiSuccess, Bool.false_eq_true, if_false]
          exact ⟨⟨rfl, _, List.append_assoc _ _ _, hboth _ _ _ _ _⟩, fun _ hq => by cases hq⟩
        · simp only [hwrite, if_true, efiError_efiDeviceError, Bool.false_eq_true, if_false]
          refine ⟨⟨rfl, _, List.append_assoc _ _ _, hboth _ _ _ _ _⟩, ?_⟩
          rintro q hq
          cases hq
          rfl
      · exact ⟨⟨rfl, _, rfl, hread _ _⟩, fun _ hq => by cases hq⟩

/-- The whole loop. -/
theorem probeLoop_sameHandle (env : Env) {fuel : ℕ} {p : Probe} {flow : Flow}
    (hnull : p.inst.i2cController ≠ 0) (h : probeLoop env fuel p = some flow) :
    SameHandle p flow.probe ∧ ∀ q, flow = .exit q → q.status = efiDeviceError := by
  induction fuel generalizing p with
  | zero => cases h
  | succ fuel ih =>
      obtain ⟨hsame, hexit⟩ := probeStep_sameHandle env hnull
      rw [probeLoop] at h
      cases hstep : probeStep env p with
      | condition p' =>
          rw [hstep] at h hsame
          dsimp only at h
          split at h
          · have hnull' : p'.inst.i2cController ≠ 0 := hsame.handle ▸ hnull
            obtain ⟨hsame', hexit'⟩ := ih hnull' h
            exact ⟨hsame.trans hsame', hexit'⟩
          · cases h
            exact ⟨hsame, fun _ hq => by cases hq⟩
      | leave p' =>
          rw [hstep] at h hsame
          cases h
          exact ⟨hsame, fun _ hq => by cases hq⟩
      | exit p' =>
          rw [hstep] at h hsame hexit
          cases h
          exact ⟨hsame, hexit⟩

/-- A pass that leaves the loop has found `F12` or the end of the page list. -/
theorem Looking.reachesInstall {env : Env} {inst : Instance} {n : ℕ} {p q : Probe}
    (hnull : inst.i2cController ≠ 0) (h : Looking env inst n p)
    (hleave : probeStep env p = .leave q) : ReachesInstall env := by
  cases hread : env.read n with
  | none =>
      simp only [probeStep, synaI2cRead, h.inst_eq, hnull, h.reads_eq, hread, if_false,
        efiError_efiDeviceError, if_true, reduceCtorEq] at hleave
  | some d =>
      by_cases hF12 : d.function = touchRmiF12Function
      · exact ⟨n, h.walked, .inl ⟨d, hread, hF12⟩⟩
      by_cases hend : d.function = 0 ∧ p.address = touchRmiPageInfoAddress
      · exact ⟨n, h.walked, .inr ⟨(blank_iff hread).mpr hend.1, h.address_iff.mp hend.2⟩⟩
      · simp only [probeStep, synaI2cRead, h.inst_eq, hnull, h.reads_eq, hread, if_false,
          efiError_efiSuccess, Bool.false_eq_true, hF12, hend] at hleave
        split_ifs at hleave

/-- So has a loop that ends with its counters in range. -/
theorem probeLoop_reachesInstall {env : Env} {inst : Instance} {fuel n : ℕ} {p q : Probe}
    (hnull : inst.i2cController ≠ 0) (h : Looking env inst n p)
    (hloop : probeLoop env fuel p = some (.leave q))
    (hrange : q.address > 0 ∧ q.function < touchRmiMaxFunctions) : ReachesInstall env := by
  induction fuel generalizing n p with
  | zero => cases hloop
  | succ fuel ih =>
      have hspec := probeStep_spec hnull h
      rw [probeLoop] at hloop
      cases hstep : probeStep env p with
      | condition p' =>
          rw [hstep] at hloop hspec
          dsimp only at hloop
          split at hloop
          · rename_i hcond
            cases hspec with
            | full _ _ hfull _ => exact absurd hcond.2 (UInt8.not_lt.mpr hfull)
            | again _ hlook => exact ih hlook hloop
          · rename_i hcond
            cases hloop
            exact absurd hrange hcond
      | leave p' => exact h.reachesInstall hnull hstep
      | exit p' =>
          rw [hstep] at hloop
          cases hloop

/-! ### A start that opens a handle -/

/-- Switching a supply is quiet. -/
theorem Bus.Quietly.supplyOn {a b : Bus} (h : a.Quietly b) (pin : UInt32) (activeLow : Bool) :
    a.Quietly (supplyOn pin activeLow b) := by
  rw [Touch.supplyOn]
  split
  · exact (h.log rfl rfl).log rfl rfl
  · exact h

/-- So is powering up the controller. -/
theorem powerUp_quietly (inst : Instance) (bus : Bus) :
    bus.Quietly (synaPowerUpController inst bus).2 := by
  have h := Bus.Quietly.refl bus
  simp only [synaPowerUpController]
  split
  · exact h
  split
  · exact h
  · exact ((((h.supplyOn _ _).supplyOn _ _).log rfl rfl).log rfl rfl).log rfl rfl

/-- How a start ends: with `EFI_DEVICE_ERROR`, or as `InstallProtocolInterface` did. -/
def EndsAs (env : Env) (status : StatusCode) (installed : Bool) : Prop :=
  (status = efiDeviceError ∧ installed = false) ∨
    (ReachesInstall env ∧ status = env.installStatus ∧ installed = !efiError env.installStatus)

/-- The code at the label `exit`, after the probe. -/
theorem afterProbe (env : Env) {inst : Instance} {bus : Bus} (hnull : inst.i2cController ≠ 0)
    (hbus : Untouched bus) :
    ∃ status inst' installed bus',
      (probeLoop env probeFuel (startProbe inst bus)).map (afterLoop env) =
        some (exitStart status inst' installed bus') ∧
      inst'.i2cController = inst.i2cController ∧ bus.Quietly bus' ∧
      EndsAs env status installed := by
  have hlook := hbus.looking env inst
  have hspec := probeLoop_spec hnull probeFuel 0 _ hlook le_rfl
  cases hloop : probeLoop env probeFuel (startProbe inst bus) with
  | none =>
      rw [hloop] at hspec
      cases hspec
  | some flow =>
      obtain ⟨hsame, hexit⟩ := probeLoop_sameHandle env hnull hloop
      cases flow with
      | condition p =>
          rw [hloop] at hspec
          cases hspec
      | exit p =>
          exact ⟨_, _, _, _, rfl, hsame.handle, hsame.quietly, .inl ⟨hexit p rfl, rfl⟩⟩
      | leave p =>
          rw [Option.map_some, afterLoop, finishProbe]
          split
          · exact ⟨_, _, _, _, rfl, hsame.handle, hsame.quietly, .inl ⟨rfl, rfl⟩⟩
          split
          · exact ⟨_, _, _, _, rfl, hsame.handle, hsame.quietly, .inl ⟨rfl, rfl⟩⟩
          · rename_i hfunction haddress
            have hreach := probeLoop_reachesInstall hnull hlook hloop
              ⟨UInt8.not_le.mp haddress, UInt8.not_le.mp hfunction⟩
            exact ⟨_, _, _, _, rfl, hsame.handle, hsame.quietly, .inr ⟨hreach, rfl, rfl⟩⟩

/-- **A start that opens a handle** keeps it in the instance the globals point to, and closes
it when it ends with `EFI_DEVICE_ERROR`. -/
theorem start_opened {env : Env} {handle : ℕ} (hopen : efiError env.openStatus = false)
    (hhandle : env.openI2c = some handle) (hnull : handle ≠ 0)
    (hgpio : env.device.gpioTlmmProtocol = true) (hreset : env.device.controllerResetPin ≠ 0)
    (globals : Globals) :
    ∃ run inst quiet, rmi4AbsolutePointerDriverBindingStart env globals = some run ∧
      run.inst = some inst ∧ run.globals = ⟨some inst.rmi4Device, some inst⟩ ∧
      inst.i2cController = handle ∧ handles.Quiet quiet ∧
      run.bus.trace = [.i2cOpen env.device.controllerI2cDevice handle] ++ quiet ++
        (if run.status = efiDeviceError then [.i2cClose handle] else []) ∧
      EndsAs env run.status run.installed := by
  let inst : Instance := { newInstance env.device with i2cController := handle }
  let bus : Bus := (⟨0, 0, []⟩ : Bus).log (.i2cOpen env.device.controllerI2cDevice handle)
  have hbus : Untouched bus := Untouched.log ⟨rfl, rfl, fun _ he => absurd he List.not_mem_nil⟩ rfl
  have hnull' : inst.i2cController ≠ 0 := hnull
  have hpower : efiError (synaPowerUpController inst bus).1 = false :=
    (powerUp_error_iff inst bus).mpr ⟨hgpio, hreset⟩
  obtain ⟨status, inst', installed, bus', hrun, hsame, hquietly, hends⟩ :=
    afterProbe env hnull' (hbus.powerUp inst)
  obtain ⟨quiet, htrace, hquiet⟩ := (powerUp_quietly inst bus).trans hquietly
  have hstart : rmi4AbsolutePointerDriverBindingStart env globals =
      some (exitStart status inst' installed bus') := by
    simp only [rmi4AbsolutePointerDriverBindingStart, hopen, Bool.false_eq_true, if_false,
      hhandle]
    rw [if_neg (by rw [hpower]; exact Bool.false_ne_true)]
    exact hrun
  refine ⟨_, inst', quiet, hstart, rfl, rfl, hsame, hquiet, ?_, hends⟩
  have hclose : inst'.i2cController = handle := hsame
  simp only [exitStart, hclose]
  split
  · rw [Bus.log_trace, htrace]
    rfl
  · rw [htrace, List.append_nil]
    rfl

/-- A start that opens no handle ends with an error and leaves everything as it was. -/
theorem start_not_opened {env : Env} (h : env.opens = false) (globals : Globals) :
    ∃ run, rmi4AbsolutePointerDriverBindingStart env globals = some run ∧
      efiError run.status = true ∧ run.installed = false ∧ run.globals = globals ∧
      run.bus.trace = [] := by
  rw [rmi4AbsolutePointerDriverBindingStart]
  cases hopen : efiError env.openStatus with
  | true => exact ⟨_, if_pos rfl, hopen, rfl, rfl, rfl⟩
  | false =>
      cases hhandle : env.openI2c with
      | none => exact ⟨_, rfl, rfl, rfl, rfl, rfl⟩
      | some handle => simp [Env.opens, hopen, hhandle] at h

/-! ### What a run keeps -/

/-- A driver whose instance is the current one is live. -/
theorem live_of_current {history : List Outcome} (h : current history = true) :
    live history = true := by
  induction history with
  | nil => cases h
  | cons outcome history ih =>
      cases outcome with
      | started => rfl
      | stopped => cases h
      | notStopped => exact ih h
      | notStarted opened =>
          cases opened with
          | true => cases h
          | false => exact ih h
      | exited closed =>
          cases closed with
          | true => cases h
          | false => exact ih h

/-- At most one handle is open, and it is the one the interface uses. While no other start
interfered, the globals point to the same. -/
structure Held (d : Driver) : Prop where
  balanced : handles.Balanced d.trace
  live : live d.history = true →
    ∃ inst, d.interface = some inst ∧ handles.Holds inst.i2cController d.trace
  idle : Touch.live d.history = false → handles.Idle d.trace
  current : current d.history = true → ∃ inst inst', d.interface = some inst ∧
    d.globals.i2cInstance = some inst' ∧ inst'.i2cController = inst.i2cController
  paired : d.globals.rmi4I2cDeviceIo.isSome = d.globals.i2cInstance.isSome
  unset : d.globals.i2cInstance = none → Touch.live d.history = false

/-- Before the first call nothing is held. -/
theorem held_init : Held Driver.init where
  balanced := Ledger.balanced_nil
  live h := by cases h
  idle _ _ := rfl
  current h := by cases h
  paired := rfl
  unset _ := rfl

/-- The controller answers the same, whatever `InstallProtocolInterface` does. -/
theorem ReachesInstall.congr {env : Env} {status : StatusCode}
    (h : ReachesInstall { env with installStatus := status }) : ReachesInstall env := by
  obtain ⟨n, hwalked, hstop⟩ := h
  exact ⟨n, ⟨hwalked.described, hwalked.switched, hwalked.room⟩, hstop⟩

/-- What a start that opens a handle comes to under the condition. -/
theorem Driver.endsAs {d : Driver} {env : Env} {status : StatusCode} {installed : Bool}
    (hfits : env.Fits d.interface) (h : EndsAs (d.envOf env) status installed) :
    (status = efiDeviceError ∧ installed = false) ∨
      (d.interface = none ∧ efiError status = false ∧ installed = true) := by
  rcases h with hfailed | ⟨hreach, hstatus, hinstalled⟩
  · exact .inl hfailed
  have hreach' : ReachesInstall env := by
    rw [Driver.envOf] at hreach
    split at hreach
    · exact hreach.congr
    · exact hreach
  obtain ⟨hnone, hinstall⟩ := hfits.install hreach'
  have henv : d.envOf env = env := by rw [Driver.envOf, hnone]; rfl
  rw [henv] at hstatus hinstalled
  cases herror : efiError env.installStatus with
  | true =>
      rw [herror] at hinstalled
      exact .inl ⟨hstatus.trans (hinstall herror), hinstalled⟩
  | false =>
      rw [herror] at hinstalled
      exact .inr ⟨hnone, by rw [hstatus, herror], hinstalled⟩

/-- What a call that meets the condition comes to. -/
def Keeps (d : Driver) (call : Call) : Prop :=
  ∃ d', d.step call = some d' ∧ Held d' ∧ Managed d d'

/-- A start that opened no handle. -/
theorem Held.start_not_opened {d : Driver} {env : Env} (h : Held d)
    (hopens : env.opens = false) : Keeps d (.start env) := by
  have hopens' : (d.envOf env).opens = false := by
    rw [Driver.envOf]
    split
    · exact hopens
    · exact hopens
  obtain ⟨run, hrun, herror, hinstalled, hglobals, htrace⟩ :=
    Touch.start_not_opened hopens' d.globals
  refine ⟨{ d with history := .notStarted false :: d.history }, ?_,
    ⟨h.balanced, h.live, h.idle, h.current, h.paired, h.unset⟩, h.balanced, ?_, nofun, nofun⟩
  · simp only [Driver.step, hrun, Option.map_some, herror, hinstalled, hglobals, htrace, hopens,
      if_true, Bool.false_eq_true, if_false, List.append_nil]
  · exact fun _ _ => ⟨[], (List.append_nil _).symm, Ledger.balanced_nil, fun _ => rfl⟩

/-- A start that opened a handle. -/
theorem Held.start_opened {d : Driver} {env : Env} (h : Held d) (hopens : env.opens = true)
    (hfits : env.Fits d.interface) : Keeps d (.start env) := by
  obtain ⟨hopen, hsome⟩ : efiError env.openStatus = false ∧ env.openI2c.isSome = true := by
    simpa [Env.opens] using hopens
  obtain ⟨handle, hhandle⟩ := Option.isSome_iff_exists.mp hsome
  have hnull : handle ≠ 0 := fun hzero => hfits.handle (hzero ▸ hhandle)
  have henv : (d.envOf env).openStatus = env.openStatus ∧ (d.envOf env).openI2c = env.openI2c ∧
      (d.envOf env).device = env.device := by
    rw [Driver.envOf]
    split <;> exact ⟨rfl, rfl, rfl⟩
  obtain ⟨run, inst, quiet, hrun, hinst, hglobals, hsame, hquiet, htrace, hends⟩ :=
    Touch.start_opened (by rw [henv.1, hopen]) (by rw [henv.2.1, hhandle]) hnull
      (by rw [henv.2.2, hfits.gpio]) (by rw [henv.2.2]; exact hfits.reset) d.globals
  -- the handle is held until the last event of the start
  have hopened : handles.Balanced
      ([.i2cOpen (d.envOf env).device.controllerI2cDevice handle] ++ quiet) :=
    (Ledger.balanced_nil.concat rfl).append hquiet.balanced
  have hholds : handles.Holds handle
      ([.i2cOpen (d.envOf env).device.controllerI2cDevice handle] ++ quiet) :=
    (Ledger.holds_singleton rfl rfl).append_idle hquiet.idle
  refine ⟨_, by rw [Driver.step, hrun, Option.map_some], ?_⟩
  rw [hinst, hglobals, hopens]
  rcases Driver.endsAs hfits hends with ⟨hstatus, hinstalled⟩ | ⟨hnone, hstatus, hinstalled⟩
  · rw [if_pos hstatus] at htrace
    rw [htrace, hstatus, hinstalled]
    have hbalanced := hopened.release hholds (e := .i2cClose handle) rfl
    have hidle := hholds.release (e := .i2cClose handle) rfl rfl
    refine ⟨⟨h.balanced.append hbalanced, fun hlive => ?_, fun hlive => (h.idle hlive).append hidle,
      nofun, rfl, nofun⟩, h.balanced.append hbalanced,
      fun _ _ => ⟨_, rfl, hbalanced, hidle⟩, nofun, nofun⟩
    obtain ⟨inst', hinterface, hheld⟩ := h.live hlive
    exact ⟨inst', hinterface, hheld.append_idle hidle⟩
  · have hne : run.status ≠ efiDeviceError := by
      rintro heq
      rw [heq, efiError_efiDeviceError] at hstatus
      cases hstatus
    rw [if_neg hne, List.append_nil] at htrace
    rw [htrace, hstatus, hinstalled]
    have hdown : Touch.live d.history = false := by
      by_contra hlive
      obtain ⟨inst', hinterface, -⟩ := h.live (Bool.eq_true_of_not_eq_false hlive)
      rw [hnone] at hinterface
      cases hinterface
    have hbalanced := h.balanced.append hopened
    refine ⟨⟨hbalanced, fun _ => ⟨inst, rfl, ?_⟩, nofun, fun _ => ⟨inst, inst, rfl, rfl, rfl⟩, rfl,
      nofun⟩, hbalanced, nofun, nofun, nofun⟩
    rw [hsame]
    exact (h.idle hdown).append_holds hholds

/-- **Start.** -/
theorem Held.start {d : Driver} {env : Env} (h : Held d) (hfits : (Call.start env).Fits d) :
    Keeps d (.start env) := by
  cases hopens : env.opens with
  | false => exact h.start_not_opened hopens
  | true => exact h.start_opened hopens (hfits hopens)

/-- A stop that fails changes nothing. -/
theorem Held.notStopped {d : Driver} (h : Held d) :
    Held { d with history := .notStopped :: d.history } ∧
      Managed d { d with history := .notStopped :: d.history } :=
  ⟨⟨h.balanced, h.live, h.idle, h.current, h.paired, h.unset⟩, h.balanced, nofun, nofun, nofun⟩

/-- **Stop.** -/
theorem Held.stop {d : Driver} {env : StopEnv} (h : Held d) (hfits : (Call.stop env).Fits d) :
    Keeps d (.stop env) := by
  have hfailed : ∀ status, efiError status = true →
      rmi4AbsolutePointerDriverBindingStop env d.interface = some ⟨status, d.interface, []⟩ →
      Keeps d (.stop env) := by
    intro status herror hrun
    refine ⟨_, ?_, h.notStopped⟩
    rw [Driver.step, hrun, Option.map_some, herror, if_pos rfl, List.append_nil]
  cases hinterface : d.interface with
  | none =>
      refine hfailed efiUnsupported rfl ?_
      simp only [rmi4AbsolutePointerDriverBindingStop, hinterface]
  | some inst =>
      cases hopen : efiError env.openStatus with
      | true =>
          refine hfailed efiUnsupported rfl ?_
          simp only [rmi4AbsolutePointerDriverBindingStop, hinterface, hopen, if_true]
      | false =>
      cases huninstall : efiError env.uninstallStatus with
      | true =>
          refine hfailed env.uninstallStatus huninstall ?_
          simp only [rmi4AbsolutePointerDriverBindingStop, hinterface, hopen, huninstall,
            Bool.false_eq_true, if_false, if_true]
      | false =>
      obtain ⟨hlive, hdevice⟩ := hfits (hinterface ▸ rfl) hopen huninstall
      obtain ⟨inst', hinterface', hholds⟩ := h.live hlive
      rw [hinterface, Option.some.injEq] at hinterface'
      rw [← hinterface'] at hholds
      have hbalanced := h.balanced.release hholds (e := .i2cClose inst.i2cController) rfl
      have hidle := hholds.release (e := .i2cClose inst.i2cController) rfl rfl
      refine ⟨⟨d.globals, none, d.trace ++ [.i2cClose inst.i2cController],
        .stopped :: d.history⟩, ?_, ⟨hbalanced, nofun, fun _ => hidle, nofun, h.paired,
        fun _ => rfl⟩, hbalanced, nofun, fun _ => hidle, nofun⟩
      simp only [Driver.step, rmi4AbsolutePointerDriverBindingStop, hinterface, hopen, huninstall,
        hdevice, Bool.not_true, Bool.false_eq_true, if_false, Option.map_some,
        efiError_efiSuccess]

/-- **ExitBootServices.** -/
theorem Held.exitBootServices {d : Driver} (h : Held d)
    (hfits : Call.exitBootServices.Fits d) : Keeps d .exitBootServices := by
  refine ⟨_, rfl, ?_⟩
  cases hglobal : d.globals.i2cInstance with
  | none =>
      have hclosing : synapticsTouchDxeExitBootService d.globals = [] := by
        rw [synapticsTouchDxeExitBootService, hglobal]
        cases d.globals.rmi4I2cDeviceIo <;> rfl
      have hidle := h.idle (h.unset hglobal)
      rw [hclosing, List.append_nil]
      exact ⟨⟨h.balanced, h.live, h.idle, h.current, h.paired, h.unset⟩, h.balanced, nofun, nofun,
        fun _ _ => hidle⟩
  | some inst =>
      obtain ⟨device, hdevice⟩ := Option.isSome_iff_exists.mp
        (h.paired.trans (hglobal ▸ Option.isSome_some))
      have hclosing : synapticsTouchDxeExitBootService d.globals =
          [.i2cClose inst.i2cController] := by
        simp only [synapticsTouchDxeExitBootService, hglobal, hdevice]
      have hcurrent := hfits (hglobal ▸ Option.isSome_some)
      obtain ⟨used, inst', hinterface, hglobal', hsame⟩ := h.current hcurrent
      obtain ⟨used', hinterface', hholds⟩ := h.live (live_of_current hcurrent)
      rw [hglobal, Option.some.injEq] at hglobal'
      rw [hinterface, Option.some.injEq] at hinterface'
      rw [← hinterface', ← hsame, ← hglobal'] at hholds
      rw [hclosing]
      have hbalanced := h.balanced.release hholds (e := .i2cClose inst.i2cController) rfl
      have hidle := hholds.release (e := .i2cClose inst.i2cController) rfl rfl
      refine ⟨⟨hbalanced, nofun, fun _ => hidle, nofun, h.paired, fun hnone => ?_⟩, hbalanced,
        nofun, nofun, fun _ _ => hidle⟩
      rw [hglobal] at hnone
      cases hnone

/-- **One call** that meets the condition returns and keeps the invariant. -/
theorem Held.step {d : Driver} {call : Call} (h : Held d) (hfits : call.Fits d) :
    Keeps d call := by
  cases call with
  | start env => exact h.start hfits
  | stop env => exact h.stop hfits
  | exitBootServices => exact h.exitBootServices hfits

/-- **Every run.** -/
theorem Driver.Run.held {d : Driver} (h : Driver.Run d) : Held d := by
  induction h with
  | init => exact held_init
  | step _ hfits hstep ih =>
      obtain ⟨d', hstep', hheld, -⟩ := ih.step hfits
      rw [hstep, Option.some.injEq] at hstep'
      exact hstep' ▸ hheld

/-- **The handle is managed exactly once** in every run whose calls meet the condition, and
every such call returns. -/
theorem run_managed {d : Driver} {call : Call} (h : Driver.Run d) (hfits : call.Fits d) :
    ∃ d', d.step call = some d' ∧ Managed d d' := by
  obtain ⟨d', hstep, -, hmanaged⟩ := h.held.step hfits
  exact ⟨d', hstep, hmanaged⟩

/-- A start that works: the first entry the controller describes is `F12`. -/
def answering : Env where
  openStatus := efiSuccess
  device :=
    { xMax := 1080, yMax := 1920, xMin := 0, yMin := 0
      controllerResetPin := 89, controllerVddPin := 0, controllerVddIoPin := 0
      controllerVddCtlActiveLow := false, controllerI2cDevice := 5, gpioTlmmProtocol := true }
  openI2c := some 1
  read := fun _ => some ⟨#[0, 0, 0, 6, 0, 0x12], rfl⟩
  write := fun _ => true
  installStatus := efiSuccess

/-- A stop that works. -/
def willing : StopEnv := ⟨efiSuccess, efiSuccess, true⟩

/-- The driver after such a start. -/
def afterStart : Driver := (Driver.init.step (.start answering)).getD Driver.init

/-- The first `Start`. -/
theorem init_step_answering : Driver.init.step (.start answering) = some afterStart := rfl

/-- It meets the condition. -/
theorem answering_fits : (Call.start answering).Fits Driver.init :=
  fun _ => ⟨rfl, by decide, by decide, fun _ => ⟨rfl, nofun⟩⟩

/-- So does the `Stop` after it. -/
theorem willing_fits : (Call.stop willing).Fits afterStart := fun _ _ _ => ⟨rfl, rfl⟩

/-- A start and a stop. -/
theorem afterStart_stop_managed :
    ∃ d, afterStart.step (.stop willing) = some d ∧ Managed afterStart d :=
  run_managed (.step .init answering_fits init_step_answering) willing_fits

/-- After a start and a stop, `ExitBootServices` closes the handle again. -/
theorem exitBootServices_closes_again :
    ∃ d d', Driver.init.step (.start answering) = some afterStart ∧
      afterStart.step (.stop willing) = some d ∧ d.step .exitBootServices = some d' ∧
      ¬ Managed d d' := by
  refine ⟨_, _, init_step_answering, rfl, rfl, fun h => ?_⟩
  have hle := h.once.released_le 1
  exact absurd hle (by decide)

end Touch

end Msm8998
