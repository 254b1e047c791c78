import Msm8998.TouchHandles

/-!
# A Touch Driver That Starts Once

This module adds `Rmi4AbsolutePointerDriverBindingSupported` and the device protocol of the
controller to the driver. `Start` opens the protocol `BY_DRIVER`; neither its error exit nor `Stop`
closes it, and `Stop` asks for it once more. What `OpenProtocol` answers is an input of each call;
the runs are those in which it answers as it is documented to, `Request.ByDriver`.

## Main results

* `start_opensBus_le`: a `Start` opens the bus at most once, whatever it meets.
* `startedOnce`: in every run one `Start` at most gets past `OpenProtocol`.
-/

namespace Msm8998

namespace Touch

/-! ### The device protocol -/

/-- The driver, and whether it has the device protocol open `BY_DRIVER`. -/
structure Board where
  driver : Driver
  opened : Bool

/-- The board before the first call. -/
def Board.init : Board := ⟨Driver.init, false⟩

/-- `Rmi4AbsolutePointerDriverBindingSupported`: its status, and whether the protocol is open when
it returns; `CloseProtocol` follows an `OpenProtocol` that succeeds. -/
def rmi4AbsolutePointerDriverBindingSupported (openStatus : StatusCode) (opened : Bool) :
    StatusCode × Bool :=
  if efiError openStatus then (openStatus, opened) else (efiSuccess, false)

/-- A call of the driver binding, or the `ExitBootServices` callback. -/
inductive Request
  | supported (openStatus : StatusCode)
  | call (call : Call)

/-- `OpenProtocol` answers this call as it is documented to. -/
def Request.ByDriver (b : Board) : Request → Prop
  | .supported openStatus => Msm8998.ByDriver b.opened openStatus
  | .call (.start env) => Msm8998.ByDriver b.opened env.openStatus
  | .call _ => True

/-- A `Start` to which `OpenProtocol` does not answer with an error. -/
def Request.opensDevice : Request → Bool
  | .call (.start env) => !efiError env.openStatus
  | _ => false

/-- What a `Start` does on this board. -/
def Board.start (b : Board) (env : Env) : Option StartRun :=
  rmi4AbsolutePointerDriverBindingStart (b.driver.envOf env) b.driver.globals

/-- One call. A `Stop` that succeeds has come by its second `OpenProtocol`. -/
def Board.step (b : Board) : Request → Option Board
  | .supported openStatus =>
      some { b with opened := (rmi4AbsolutePointerDriverBindingSupported openStatus b.opened).2 }
  | .call (.start env) =>
      (b.driver.step (.start env)).map fun driver =>
        ⟨driver, b.opened || !efiError env.openStatus⟩
  | .call (.stop env) =>
      (b.driver.step (.stop env)).map fun driver =>
        ⟨driver, b.opened || decide (driver.history.head? = some .stopped)⟩
  | .call .exitBootServices =>
      (b.driver.step .exitBootServices).map fun driver => { b with driver }

/-- The runs of the driver, with their calls. -/
inductive Board.Run : Board → List Request → Prop
  | init : Board.Run Board.init []
  | step {b b' : Board} {requests : List Request} {r : Request} (h : Board.Run b requests)
      (hopen : r.ByDriver b) (hstep : b.step r = some b') : Board.Run b' (requests ++ [r])

/-! ### How often the bus is opened -/

/-- The events that open the bus. -/
def Event.opensBus (e : Event) : Bool := (handles.acquires e).isSome

/-- A quiet trace opens no bus. -/
theorem countP_opensBus_of_quiet {t : List Event} (h : handles.Quiet t) :
    t.countP Event.opensBus = 0 := by
  rw [List.countP_eq_zero]
  intro e he
  rw [Event.opensBus, (h e he).1]
  exact Bool.false_ne_true

/-- How often the bus was opened. -/
def Bus.opened (bus : Bus) : ℕ := bus.trace.countP Event.opensBus

/-- Nor does a quiet part of a run. -/
theorem Bus.Quietly.opened_eq {a b : Bus} (h : a.Quietly b) : b.opened = a.opened := by
  obtain ⟨rest, hrest, hquiet⟩ := h
  rw [Bus.opened, hrest, List.countP_append, countP_opensBus_of_quiet hquiet, Nat.add_zero,
    Bus.opened]

/-- The probe opens nothing; without a handle it ends at its first read. -/
theorem probeLoop_quietly {env : Env} {fuel : ℕ} {p : Probe} {flow : Flow}
    (h : probeLoop env fuel p = some flow) : p.bus.Quietly flow.probe.bus := by
  by_cases hnull : p.inst.i2cController = 0
  · cases fuel with
    | zero => cases h
    | succ fuel =>
        have hstep : probeStep env p = .exit { p with status := efiInvalidParameter } := by
          simp only [probeStep, synaI2cRead, hnull, if_true]
          rfl
        rw [probeLoop, hstep] at h
        cases h
        exact Bus.Quietly.refl p.bus
  · exact (probeLoop_sameHandle env hnull h).1.quietly

/-- The error exit opens nothing. -/
theorem exitStart_opened (status : StatusCode) (inst : Instance) (installed : Bool) (bus : Bus) :
    (exitStart status inst installed bus).bus.opened = bus.opened := by
  rw [exitStart]
  by_cases hstatus : status = efiDeviceError
  · simp only [if_pos hstatus]
    rw [Bus.opened, Bus.log_trace, List.countP_append]
    rfl
  · simp only [if_neg hstatus]

/-- Nor does the code behind the probe. -/
theorem afterLoop_opened (env : Env) (flow : Flow) :
    (afterLoop env flow).bus.opened = flow.probe.bus.opened := by
  have hfinish (p : Probe) : (finishProbe env p).bus.opened = p.bus.opened := by
    rw [finishProbe]
    split
    · exact exitStart_opened _ _ _ _
    split
    · exact exitStart_opened _ _ _ _
    · exact exitStart_opened _ _ _ _
  cases flow with
  | condition p => exact hfinish p
  | leave p => exact hfinish p
  | exit p => exact exitStart_opened _ _ _ _

/-- **A start** opens the bus at most once. -/
theorem start_opensBus_le {env : Env} {globals : Globals} {run : StartRun}
    (h : rmi4AbsolutePointerDriverBindingStart env globals = some run) : run.bus.opened ≤ 1 := by
  rw [rmi4AbsolutePointerDriverBindingStart] at h
  dsimp only at h
  split at h
  · cases h
    exact Nat.zero_le 1
  cases hhandle : env.openI2c with
  | none =>
      rw [hhandle] at h
      cases h
      exact Nat.zero_le 1
  | some handle =>
      rw [hhandle] at h
      dsimp only at h
      have hpower := (powerUp_quietly { newInstance env.device with i2cController := handle }
        ((⟨0, 0, []⟩ : Bus).log (.i2cOpen env.device.controllerI2cDevice handle))).opened_eq
      split at h
      · cases h
        rw [exitStart_opened, hpower]
        exact le_rfl
      · obtain ⟨flow, hflow, rfl⟩ := Option.map_eq_some_iff.mp h
        rw [afterLoop_opened, (probeLoop_quietly hflow).opened_eq]
        exact hpower.le

/-- A stop opens nothing, and without an interface it does nothing. -/
theorem stop_opensBus {env : StopEnv} {interface : Option Instance} {run : StopRun}
    (h : rmi4AbsolutePointerDriverBindingStop env interface = some run) :
    run.trace.countP Event.opensBus = 0 ∧
      (interface = none → run = ⟨efiUnsupported, none, []⟩) := by
  cases interface with
  | none =>
      cases h
      exact ⟨rfl, fun _ => rfl⟩
  | some inst =>
      refine ⟨?_, fun hnone => by cases hnone⟩
      rw [rmi4AbsolutePointerDriverBindingStop] at h
      split at h
      · cases h
        rfl
      split at h
      · cases h
        rfl
      split at h
      · cases h
      · cases h
        rfl

/-- The callback opens nothing. -/
theorem exitBootService_opensBus (globals : Globals) :
    (synapticsTouchDxeExitBootService globals).countP Event.opensBus = 0 := by
  rw [synapticsTouchDxeExitBootService]
  split
  · rfl
  · rfl

/-! ### What every call keeps -/

/-- Before the first `Start` that gets past `OpenProtocol` the driver has done nothing; from then
on the device protocol is open, no other `Start` gets past it, and the bus has been opened at most
once. -/
structure Board.Kept (b : Board) (requests : List Request) : Prop where
  opened : b.opened = requests.any Request.opensDevice
  atMostOne : requests.countP Request.opensDevice ≤ 1
  once : b.driver.trace.countP Event.opensBus ≤ 1
  untouched : b.opened = false →
    b.driver.trace = [] ∧ b.driver.interface = none ∧ b.driver.globals = ⟨none, none⟩

/-- Before the first call. -/
theorem Board.kept_init : Board.init.Kept [] :=
  ⟨rfl, Nat.zero_le 1, Nat.zero_le 1, fun _ => ⟨rfl, rfl, rfl⟩⟩

section Steps

variable {b b' : Board} {requests : List Request}

/-- Whether the device was opened, after one more call. -/
theorem opensDevice_concat (requests : List Request) (r : Request) :
    (requests ++ [r]).any Request.opensDevice =
      (requests.any Request.opensDevice || r.opensDevice) := by
  rw [List.any_append, List.any_cons, List.any_nil, Bool.or_false]

/-- **A call that does not open the device** keeps what there was, if it opens no bus and, before
the device is opened, does nothing at all. -/
theorem Board.Kept.quiet {r : Request} (h : b.Kept requests) (hquiet : r.opensDevice = false)
    (hopened : b'.opened = b.opened)
    (hcount : b'.driver.trace.countP Event.opensBus = b.driver.trace.countP Event.opensBus)
    (hsame : b.opened = false → b'.driver.trace = b.driver.trace ∧
      b'.driver.interface = b.driver.interface ∧ b'.driver.globals = b.driver.globals) :
    b'.Kept (requests ++ [r]) where
  opened := by rw [hopened, h.opened, opensDevice_concat, hquiet, Bool.or_false]
  atMostOne := by
    rw [List.countP_append, List.countP_cons_of_neg (by simp [hquiet]), List.countP_nil]
    exact h.atMostOne
  once := hcount ▸ h.once
  untouched hb := by
    rw [hopened] at hb
    obtain ⟨htrace, hinterface, hglobals⟩ := hsame hb
    rw [htrace, hinterface, hglobals]
    exact h.untouched hb

/-- A `Start` that is refused leaves the driver as it was. -/
theorem step_refused {d : Driver} {env : Env} (h : efiError env.openStatus = true) :
    d.step (.start env) = some { d with history := .notStarted false :: d.history } := by
  have henv : efiError (d.envOf env).openStatus = true := by
    rw [Driver.envOf]
    split
    · exact h
    · exact h
  have hopens : env.opens = false := by rw [Env.opens, h]; rfl
  rw [Driver.step, rmi4AbsolutePointerDriverBindingStart]
  simp only [henv, if_true, Option.map_some, hopens, Bool.false_eq_true, if_false,
    List.append_nil]

/-- **Supported.** -/
theorem Board.Kept.supported {openStatus : StatusCode} (h : b.Kept requests)
    (hopen : ByDriver b.opened openStatus) (hstep : b.step (.supported openStatus) = some b') :
    b'.Kept (requests ++ [.supported openStatus]) := by
  rw [Board.step, Option.some.injEq] at hstep
  subst hstep
  refine h.quiet rfl ?_ rfl fun _ => ⟨rfl, rfl, rfl⟩
  rw [rmi4AbsolutePointerDriverBindingSupported]
  split
  · rfl
  · next hok => exact (hopen.isOpen_eq (Bool.eq_false_of_not_eq_true hok)).symm

/-- **Start.** -/
theorem Board.Kept.start {env : Env} (h : b.Kept requests)
    (hopen : ByDriver b.opened env.openStatus) (hstep : b.step (.call (.start env)) = some b') :
    b'.Kept (requests ++ [.call (.start env)]) := by
  rw [Board.step] at hstep
  obtain ⟨driver, hdriver, rfl⟩ := Option.map_eq_some_iff.mp hstep
  cases hstatus : efiError env.openStatus with
  | true =>
      rw [step_refused hstatus, Option.some.injEq] at hdriver
      subst hdriver
      have hquiet : (Request.call (.start env)).opensDevice = false := by
        rw [Request.opensDevice, hstatus]
        rfl
      exact h.quiet hquiet (Bool.or_false _) rfl fun _ => ⟨rfl, rfl, rfl⟩
  | false =>
      have hb : b.opened = false := hopen.isOpen_eq hstatus
      have hopens : (Request.call (.start env)).opensDevice = true := by
        rw [Request.opensDevice, hstatus]
        rfl
      obtain ⟨htrace, -, -⟩ := h.untouched hb
      rw [Driver.step] at hdriver
      obtain ⟨run, hrun, rfl⟩ := Option.map_eq_some_iff.mp hdriver
      refine ⟨?_, ?_, ?_, fun hopened => ?_⟩
      · rw [opensDevice_concat, ← h.opened, hb, hopens]
        rfl
      · -- no call before this one has opened the device
        have hnone : requests.countP Request.opensDevice = 0 := by
          have hany := h.opened.symm.trans hb
          rw [List.countP_eq_zero]
          exact List.any_eq_false.mp hany
        rw [List.countP_append, hnone, List.countP_singleton, if_pos hopens]
      · rw [htrace, List.nil_append]
        exact start_opensBus_le hrun
      · rw [hb] at hopened
        cases hopened

/-- **Stop.** -/
theorem Board.Kept.stop {env : StopEnv} (h : b.Kept requests)
    (hstep : b.step (.call (.stop env)) = some b') :
    b'.Kept (requests ++ [.call (.stop env)]) := by
  rw [Board.step] at hstep
  obtain ⟨driver, hdriver, rfl⟩ := Option.map_eq_some_iff.mp hstep
  rw [Driver.step] at hdriver
  obtain ⟨run, hrun, rfl⟩ := Option.map_eq_some_iff.mp hdriver
  obtain ⟨hcount, hnone⟩ := stop_opensBus hrun
  have hsum : (b.driver.trace ++ run.trace).countP Event.opensBus =
      b.driver.trace.countP Event.opensBus := by
    rw [List.countP_append, hcount, Nat.add_zero]
  cases hb : b.opened with
  | true =>
      refine h.quiet rfl ?_ hsum fun hopened => ?_
      · dsimp only
        rw [hb, Bool.true_or]
      · rw [hb] at hopened
        cases hopened
  | false =>
      -- no `Start` has got past `OpenProtocol`, so there is no interface to stop
      obtain ⟨-, hinterface, -⟩ := h.untouched hb
      obtain ⟨rfl⟩ := hnone hinterface
      exact h.quiet rfl hb.symm hsum fun _ => ⟨List.append_nil _, hinterface.symm, rfl⟩

/-- **ExitBootServices.** -/
theorem Board.Kept.exitBootServices (h : b.Kept requests)
    (hstep : b.step (.call .exitBootServices) = some b') :
    b'.Kept (requests ++ [.call .exitBootServices]) := by
  rw [Board.step] at hstep
  obtain ⟨driver, hdriver, rfl⟩ := Option.map_eq_some_iff.mp hstep
  rw [Driver.step, Option.some.injEq] at hdriver
  subst hdriver
  refine h.quiet rfl rfl ?_ fun hb => ?_
  · rw [List.countP_append, exitBootService_opensBus, Nat.add_zero]
  · obtain ⟨-, -, hglobals⟩ := h.untouched hb
    refine ⟨?_, rfl, rfl⟩
    rw [hglobals]
    exact List.append_nil _

end Steps

/-- **Every run.** -/
theorem Board.Run.kept {b : Board} {requests : List Request} (h : b.Run requests) :
    b.Kept requests := by
  induction h with
  | init => exact Board.kept_init
  | @step b b' requests r h hopen hstep ih =>
      cases r with
      | supported openStatus => exact ih.supported hopen hstep
      | call call =>
          cases call with
          | start env => exact ih.start hopen hstep
          | stop env => exact ih.stop hstep
          | exitBootServices => exact ih.exitBootServices hstep

/-- **The driver starts once.** Over any sequence of calls, with `OpenProtocol` as it is documented
and any other answers: one `Start` at most gets past `OpenProtocol`, and the bus is opened at most
once; the device protocol is open `BY_DRIVER` from that `Start` on; and from then on, whatever
became of it and whatever was stopped since, the controller is not supported any more, and every
`Start` returns `EFI_ALREADY_STARTED` and does nothing. -/
theorem startedOnce {requests : List Request} {b : Board} (h : b.Run requests) :
    requests.countP Request.opensDevice ≤ 1 ∧
    b.driver.trace.countP Event.opensBus ≤ 1 ∧
    b.opened = requests.any Request.opensDevice ∧
    (b.opened = true →
      (∀ openStatus, ByDriver b.opened openStatus →
        rmi4AbsolutePointerDriverBindingSupported openStatus b.opened =
          (efiAlreadyStarted, true)) ∧
      ∀ env, ByDriver b.opened env.openStatus →
        (b.start env).map (·.status) = some efiAlreadyStarted ∧
        ∃ b', b.step (.call (.start env)) = some b' ∧ b'.opened = true ∧
          b'.driver.trace = b.driver.trace ∧ b'.driver.interface = b.driver.interface ∧
          b'.driver.globals = b.driver.globals) := by
  have hkept := h.kept
  refine ⟨hkept.atMostOne, hkept.once, hkept.opened,
    fun hopened => ⟨fun openStatus hopen => ?_, fun env hopen => ⟨?_, ?_⟩⟩⟩
  · rw [hopen hopened, hopened]
    rfl
  · have henv : (b.driver.envOf env).openStatus = efiAlreadyStarted := by
      rw [Driver.envOf]
      split
      · exact hopen hopened
      · exact hopen hopened
    rw [Board.start, rmi4AbsolutePointerDriverBindingStart, henv]
    rfl
  · have hrefused : efiError env.openStatus = true := by
      rw [hopen hopened]
      rfl
    have hstep : b.step (.call (.start env)) =
        some ⟨{ b.driver with history := .notStarted false :: b.driver.history }, true⟩ := by
      rw [Board.step, step_refused hrefused, Option.map_some, hopened, Bool.true_or]
    exact ⟨_, hstep, rfl, rfl, rfl, rfl⟩

/-- A start that works and a stop that works. -/
def startAndStop : List Request := [.call (.start answering), .call (.stop willing)]

/-- The board after the first, and after both. -/
def startedBoard : Board := (Board.init.step (.call (.start answering))).getD Board.init
def stoppedBoard : Board := (startedBoard.step (.call (.stop willing))).getD Board.init

/-- Both calls are a run. -/
theorem run_startAndStop : stoppedBoard.Run startAndStop := by
  have hstart : Board.init.step (.call (.start answering)) = some startedBoard := rfl
  have hstop : startedBoard.step (.call (.stop willing)) = some stoppedBoard := rfl
  have hopen : (Request.call (.start answering)).ByDriver Board.init := fun h => by cases h
  have hrun : startedBoard.Run [.call (.start answering)] := .step .init hopen hstart
  exact .step hrun trivial hstop

/-- The driver that was stopped cannot be started again. -/
theorem startedOnce_stopped :
    startAndStop.countP Request.opensDevice ≤ 1 ∧
    stoppedBoard.driver.trace.countP Event.opensBus ≤ 1 ∧
    stoppedBoard.opened = startAndStop.any Request.opensDevice ∧
    (stoppedBoard.opened = true →
      (∀ openStatus, ByDriver stoppedBoard.opened openStatus →
        rmi4AbsolutePointerDriverBindingSupported openStatus stoppedBoard.opened =
          (efiAlreadyStarted, true)) ∧
      ∀ env, ByDriver stoppedBoard.opened env.openStatus →
        (stoppedBoard.start env).map (·.status) = some efiAlreadyStarted ∧
        ∃ b', stoppedBoard.step (.call (.start env)) = some b' ∧ b'.opened = true ∧
          b'.driver.trace = stoppedBoard.driver.trace ∧
          b'.driver.interface = stoppedBoard.driver.interface ∧
          b'.driver.globals = stoppedBoard.driver.globals) :=
  startedOnce run_startAndStop

end Touch

end Msm8998
