import Msm8998.SmbiosRoundTrip

/-!
# The Calls of the SMBIOS Entry Point

`PlatformSmbiosDriverEntryPoint` looks at no status, so what its calls come to is a pattern of
outcomes, one for each, and the entry point makes the same calls under every pattern. Only the
variable `SmbiosHandle` carries something from one call to the next.

## Main results

* `logSmbiosData_outcome`: one call under an outcome;
* `platformSmbiosDriverEntryPoint_eq`: all calls under a pattern of outcomes.
-/

open Fallible

namespace Msm8998

namespace Smbios

/-- What one call comes to: the protocol is missing, no memory is left, `Add` fails, or `Add`
takes the record and assigns it a handle. -/
inductive Outcome
  | noProtocol (status : StatusCode) (h : efiError status = true)
  | outOfResources
  | addFailed (status : StatusCode) (h : status ≠ efiSuccess)
  | added (handle : Handle)

/-- The services at a call with this outcome. -/
def Outcome.services : Outcome → Services
  | .noProtocol status _ => ⟨status, fun _ => true, fun _ => (status, 0)⟩
  | .outOfResources => ⟨efiSuccess, fun _ => false, fun _ => (efiSuccess, 0)⟩
  | .addFailed status _ => ⟨efiSuccess, fun _ => true, fun _ => (status, 0)⟩
  | .added handle => ⟨efiSuccess, fun _ => true, fun _ => (efiSuccess, handle)⟩

/-- The handle that was assigned, if the record was taken. -/
def Outcome.handle : Outcome → Option Handle
  | .added handle => some handle
  | _ => none

/-- The record that goes to `Add`. -/
def recordBytes (template : Template) (stringPack : List CString) : List UInt8 :=
  template.bytes ++ (packBytes stringPack ++
    List.replicate (recordSize template (some stringPack) - template.length -
      (packBytes stringPack).length) 0)

/-- What a call leaves behind. -/
def Outcome.logged (outcome : Outcome) (record : List UInt8) : Logged :=
  match outcome with
  | .noProtocol status _ => ⟨status, none, none⟩
  | .outOfResources => ⟨efiOutOfResources, none, none⟩
  | .addFailed status _ => ⟨status, some record, none⟩
  | .added handle => ⟨efiSuccess, some record, some handle⟩

/-- **One call.** -/
theorem logSmbiosData_outcome {strings : List CString} (h : Small strings) (template : Template)
    (outcome : Outcome) :
    logSmbiosData outcome.services template (some strings) =
      .ok (outcome.logged (recordBytes template strings)) := by
  have hroom : template.length + (packBytes strings).length + 1 ≤
      recordSize template (some strings) := by
    cases strings with
    | nil =>
        rw [recordSize_nil]
        exact Nat.le_succ _
    | cons s strings =>
        have hfits := h.fits template
        rw [recordSize_cons, Nat.mod_eq_of_lt (by omega)]
  have hfill := fillRecord_eq_ok hroom
  rw [List.append_assoc, ← recordBytes] at hfill
  have hlocate : ¬ efiError efiSuccess = true := by decide
  cases outcome with
  | noProtocol status herr => rw [logSmbiosData, Outcome.services, if_pos herr, Outcome.logged]
  | outOfResources =>
      rw [logSmbiosData, Outcome.services, if_neg hlocate]
      rfl
  | addFailed status hne =>
      rw [logSmbiosData, Outcome.services, if_neg hlocate]
      simp only [if_true, hfill, ok_bind, if_neg hne, Outcome.logged]
  | added handle =>
      rw [logSmbiosData, Outcome.services, if_neg hlocate]
      simp only [if_true, hfill, ok_bind, Outcome.logged]

/-! ### Sequences of calls -/

/-- The handles after a call. -/
def Step.next (s : Step) (outcome : Outcome) (handles : Handles) : Handles :=
  s.store (if s.wantsHandle then
    { handles with smbiosHandle := outcome.handle.getD handles.smbiosHandle } else handles)

/-- The call that is made with these handles. -/
def Step.call (s : Step) (outcome : Outcome) (handles : Handles) : Call :=
  ⟨s.template handles, s.stringPack,
    outcome.logged (recordBytes (s.template handles) s.stringPack)⟩

/-- The calls from the `n`-th on. -/
def callsFrom (pattern : ℕ → Outcome) : ℕ → Handles → List Step → List Call
  | _, _, [] => []
  | n, handles, s :: steps =>
      s.call (pattern n) handles :: callsFrom pattern (n + 1) (s.next (pattern n) handles) steps

/-- The handles after these calls. -/
def handlesAfter (pattern : ℕ → Outcome) : ℕ → Handles → List Step → Handles
  | _, handles, [] => handles
  | n, handles, s :: steps => handlesAfter pattern (n + 1) (s.next (pattern n) handles) steps

variable {pattern : ℕ → Outcome}

/-- One step makes its call and keeps the handle it gets. -/
theorem Run.step_eq {s : Step} (hs : Small s.stringPack) (run : Run) :
    run.step (fun n => (pattern n).services) s =
      .ok ⟨run.calls ++ [s.call (pattern run.calls.length) run.handles],
        s.next (pattern run.calls.length) run.handles⟩ := by
  rw [Run.step, logSmbiosData_outcome hs, ok_bind, Step.next, Step.call]
  cases s.wantsHandle with
  | false => rfl
  | true => cases pattern run.calls.length <;> rfl

/-- The steps make their calls one after the other. -/
theorem foldlM_step_eq {steps : List Step} (hsteps : ∀ s ∈ steps, Small s.stringPack)
    (run : Run) :
    steps.foldlM (Run.step fun n => (pattern n).services) run =
      .ok ⟨run.calls ++ callsFrom pattern run.calls.length run.handles steps,
        handlesAfter pattern run.calls.length run.handles steps⟩ := by
  induction steps generalizing run with
  | nil => rw [callsFrom, handlesAfter, List.append_nil]; rfl
  | cons s steps ih =>
      rw [List.foldlM_cons, Run.step_eq (hsteps s List.mem_cons_self), ok_bind,
        ih fun t ht => hsteps t (List.mem_cons_of_mem s ht), callsFrom, handlesAfter,
        List.length_append, List.length_singleton, List.append_assoc, List.singleton_append]

/-- The calls of steps behind each other. -/
theorem callsFrom_append (n : ℕ) (handles : Handles) (steps steps' : List Step) :
    callsFrom pattern n handles (steps ++ steps') =
      callsFrom pattern n handles steps ++
        callsFrom pattern (n + steps.length) (handlesAfter pattern n handles steps) steps' := by
  induction steps generalizing n handles with
  | nil => rfl
  | cons s steps ih =>
      rw [List.cons_append, callsFrom, callsFrom, handlesAfter, ih, List.cons_append,
        List.length_cons, Nat.add_assoc, Nat.add_comm 1]

/-- Every step makes one call. -/
theorem length_callsFrom (n : ℕ) (handles : Handles) (steps : List Step) :
    (callsFrom pattern n handles steps).length = steps.length := by
  induction steps generalizing n handles with
  | nil => rfl
  | cons s steps ih => rw [callsFrom, List.length_cons, ih, List.length_cons]

/-- Calls that pass no handle pointer leave the handles as they are. -/
theorem getElem?_callsFrom_plain (pattern : ℕ → Outcome) (n : ℕ) (handles : Handles) {β : Type}
    (template : β → Handles → Template) (stringPack : List CString) (xs : List β) (i : ℕ) :
    (callsFrom pattern n handles (xs.map fun x => .plain (template x) stringPack))[i]? =
      xs[i]?.map fun x =>
        (Step.plain (template x) stringPack).call (pattern (n + i)) handles := by
  induction xs generalizing n i with
  | nil => rfl
  | cons x xs ih =>
      cases i with
      | zero => rfl
      | succ i =>
          rw [List.map_cons, callsFrom, List.getElem?_cons_succ, List.getElem?_cons_succ,
            ← Nat.add_assoc, Nat.add_right_comm]
          exact ih (n + 1) i

/-- The platform on which the calls come to this. -/
def Platform.underPattern (p : Platform) (pattern : ℕ → Outcome) : Platform :=
  { p with services := fun n => (pattern n).services }

/-- **All calls.** -/
theorem platformSmbiosDriverEntryPoint_eq (p : Platform) (pattern : ℕ → Outcome) :
    platformSmbiosDriverEntryPoint (p.underPattern pattern) =
      .ok (callsFrom pattern 0 p.handles p.steps) := by
  have hsteps : (p.underPattern pattern).steps = p.steps := rfl
  rw [platformSmbiosDriverEntryPoint, hsteps]
  exact (congrArg (· >>= fun run => .ok run.calls)
    (foldlM_step_eq p.steps_small ⟨[], p.handles⟩)).trans rfl

end Smbios

end Msm8998
