import Msm8998.KeypadAccounting

/-!
# What Polls and Reads Leave Alone

A poll of the keypad and a reader of its keys change the two queues and the counter of the last
poll, and nothing else. So a part of the device that does not depend on these is the same after
any of them.

## Main results

* `Apart.timer`, `Apart.worker`, `Apart.pass`, `Apart.wait`: such a part is left alone;
* `notifyList_event`: only registrations and their ends change the list of the registrations.
-/

namespace Msm8998

namespace Keypad

variable {α β : Type} [Keyed α]

/-- A part of the device that neither a poll nor a reader touches. -/
structure Apart (π : KeypadConsoleInDev α → β) : Prop where
  last : ∀ d last, π { d with last := last } = π d
  queue : ∀ d queue, π { d with efiKeyQueue := queue } = π d
  queues : ∀ d queue notify,
    π { d with efiKeyQueueForNotify := notify, efiKeyQueue := queue } = π d

variable {π : KeypadConsoleInDev α → β}

/-- A key that arrives changes the queues alone. -/
theorem Apart.arrive (h : Apart π) (d : KeypadConsoleInDev α) (k : α) :
    π (keypadReturnApiPushEfikeyBufTail d k) = π d := by
  rw [keypadReturnApiPushEfikeyBufTail]
  split
  · rfl
  · exact h.queues _ _ _

/-- A poll of the timer. -/
theorem Apart.timer (h : Apart π) (d : KeypadConsoleInDev α) (poll : Poll α) :
    π (keypadTimerHandler d poll) = π d := by
  have harrivals : ∀ (ks : List α) d, π (ks.foldl keypadReturnApiPushEfikeyBufTail d) = π d := by
    intro ks
    induction ks with
    | nil => exact fun _ => rfl
    | cons k ks ih => exact fun d => (ih _).trans (h.arrive d k)
  rw [keypadTimerHandler]
  split
  · rfl
  · exact (harrivals _ _).trans (h.last _ _)

/-- Any number of polls. -/
theorem Apart.polls (h : Apart π) (d : KeypadConsoleInDev α) (polls : List (Poll α)) :
    π (polls.foldl keypadTimerHandler d) = π d := by
  induction polls generalizing d with
  | nil => rfl
  | cons poll polls ih => rw [List.foldl_cons, ih, h.timer]

/-- The common part of the readers. -/
theorem Apart.worker (h : Apart π) (d : KeypadConsoleInDev α) (buffer : Bool) (poll : Poll α) :
    π (keypadReadKeyStrokeWorker d buffer poll).2 = π d := by
  simp only [keypadReadKeyStrokeWorker]
  split
  · rfl
  split
  · exact h.timer d poll
  split
  · exact h.timer d poll
  · exact (h.queue _ _).trans (h.timer d poll)

/-- A pass of `ReadKeyStroke`. -/
theorem Apart.pass (h : Apart π) (d : KeypadConsoleInDev α) (poll : Poll α) :
    π (keypadReadKeyStrokePass d poll).2 = π d := by
  have hworker := h.worker d true poll
  rw [keypadReadKeyStrokePass]
  generalize keypadReadKeyStrokeWorker d true poll = result at hworker
  obtain ⟨outcome, d'⟩ := result
  cases outcome with
  | error status => exact hworker
  | ok k =>
      dsimp only
      split <;> exact hworker

/-- `WaitForKey`. -/
theorem Apart.wait (h : Apart π) (d : KeypadConsoleInDev α) (poll : Poll α) :
    π (keypadWaitForKey d poll).2 = π d := by
  simp only [keypadWaitForKey]
  split
  · exact h.timer d poll
  · exact (h.queue _ _).trans (h.timer d poll)

omit [Keyed α] in
/-- The list of the registrations does not depend on the queues. -/
theorem apart_notifyList : Apart fun d : KeypadConsoleInDev α => d.notifyList :=
  ⟨fun _ _ => rfl, fun _ _ => rfl, fun _ _ _ => rfl⟩

omit [Keyed α] in
/-- A reset keeps the registrations. -/
theorem reset_notifyList (d : KeypadConsoleInDev α) :
    (keypadEfiReset d).2.notifyList = d.notifyList := by
  rw [keypadEfiReset]
  split
  · rfl
  · rfl

/-- **Only registrations and their ends** change the list. -/
theorem notifyList_event (d : KeypadConsoleInDev α) {e : Event α} (he : ∀ n, e ≠ .notify n) :
    (e.step d).notifyList = d.notifyList := by
  cases e with
  | notify n => exact absurd rfl (he n)
  | timer poll => exact apart_notifyList.timer d poll
  | readKeyStroke poll => exact apart_notifyList.pass d poll
  | readKeyStrokeEx buffer poll =>
      rw [Event.step, keypadReadKeyStrokeEx]
      split
      · rfl
      · exact apart_notifyList.worker d buffer poll
  | waitForKey poll => exact apart_notifyList.wait d poll
  | setState state =>
      simp only [Event.step, keypadSetState]
      split
      · rfl
      split
      · rfl
      split <;> rfl
  | reset => exact reset_notifyList d
  | error => rfl

end Keypad

end Msm8998
