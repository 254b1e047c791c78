import Mathlib.Data.List.Induction
import Mathlib.Data.List.TakeWhile
import Msm8998.BoundedQueue
import Msm8998.Keypad

/-!
# What Happens to a Key

This module follows the keys through `EfiKeyQueue` in any interleaving of the entries into the
keypad driver. The queue refines a bounded first-in first-out queue that gives up its oldest
element (`BoundedQueue`), with room for 255 keys, where a reader may skip a partial keystroke.

## Main results

* `Event.refines`: every entry is a run of the bounded queue;
* `run_refines`: so is every sequence of entries;
* `keypadReadKeyStroke_run`, `keypadReadKeyStroke_returns`: a whole `KeypadReadKeyStroke` is a
  sequence of passes, and it returns;
* `keys_accounted`: no key is lost, duplicated or reordered.
-/

namespace Msm8998

namespace Keypad

open BoundedQueue (Happening accepted delivered removed)

variable {α : Type} [Keyed α]

/-! ### What readers see -/

/-- What a reader gets: the key of `KeypadReadKeyStroke`, or the key data of
`KeypadReadKeyStrokeEx`. -/
inductive Received (α : Type)
  | stroke (key : EfiInputKey)
  | strokeEx (k : α)

/-- A control key is held. -/
def Control (data : EfiKeyData) : Prop :=
  data.keyState.keyShiftState &&& (efiLeftControlPressed ||| efiRightControlPressed) ≠ 0

/-- The key of the key data, up to the translation of the letter number `i` to the control
character `i + 1`. -/
structure UpToControl (data : EfiKeyData) (key : EfiInputKey) : Prop where
  scanCode : key.scanCode = data.key.scanCode
  unicodeChar : key.unicodeChar = data.key.unicodeChar ∨
    Control data ∧ ∃ i < 26, key.unicodeChar.toNat = i + 1 ∧
      (data.key.unicodeChar.toNat = 'a'.toNat + i ∨ data.key.unicodeChar.toNat = 'A'.toNat + i)

/-- A reader may be shown the key as it is, or with its control character. -/
def Shows (k : α) : Received α → Prop
  | .stroke key => UpToControl (keyData k) key
  | .strokeEx k' => k' = k

/-- What `EfiKeyQueue` is for. -/
def keyQueue (α : Type) [Keyed α] : BoundedQueue α (Received α) where
  bound := 255
  Shows := Shows
  Skippable := fun k => isPartial k = true

/-- The number of a letter among the 26 of its kind. -/
theorem toNat_sub_add_one {c a : UInt16} (hle : a ≤ c) (hlt : c.toNat < a.toNat + 26) :
    (c - a + 1).toNat = c.toNat - a.toNat + 1 := by
  have hsub : (c - a).toNat = c.toNat - a.toNat := UInt16.toNat_sub_of_le c a hle
  have hmod := Nat.mod_eq_of_lt (show c.toNat - a.toNat + 1 < 2 ^ 16 by omega)
  rw [UInt16.toNat_add, hsub]
  exact hmod

/-- A key read with Ctrl is the key, or the control character of its letter. -/
theorem controlKey_upToControl (data : EfiKeyData) : UpToControl data (controlKey data) := by
  rw [controlKey]
  dsimp only
  split
  · rename_i hctrl
    split
    · rename_i hc
      have hlo : 97 ≤ data.key.unicodeChar.toNat := UInt16.le_iff_toNat_le.mp hc.1
      have hhi : data.key.unicodeChar.toNat ≤ 122 := UInt16.le_iff_toNat_le.mp hc.2
      refine ⟨rfl, .inr ⟨hctrl, data.key.unicodeChar.toNat - 97, by omega, ?_, .inl ?_⟩⟩
      · exact toNat_sub_add_one hc.1 (show _ < 97 + 26 by omega)
      · exact (Nat.add_sub_cancel' hlo).symm
    · split
      · rename_i hc
        have hlo : 65 ≤ data.key.unicodeChar.toNat := UInt16.le_iff_toNat_le.mp hc.1
        have hhi : data.key.unicodeChar.toNat ≤ 90 := UInt16.le_iff_toNat_le.mp hc.2
        refine ⟨rfl, .inr ⟨hctrl, data.key.unicodeChar.toNat - 65, by omega, ?_, .inr ?_⟩⟩
        · exact toNat_sub_add_one hc.1 (show _ < 65 + 26 by omega)
        · exact (Nat.add_sub_cancel' hlo).symm
      · exact ⟨rfl, .inl rfl⟩
  · exact ⟨rfl, .inl rfl⟩

/-! ### The queues of the driver -/

variable {d : KeypadConsoleInDev α} {poll : Poll α} {k : α}

/-- The keys that wait in a queue. -/
def EfiKeyQueue.keys (queue : EfiKeyQueue α) : List α := queue.contents keypadEfiKeyMaxCount

/-- The keys that wait for a reader. -/
def pending (d : KeypadConsoleInDev α) : List α := EfiKeyQueue.keys d.efiKeyQueue

/-- The indices of both queues are in range. -/
structure Sound (d : KeypadConsoleInDev α) : Prop where
  efiKeyQueue : d.efiKeyQueue.WellFormed keypadEfiKeyMaxCount
  efiKeyQueueForNotify : d.efiKeyQueueForNotify.WellFormed keypadEfiKeyMaxCount

omit [Keyed α] in
/-- Fewer keys wait than the queue has slots. -/
theorem pending_length_lt (h : Sound d) : (pending d).length < 256 := by
  rw [pending, EfiKeyQueue.keys]
  rw [RingBuffer.length_contents]
  exact RingBuffer.count_lt h.efiKeyQueue

omit [Keyed α] in
/-- Taking the oldest of the waiting keys. -/
theorem popEfikeyBufHead_eq_some {q : EfiKeyQueue α} {l : List α}
    (h : q.WellFormed keypadEfiKeyMaxCount) (hq : EfiKeyQueue.keys q = k :: l) :
    ∃ rest, popEfikeyBufHead q = some (k, rest) ∧ rest.WellFormed keypadEfiKeyMaxCount ∧
      EfiKeyQueue.keys rest = l :=
  ⟨_, (RingBuffer.pop_eq_some h hq).1, h.advance, (RingBuffer.pop_eq_some h hq).2⟩

omit [Keyed α] in
/-- Nothing can be taken from an empty queue. -/
theorem popEfikeyBufHead_eq_none {q : EfiKeyQueue α} (h : q.WellFormed keypadEfiKeyMaxCount)
    (hq : EfiKeyQueue.keys q = []) : popEfikeyBufHead q = none :=
  RingBuffer.pop_eq_none h hq

omit [Keyed α] in
/-- Pushing a key when there is room. -/
theorem pushEfikeyBufTail_of_room {q : EfiKeyQueue α} (h : q.WellFormed keypadEfiKeyMaxCount)
    (hroom : (EfiKeyQueue.keys q).length + 1 < keypadEfiKeyMaxCount) (k : α) :
    EfiKeyQueue.keys (pushEfikeyBufTail q k) = EfiKeyQueue.keys q ++ [k] := by
  rw [EfiKeyQueue.keys, RingBuffer.length_contents] at hroom
  exact RingBuffer.contents_push_of_room h hroom k

/-- Pushing a key is what the bounded queue does on an arrival. -/
theorem pushEfikeyBufTail_step {q : EfiKeyQueue α} (h : q.WellFormed keypadEfiKeyMaxCount)
    (k : α) :
    (keyQueue α).Step (EfiKeyQueue.keys q) (.accepted k (EfiKeyQueue.keys q))
      (EfiKeyQueue.keys (pushEfikeyBufTail q k)) := by
  have hlen : (EfiKeyQueue.keys q).length = q.count keypadEfiKeyMaxCount :=
    RingBuffer.length_contents ..
  have hlt := RingBuffer.count_lt h
  rw [keypadEfiKeyMaxCount] at hlen hlt
  by_cases hfull : q.count 256 = 255
  · cases hq : EfiKeyQueue.keys q with
    | nil => rw [hq, hfull] at hlen; cases hlen
    | cons b l =>
      have hpush : EfiKeyQueue.keys (pushEfikeyBufTail q k) = l ++ [k] :=
        RingBuffer.contents_push_of_full h (congrArg (· + 1) hfull) hq
      rw [hpush]
      refine .displace ?_
      rw [← hq, hlen, hfull]
      rfl
  · have hroom : (EfiKeyQueue.keys q).length + 1 < 256 := by omega
    rw [pushEfikeyBufTail_of_room h hroom k]
    exact .accept (Nat.lt_of_succ_lt_succ hroom)

/-! ### Arrivals -/

/-- What happens when the device hands in keys. -/
def arrivals (d : KeypadConsoleInDev α) : List α → List (Happening α (Received α))
  | [] => []
  | k :: ks =>
      (if ignoresKey d k then [] else [.accepted k (pending d)]) ++
        arrivals (keypadReturnApiPushEfikeyBufTail d k) ks

/-- What happens in a poll of the device. -/
def polled (d : KeypadConsoleInDev α) (poll : Poll α) : List (Happening α (Received α)) :=
  if d.keypadErr then [] else arrivals { d with last := poll.counter } poll.keys

/-- The copies for the handler keep its queue in order. -/
theorem Sound.notifyQueue (h : Sound d) (k : α) (l : List KeypadConsoleInExNotify) :
    (l.foldl (fun queue currentNotify =>
      if isKeyRegistered currentNotify.keyData (keyData k) then pushEfikeyBufTail queue k
      else queue) d.efiKeyQueueForNotify).WellFormed keypadEfiKeyMaxCount := by
  induction l using List.reverseRecOn with
  | nil => exact h.efiKeyQueueForNotify
  | append_singleton l e ih =>
    rw [List.foldl_append, List.foldl_cons, List.foldl_nil]
    split
    · exact ih.push k
    · exact ih

/-- An arriving key keeps the indices in range. -/
theorem Sound.arrive (h : Sound d) (k : α) : Sound (keypadReturnApiPushEfikeyBufTail d k) := by
  rw [keypadReturnApiPushEfikeyBufTail]
  split
  · exact h
  · exact ⟨h.efiKeyQueue.push k, h.notifyQueue k _⟩

/-- A key that arrives is accepted, unless it is one that is ignored. -/
theorem arrive_refines (h : Sound d) (k : α) :
    (keyQueue α).Run (pending d) (if ignoresKey d k then [] else [.accepted k (pending d)])
      (pending (keypadReturnApiPushEfikeyBufTail d k)) := by
  rw [keypadReturnApiPushEfikeyBufTail]
  split
  · exact .nil _
  · exact (pushEfikeyBufTail_step h.efiKeyQueue k).run

/-- Several keys, one after the other. -/
theorem arrivals_refines (h : Sound d) (ks : List α) :
    (keyQueue α).Run (pending d) (arrivals d ks)
        (pending (ks.foldl keypadReturnApiPushEfikeyBufTail d)) ∧
      Sound (ks.foldl keypadReturnApiPushEfikeyBufTail d) := by
  induction ks generalizing d with
  | nil => exact ⟨.nil _, h⟩
  | cons k ks ih =>
    obtain ⟨hrun, hsound⟩ := ih (h.arrive k)
    exact ⟨(arrive_refines h k).append hrun, hsound⟩

/-- A poll accepts the keys it brings. -/
theorem timer_refines (h : Sound d) (poll : Poll α) :
    (keyQueue α).Run (pending d) (polled d poll) (pending (keypadTimerHandler d poll)) ∧
      Sound (keypadTimerHandler d poll) := by
  rw [keypadTimerHandler, polled]
  split
  · exact ⟨.nil _, h⟩
  · have hlast : Sound { d with last := poll.counter } := ⟨h.1, h.2⟩
    exact arrivals_refines hlast poll.keys

/-! ### Readers -/

/-- What happens when a reader returns. -/
def readExHappenings : Except Status α → List (Happening α (Received α))
  | .ok k => [.delivered k (.strokeEx k)]
  | .error _ => []

/-- What happens in a pass of `KeypadReadKeyStroke`. -/
def Pass.happenings : Pass α → List (Happening α (Received α))
  | .error _ => []
  | .skip k => [.skipped k]
  | .success k key => [.delivered k (.stroke key)]

/-- **The worker**: after the poll it takes the oldest key, or leaves the queue alone. -/
theorem worker_spec (h : Sound d) (poll : Poll α) :
    Sound (keypadReadKeyStrokeWorker d true poll).2 ∧
      ((∃ status, (keypadReadKeyStrokeWorker d true poll).1 = .error status ∧
          pending (keypadReadKeyStrokeWorker d true poll).2 =
            pending (keypadTimerHandler d poll)) ∨
        ∃ k, (keypadReadKeyStrokeWorker d true poll).1 = .ok k ∧
          pending (keypadTimerHandler d poll) =
            k :: pending (keypadReadKeyStrokeWorker d true poll).2) := by
  have hsound := (timer_refines h poll).2
  rw [keypadReadKeyStrokeWorker]
  rw [if_neg (show ¬(!true) = true from Bool.false_ne_true)]
  dsimp only
  split
  · exact ⟨hsound, .inl ⟨_, rfl, rfl⟩⟩
  · cases hq : pending (keypadTimerHandler d poll) with
    | nil =>
      rw [popEfikeyBufHead_eq_none hsound.efiKeyQueue hq]
      exact ⟨hsound, .inl ⟨_, rfl, hq⟩⟩
    | cons k l =>
      obtain ⟨rest, hpop, hrest, hl⟩ := popEfikeyBufHead_eq_some hsound.efiKeyQueue hq
      rw [hpop]
      exact ⟨⟨hrest, hsound.efiKeyQueueForNotify⟩, .inr ⟨k, rfl, by rw [← hl]; rfl⟩⟩

/-- `ReadKeyStrokeEx` delivers a key, or leaves all. -/
theorem readEx_refines (h : Sound d) (buffer : Bool) (poll : Poll α) :
    (keyQueue α).Run (pending d)
        ((if buffer then polled d poll else []) ++
          readExHappenings (keypadReadKeyStrokeEx d buffer poll).1)
        (pending (keypadReadKeyStrokeEx d buffer poll).2) ∧
      Sound (keypadReadKeyStrokeEx d buffer poll).2 := by
  cases buffer with
  | false => exact ⟨.nil _, h⟩
  | true =>
    have hread : keypadReadKeyStrokeEx d true poll = keypadReadKeyStrokeWorker d true poll := rfl
    have hpoll := (timer_refines h poll).1
    obtain ⟨hsound, ⟨status, hres, hpend⟩ | ⟨k, hres, hpend⟩⟩ := worker_spec h poll
    · rw [hread, hres, hpend]
      exact ⟨hpoll.append (.nil _), hsound⟩
    · rw [hread, hres]
      rw [hpend] at hpoll
      exact ⟨hpoll.append (BoundedQueue.Step.deliver rfl).run, hsound⟩

/-- A pass of `ReadKeyStroke` delivers a key or skips a partial one. -/
theorem pass_refines (h : Sound d) (poll : Poll α) :
    (keyQueue α).Run (pending d)
        (polled d poll ++ (keypadReadKeyStrokePass d poll).1.happenings)
        (pending (keypadReadKeyStrokePass d poll).2) ∧
      Sound (keypadReadKeyStrokePass d poll).2 := by
  have hpoll := (timer_refines h poll).1
  have hworker := worker_spec h poll
  rw [keypadReadKeyStrokePass]
  generalize keypadReadKeyStrokeWorker d true poll = worker at hworker
  obtain ⟨res, d'⟩ := worker
  obtain ⟨hsound, ⟨status, rfl, hpend⟩ | ⟨k, rfl, hpend⟩⟩ := hworker
  · rw [← hpend] at hpoll
    exact ⟨hpoll.append (.nil _), hsound⟩
  · rw [hpend] at hpoll
    by_cases hpart : isPartial k = true
    · simp only [hpart, if_true]
      exact ⟨hpoll.append (BoundedQueue.Step.skip hpart).run, hsound⟩
    · simp only [hpart]
      exact ⟨hpoll.append (BoundedQueue.Step.deliver (controlKey_upToControl _)).run, hsound⟩

/-! ### Waiting for a key -/

omit [Keyed α] in
/-- The first key of a queue, which stays there. -/
theorem peekEfikeyBufHead_eq {q : EfiKeyQueue α} {l : List α}
    (h : q.WellFormed keypadEfiKeyMaxCount) (hq : EfiKeyQueue.keys q = k :: l) :
    peekEfikeyBufHead q = k := by
  have hpop := (RingBuffer.pop_eq_some h hq).1
  rw [RingBuffer.pop] at hpop
  split at hpop
  · cases hpop
  · exact (Prod.mk.inj (Option.some.inj hpop)).1

/-- **The wait loop** drops the partial keystrokes at the front, and signals the event when a
key is left. -/
theorem waitLoop_spec {fuel : ℕ} {q : EfiKeyQueue α} (h : q.WellFormed keypadEfiKeyMaxCount)
    (hfuel : (EfiKeyQueue.keys q).length < fuel) :
    (waitLoop fuel q).2.WellFormed keypadEfiKeyMaxCount ∧
      EfiKeyQueue.keys (waitLoop fuel q).2 = (EfiKeyQueue.keys q).dropWhile (isPartial ·) ∧
      (waitLoop fuel q).1 = !((EfiKeyQueue.keys q).dropWhile (isPartial ·)).isEmpty := by
  induction fuel generalizing q with
  | zero => exact absurd hfuel (Nat.not_lt_zero _)
  | succ fuel ih =>
    rw [waitLoop]
    cases hq : EfiKeyQueue.keys q with
    | nil =>
      have hempty : isEfikeyBufEmpty q = true := (RingBuffer.contents_eq_nil_iff h).mp hq
      rw [if_pos hempty]
      exact ⟨h, hq, rfl⟩
    | cons k l =>
      have hempty : ¬isEfikeyBufEmpty q = true := by
        intro he
        have hnil : EfiKeyQueue.keys q = [] := (RingBuffer.contents_eq_nil_iff h).mpr he
        exact List.cons_ne_nil k l (hq.symm.trans hnil)
      rw [if_neg hempty, peekEfikeyBufHead_eq h hq]
      by_cases hpart : isPartial k = true
      · obtain ⟨rest, hpop, hrest, hl⟩ := popEfikeyBufHead_eq_some h hq
        rw [hq, List.length_cons] at hfuel
        have hnext := ih hrest (by rw [hl]; omega)
        rw [if_pos hpart, hpop, List.dropWhile_cons_of_pos hpart, ← hl]
        exact hnext
      · rw [if_neg hpart, List.dropWhile_cons_of_neg hpart]
        exact ⟨h, hq, rfl⟩

/-- The keys that left the queue while an entry waited for a key. -/
def waitHappenings (before after : List α) : List (Happening α (Received α)) :=
  (before.take (before.length - after.length)).map .skipped

/-- Waiting skips the partial keys at the front. -/
theorem waitHappenings_refines (l : List α) :
    (keyQueue α).Run l (waitHappenings l (l.dropWhile (isPartial ·)))
      (l.dropWhile (isPartial ·)) := by
  have hsplit := List.takeWhile_append_dropWhile (p := (isPartial ·)) (l := l)
  have hlen := congrArg List.length hsplit
  rw [List.length_append] at hlen
  have htake : l.take (l.length - (l.dropWhile (isPartial ·)).length) =
      l.takeWhile (isPartial ·) := by
    rw [show l.length - (l.dropWhile (isPartial ·)).length =
      (l.takeWhile (isPartial ·)).length by omega]
    exact (List.prefix_iff_eq_take.mp (List.takeWhile_prefix _)).symm
  have hrun : (keyQueue α).Run (l.takeWhile (isPartial ·) ++ l.dropWhile (isPartial ·))
      ((l.takeWhile (isPartial ·)).map .skipped) (l.dropWhile (isPartial ·)) :=
    BoundedQueue.run_skips (fun k hk => List.mem_takeWhile_imp hk) _
  rw [hsplit] at hrun
  rw [waitHappenings]
  rw [htake]
  exact hrun

/-- `WaitForKey`, after its poll. -/
theorem wait_refines (h : Sound d) (poll : Poll α) :
    (keyQueue α).Run (pending d)
        (polled d poll ++ waitHappenings (pending (keypadTimerHandler d poll))
          (pending (keypadWaitForKey d poll).2))
        (pending (keypadWaitForKey d poll).2) ∧
      Sound (keypadWaitForKey d poll).2 := by
  obtain ⟨hpoll, hsound⟩ := timer_refines h poll
  rw [keypadWaitForKey]
  dsimp only
  split
  · refine ⟨hpoll.append ?_, hsound⟩
    rw [waitHappenings, Nat.sub_self, List.take_zero]
    exact .nil _
  · obtain ⟨hwf, hkeys, -⟩ := waitLoop_spec hsound.efiKeyQueue (pending_length_lt hsound)
    have hrun := waitHappenings_refines (EfiKeyQueue.keys (keypadTimerHandler d poll).efiKeyQueue)
    rw [← hkeys] at hrun
    exact ⟨hpoll.append hrun, ⟨hwf, hsound.efiKeyQueueForNotify⟩⟩

/-! ### Entries and runs -/

/-- What happens to the keys in an entry. -/
def Event.happenings (d : KeypadConsoleInDev α) : Event α → List (Happening α (Received α))
  | .notify (.arrive k) => arrivals d [k]
  | .notify _ => []
  | .timer poll => polled d poll
  | .readKeyStroke poll => polled d poll ++ (keypadReadKeyStrokePass d poll).1.happenings
  | .readKeyStrokeEx buffer poll =>
      (if buffer then polled d poll else []) ++
        readExHappenings (keypadReadKeyStrokeEx d buffer poll).1
  | .waitForKey poll =>
      polled d poll ++ waitHappenings (pending (keypadTimerHandler d poll))
        (pending (keypadWaitForKey d poll).2)
  | .setState _ => []
  | .reset => if (keypadEfiReset d).1 = .success then [.reset (pending d)] else []
  | .error => []

/-- What happens to the keys in a sequence of entries. -/
def history (d : KeypadConsoleInDev α) : List (Event α) → List (Happening α (Received α))
  | [] => []
  | e :: es => e.happenings d ++ history (e.step d) es

/-- What notifications do to the keys that wait. -/
theorem notify_refines (h : Sound d) (e : NotifyEvent α) :
    (keyQueue α).Run (pending d) ((Event.notify e).happenings d)
        (pending ((Event.notify e).step d)) ∧
      Sound ((Event.notify e).step d) := by
  cases e with
  | arrive k => exact arrivals_refines h [k]
  | register key fn out pool =>
    simp only [Event.step, NotifyEvent.step, Event.happenings]
    obtain ⟨_, -, heq⟩ | ⟨data, rfl, hargs, ⟨x, hfind⟩ | ⟨hfind, hpool⟩⟩ :=
      register_cases d key fn out pool
    · rw [heq]
      exact ⟨.nil _, h⟩
    · rw [register_found hargs hfind]
      exact ⟨.nil _, h⟩
    · rw [register_added hargs hpool hfind]
      exact ⟨.nil _, ⟨h.1, h.2⟩⟩
  | unregister handle =>
    simp only [Event.step, NotifyEvent.step, Event.happenings]
    rcases unregister_cases d handle with ⟨heq, -⟩ | heq
    · rw [heq]
      exact ⟨.nil _, h⟩
    · rw [heq]
      exact ⟨.nil _, ⟨h.1, h.2⟩⟩
  | process =>
    simp only [Event.step, NotifyEvent.step, Event.happenings]
    rw [keyNotifyProcessPass]
    cases hq : EfiKeyQueue.keys d.efiKeyQueueForNotify with
    | nil =>
      rw [popEfikeyBufHead_eq_none h.efiKeyQueueForNotify hq]
      exact ⟨.nil _, h⟩
    | cons k l =>
      obtain ⟨rest, hpop, hrest, -⟩ := popEfikeyBufHead_eq_some h.efiKeyQueueForNotify hq
      rw [hpop]
      exact ⟨.nil _, ⟨h.efiKeyQueue, hrest⟩⟩

/-- `SetState` leaves the keys that wait. -/
theorem setState_refines (h : Sound d) (state : Option UInt8) :
    (keyQueue α).Run (pending d) [] (pending (keypadSetState d state).2) ∧
      Sound (keypadSetState d state).2 := by
  simp only [keypadSetState]
  split
  · exact ⟨.nil _, h⟩
  · split
    · exact ⟨.nil _, h⟩
    · split
      · exact ⟨.nil _, h⟩
      · exact ⟨.nil _, ⟨h.1, h.2⟩⟩

/-- `Reset` removes all of them if it succeeds. -/
theorem reset_refines (h : Sound d) :
    (keyQueue α).Run (pending d)
        (if (keypadEfiReset d).1 = .success then [.reset (pending d)] else [])
        (pending (keypadEfiReset d).2) ∧
      Sound (keypadEfiReset d).2 := by
  by_cases herr : d.keypadErr = true
  · have hreset : keypadEfiReset d = (.deviceError, d) := if_pos herr
    rw [hreset]
    exact ⟨.nil _, h⟩
  · have hreset : keypadEfiReset d = (.success, (initKeypad d).2) := if_neg herr
    have hpend : pending (initKeypad d).2 = [] := RingBuffer.contents_clear _ d.efiKeyQueue
    rw [hreset, hpend]
    have hpos : 0 < keypadEfiKeyMaxCount := by decide
    exact ⟨BoundedQueue.Step.reset.run,
      ⟨RingBuffer.wellFormed_clear hpos _, RingBuffer.wellFormed_clear hpos _⟩⟩

/-- **Every entry refines the bounded queue**, and keeps the indices in range. -/
theorem Event.refines (h : Sound d) (e : Event α) :
    (keyQueue α).Run (pending d) (e.happenings d) (pending (e.step d)) ∧ Sound (e.step d) := by
  cases e with
  | notify e => exact notify_refines h e
  | timer poll => exact timer_refines h poll
  | readKeyStroke poll => exact pass_refines h poll
  | readKeyStrokeEx buffer poll => exact readEx_refines h buffer poll
  | waitForKey poll => exact wait_refines h poll
  | setState state => exact setState_refines h state
  | reset => exact reset_refines h
  | error => exact ⟨.nil _, ⟨h.1, h.2⟩⟩

/-- **Every sequence of entries refines the bounded queue.** -/
theorem run_refines (h : Sound d) (es : List (Event α)) :
    (keyQueue α).Run (pending d) (history d es) (pending (run d es)) ∧ Sound (run d es) := by
  induction es generalizing d with
  | nil => exact ⟨.nil _, h⟩
  | cons e es ih =>
    obtain ⟨hstep, hsound⟩ := e.refines h
    obtain ⟨hrun, hlast⟩ := ih hsound
    exact ⟨hstep.append hrun, hlast⟩

/-! ### A whole `KeypadReadKeyStroke` -/

/-- A whole `KeypadReadKeyStroke` is a sequence of its passes; the key that it returns is the
last that they deliver. -/
theorem keypadReadKeyStroke_run {polls : List (Poll α)} {d d' : KeypadConsoleInDev α}
    {res : Except Status EfiInputKey} (h : keypadReadKeyStroke d polls = some (res, d')) :
    ∃ es : List (Event α), es <+: polls.map .readKeyStroke ∧ d' = run d es ∧
      ∀ key, res = .ok key → ∃ k, (history d es).getLast? = some (.delivered k (.stroke key)) := by
  induction polls generalizing d with
  | nil => cases h
  | cons poll polls ih =>
    have hstep : (keypadReadKeyStrokePass d poll).2 = Event.step d (.readKeyStroke poll) := rfl
    have hone : history d [.readKeyStroke poll] =
        polled d poll ++ (keypadReadKeyStrokePass d poll).1.happenings := List.append_nil _
    have hpre : [Event.readKeyStroke poll] <+: (poll :: polls).map .readKeyStroke :=
      ⟨_, List.singleton_append⟩
    rw [keypadReadKeyStroke] at h
    generalize keypadReadKeyStrokePass d poll = pass at h hstep hone
    obtain ⟨out, d₁⟩ := pass
    cases out with
    | error status =>
      obtain ⟨rfl, rfl⟩ := Prod.mk.inj (Option.some.inj h)
      exact ⟨[.readKeyStroke poll], hpre, hstep, fun _ hres => by cases hres⟩
    | skip k =>
      obtain ⟨es, hes, hrun, hlast⟩ := ih h
      rw [show d₁ = Event.step d (.readKeyStroke poll) from hstep] at hrun hlast
      refine ⟨.readKeyStroke poll :: es, List.prefix_cons_inj _ |>.mpr hes, hrun, ?_⟩
      intro key hres
      obtain ⟨k', hk'⟩ := hlast key hres
      refine ⟨k', ?_⟩
      rw [history, List.getLast?_append, hk']
      rfl
    | success k key =>
      obtain ⟨rfl, rfl⟩ := Prod.mk.inj (Option.some.inj h)
      refine ⟨[.readKeyStroke poll], hpre, hstep, ?_⟩
      intro key' hres
      rw [hone, ← Except.ok.inj hres]
      exact ⟨k, List.getLast?_concat⟩

/-- A `KeypadReadKeyStroke` returns once the device has no more keys: each pass that goes on
takes a key out of the queue. -/
theorem keypadReadKeyStroke_returns {polls : List (Poll α)} (h : Sound d)
    (hquiet : ∀ poll ∈ polls, poll.keys = [])
    (hlen : (pending d).length < polls.length) : (keypadReadKeyStroke d polls).isSome := by
  induction polls generalizing d with
  | nil => exact absurd hlen (Nat.not_lt_zero _)
  | cons poll polls ih =>
    have ⟨hpoll, hpolls⟩ := List.forall_mem_cons.mp hquiet
    have htimer : pending (keypadTimerHandler d poll) = pending d := by
      rw [keypadTimerHandler]
      rw [hpoll]
      split <;> rfl
    have hworker := worker_spec h poll
    rw [keypadReadKeyStroke, keypadReadKeyStrokePass]
    generalize keypadReadKeyStrokeWorker d true poll = worker at hworker
    obtain ⟨res, d₁⟩ := worker
    obtain ⟨hsound, ⟨status, rfl, -⟩ | ⟨k, rfl, hpend⟩⟩ := hworker
    · rfl
    · rw [htimer] at hpend
      by_cases hpart : isPartial k = true
      · simp only [hpart, if_true]
        rw [hpend, List.length_cons, List.length_cons] at hlen
        exact ih hsound hpolls (Nat.lt_of_succ_lt_succ hlen)
      · simp only [hpart]
        rfl

/-! ### The fate of every key -/

/-- How the keys that the driver accepted in a history stand with those that wait now. -/
structure Accounted (h : List (Happening α (Received α))) (d : KeypadConsoleInDev α) : Prop where
  head_lt : d.efiKeyQueue.head < 256
  tail_lt : d.efiKeyQueue.tail < 256
  notifyHead_lt : d.efiKeyQueueForNotify.head < 256
  notifyTail_lt : d.efiKeyQueueForNotify.tail < 256
  conserved : accepted h = removed (keyQueue α) h ++ pending d
  in_order : (delivered h).Sublist (accepted h)
  stroke : ∀ k key, .delivered k (.stroke key) ∈ h → UpToControl (keyData k) key
  strokeEx : ∀ k k', .delivered k (.strokeEx k') ∈ h → k' = k
  fate : ∀ k ∈ accepted h,
    k ∈ delivered h ∨ k ∈ pending d ∨ (.skipped k ∈ h ∧ isPartial k = true) ∨
      (∃ before, .reset before ∈ h ∧ k ∈ before) ∨
      ∃ k' before, .accepted k' before ∈ h ∧ before.length = 255 ∧ before.head? = some k

omit [Keyed α] in
/-- A device that was started has its indices in range. -/
theorem sound_start [Inhabited α] : Sound (keypadControllerDriverStart : KeypadConsoleInDev α) :=
  have hpos : 0 < keypadEfiKeyMaxCount := by decide
  ⟨RingBuffer.wellFormed_clear hpos _, RingBuffer.wellFormed_clear hpos _⟩

/-- **No key is lost, duplicated or reordered**, in any interleaving of the entries into the
driver. What arrives first leaves first, and each accepted key leaves at most once: the accepted
keys are those that left, followed by those that wait. Readers get a subsequence of them, up to
the control characters, and every other key is accounted for. The carrier of the keys may label
them, so this is about presses and not only about the key data. -/
theorem keys_accounted [Inhabited α] (es : List (Event α)) :
    Accounted (history keypadControllerDriverStart es) (run keypadControllerDriverStart es) := by
  obtain ⟨hrun, hsound⟩ := run_refines (sound_start (α := α)) es
  have hstart : pending (keypadControllerDriverStart : KeypadConsoleInDev α) = [] :=
    RingBuffer.contents_clear _ _
  rw [hstart] at hrun
  exact
    { head_lt := hsound.efiKeyQueue.head_lt
      tail_lt := hsound.efiKeyQueue.tail_lt
      notifyHead_lt := hsound.efiKeyQueueForNotify.head_lt
      notifyTail_lt := hsound.efiKeyQueueForNotify.tail_lt
      conserved := hrun.conserves
      in_order := hrun.delivered_sublist
      stroke := fun _ _ hmem => hrun.shows hmem
      strokeEx := fun _ _ hmem => hrun.shows hmem
      fate := fun _ hmem => hrun.fate hmem }

end Keypad

end Msm8998
