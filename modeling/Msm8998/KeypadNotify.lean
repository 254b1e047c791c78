import Mathlib.Data.List.Nodup
import Msm8998.KeypadAccounting

/-!
# Key Notifications

This module follows the key presses through `EfiKeyQueueForNotify` to the calls of the
notification functions, in any sequence of registrations, their ends, arrivals of keys and
passes of `KeyNotifyProcessHandler`.

A press is queued once for each registration that it matches, and for each copy every matching
registration is called. So a registration hears a press as often as there are registrations that
the press matched.

## Main results

* `live_run`, `origin`: a registration is live from its `KeypadRegisterKeyNotify` to the
  `KeypadUnregisterKeyNotify` of its handle;
* `tally_run`: copies still queued and calls made add up;
* `heard_count`: how often a registration hears a press;
* `keyNotifyProcessHandler_eq`: a whole run of the handler is a sequence of passes that drains
  the queue;
* `hearsOnce_iff_separate`: when every registration hears every press once.
-/

namespace Msm8998

namespace Keypad

variable {α : Type} [Keyed α]

/-! ### Runs -/

/-- The calls that a sequence of entries makes, and the device after it. -/
def notifyRun (d : KeypadConsoleInDev α) :
    List (NotifyEvent α) → List (Call α) × KeypadConsoleInDev α
  | [] => ([], d)
  | e :: es =>
      let (calls, d) := e.step d
      let (later, d) := notifyRun d es
      (calls ++ later, d)

/-- The calls that a sequence of entries makes. -/
def callsOf (d : KeypadConsoleInDev α) (es : List (NotifyEvent α)) : List (Call α) :=
  (notifyRun d es).1

/-- The device after a sequence of entries. -/
def after (d : KeypadConsoleInDev α) (es : List (NotifyEvent α)) : KeypadConsoleInDev α :=
  (notifyRun d es).2

/-- Something holds of every entry of a sequence and the device before it. -/
def Throughout (P : KeypadConsoleInDev α → NotifyEvent α → Prop) (d : KeypadConsoleInDev α) :
    List (NotifyEvent α) → Prop
  | [] => True
  | e :: es => P d e ∧ Throughout P (e.step d).2 es

instance decidableThroughout (P : KeypadConsoleInDev α → NotifyEvent α → Prop)
    [∀ d e, Decidable (P d e)] :
    (d : KeypadConsoleInDev α) → (es : List (NotifyEvent α)) → Decidable (Throughout P d es)
  | _, [] => isTrue trivial
  | d, e :: es =>
      have := decidableThroughout P (e.step d).2 es
      inferInstanceAs (Decidable (P d e ∧ Throughout P (e.step d).2 es))

/-- The copies of keys that wait for the handler. -/
def notifyKeys (d : KeypadConsoleInDev α) : List α := EfiKeyQueue.keys d.efiKeyQueueForNotify

variable {d : KeypadConsoleInDev α} {e : NotifyEvent α} {es fs : List (NotifyEvent α)} {k : α}
  {x : KeypadConsoleInExNotify} {key : EfiKeyData} {fn pool h : ℕ} {out : Bool}
  {P : KeypadConsoleInDev α → NotifyEvent α → Prop}

/-- The calls of a sequence are those of its first step and of the rest. -/
theorem callsOf_cons (d : KeypadConsoleInDev α) (e : NotifyEvent α) (es : List (NotifyEvent α)) :
    callsOf d (e :: es) = (e.step d).1 ++ callsOf (e.step d).2 es := rfl

/-- The device after a sequence is the one after its rest. -/
theorem after_cons (d : KeypadConsoleInDev α) (e : NotifyEvent α) (es : List (NotifyEvent α)) :
    after d (e :: es) = after (e.step d).2 es := rfl

/-- The device after two sequences behind each other. -/
theorem after_append (d : KeypadConsoleInDev α) (es fs : List (NotifyEvent α)) :
    after d (es ++ fs) = after (after d es) fs := by
  induction es generalizing d with
  | nil => rfl
  | cons e es ih => exact ih (e.step d).2

/-- The calls of two sequences behind each other. -/
theorem callsOf_append (d : KeypadConsoleInDev α) (es fs : List (NotifyEvent α)) :
    callsOf d (es ++ fs) = callsOf d es ++ callsOf (after d es) fs := by
  induction es generalizing d with
  | nil => rfl
  | cons e es ih =>
    rw [List.cons_append, callsOf_cons, callsOf_cons, ih, List.append_assoc, after_cons]

/-- What holds throughout a sequence holds throughout its parts. -/
theorem throughout_append :
    Throughout P d (es ++ fs) ↔ Throughout P d es ∧ Throughout P (after d es) fs := by
  induction es generalizing d with
  | nil => exact (and_iff_right trivial).symm
  | cons e es ih =>
    have hcons : Throughout P d (e :: es ++ fs) ↔
        P d e ∧ Throughout P (e.step d).2 (es ++ fs) := Iff.rfl
    rw [hcons, ih, ← and_assoc]
    exact Iff.rfl

/-! ### Registrations -/

/-- The call of `KeypadRegisterKeyNotify` succeeds with a handle. -/
def Registers (d : KeypadConsoleInDev α) (key : EfiKeyData) (fn : ℕ) (out : Bool) (pool h : ℕ) :
    Prop :=
  (keypadRegisterKeyNotify d (some key) fn out pool).status = .success ∧
    (keypadRegisterKeyNotify d (some key) fn out pool).notifyHandle = some h

/-- What `AllocateZeroPool` promises: what it returns is not in use. -/
def Fresh (d : KeypadConsoleInDev α) : NotifyEvent α → Prop
  | .register _ _ _ pool => ∀ x ∈ d.notifyList, x.handle ≠ pool
  | _ => True

/-- An arrival finds room for all its copies in the queue for the handler. -/
def Roomy (d : KeypadConsoleInDev α) : NotifyEvent α → Prop
  | .arrive k => ignoresKey d k = false →
      (notifyKeys d).length + (matching d k).length < keypadEfiKeyMaxCount
  | _ => True

instance decidableFresh (d : KeypadConsoleInDev α) : (e : NotifyEvent α) → Decidable (Fresh d e)
  | .register _ _ _ pool => inferInstanceAs (Decidable (∀ x ∈ d.notifyList, x.handle ≠ pool))
  | .arrive _ => isTrue trivial
  | .unregister _ => isTrue trivial
  | .process => isTrue trivial

instance decidableRoomy (d : KeypadConsoleInDev α) : (e : NotifyEvent α) → Decidable (Roomy d e)
  | .arrive k => inferInstanceAs (Decidable (ignoresKey d k = false →
      (notifyKeys d).length + (matching d k).length < keypadEfiKeyMaxCount))
  | .register _ _ _ _ => isTrue trivial
  | .unregister _ => isTrue trivial
  | .process => isTrue trivial

/-- Every registration has a handle of its own. -/
structure Registry (d : KeypadConsoleInDev α) : Prop where
  sound : Sound d
  nodup : (d.notifyList.map (·.handle)).Nodup
  handle_ne : ∀ x ∈ d.notifyList, x.handle ≠ 0

omit [Keyed α] in
/-- **A registration**: it is answered by a registration that was there, or is added. -/
theorem registers_cases (hreg : Registers d key fn out pool h) :
    (out = true ∧ fn ≠ 0) ∧
      ((∃ x, alreadyRegistered d key fn = some x ∧ h = x.handle ∧
          (keypadRegisterKeyNotify d (some key) fn out pool).consoleIn = d) ∨
        (alreadyRegistered d key fn = none ∧ pool ≠ 0 ∧ h = pool ∧
          (keypadRegisterKeyNotify d (some key) fn out pool).consoleIn =
            { d with notifyList := d.notifyList ++ [⟨pool, key, fn⟩] })) := by
  obtain ⟨hstatus, hhandle⟩ := hreg
  obtain ⟨status, hne, heq⟩ | ⟨data, hdata, hargs, ⟨x, hfind⟩ | ⟨hfind, hpool⟩⟩ :=
    register_cases d (some key) fn out pool
  · rw [heq] at hstatus
    exact absurd hstatus hne
  · obtain rfl := Option.some.inj hdata
    rw [register_found hargs hfind] at hhandle ⊢
    exact ⟨hargs, .inl ⟨x, hfind, (Option.some.inj hhandle).symm, rfl⟩⟩
  · obtain rfl := Option.some.inj hdata
    rw [register_added hargs hpool hfind] at hhandle ⊢
    exact ⟨hargs, .inr ⟨hfind, hpool, (Option.some.inj hhandle).symm, rfl⟩⟩

/-- **What an entry does to the registrations**: it leaves them, adds one, or removes one. -/
theorem notifyList_step (d : KeypadConsoleInDev α) (e : NotifyEvent α) :
    ((e.step d).2.notifyList = d.notifyList ∧
        ∀ x ∈ d.notifyList, x.handle ≠ 0 → e ≠ .unregister x.handle) ∨
      (∃ key fn out pool, e = .register (some key) fn out pool ∧ pool ≠ 0 ∧
        Registers d key fn out pool pool ∧
        (e.step d).2.notifyList = d.notifyList ++ [⟨pool, key, fn⟩]) ∨
      ∃ handle, e = .unregister handle ∧
        (e.step d).2.notifyList = d.notifyList.eraseP (·.handle == handle) := by
  cases e with
  | arrive k =>
    refine .inl ⟨?_, fun _ _ _ heq => by cases heq⟩
    rw [NotifyEvent.step, keypadReturnApiPushEfikeyBufTail]
    dsimp only
    split <;> rfl
  | process =>
    refine .inl ⟨?_, fun _ _ _ heq => by cases heq⟩
    rw [NotifyEvent.step, keyNotifyProcessPass]
    cases popEfikeyBufHead d.efiKeyQueueForNotify <;> rfl
  | unregister handle =>
    rw [NotifyEvent.step]
    rcases unregister_cases d handle with ⟨heq, hkept⟩ | heq
    · rw [heq]
      exact .inl ⟨rfl, fun x hx hne heq' =>
        hkept x hx hne (NotifyEvent.unregister.inj heq').symm⟩
    · rw [heq]
      exact .inr (.inr ⟨handle, rfl, rfl⟩)
  | register key fn out pool =>
    rw [NotifyEvent.step]
    obtain ⟨_, -, heq⟩ | ⟨data, rfl, hargs, ⟨x, hfind⟩ | ⟨hfind, hpool⟩⟩ :=
      register_cases d key fn out pool
    · rw [heq]
      exact .inl ⟨rfl, fun _ _ _ heq => by cases heq⟩
    · rw [register_found hargs hfind]
      exact .inl ⟨rfl, fun _ _ _ heq => by cases heq⟩
    · have hadd := register_added hargs hpool hfind
      rw [hadd]
      refine .inr (.inl ⟨data, fn, out, pool, rfl, hpool, ?_, rfl⟩)
      rw [Registers, hadd]
      exact ⟨rfl, rfl⟩

/-- Handles being distinct, the entry with the handle is gone. -/
theorem handle_ne_of_mem_eraseP {l : List KeypadConsoleInExNotify}
    (hl : (l.map (·.handle)).Nodup) (hx : x ∈ l.eraseP (·.handle == h)) : x.handle ≠ h := by
  have hmap : (l.eraseP (·.handle == h)).map (·.handle) = (l.map (·.handle)).erase h := by
    rw [List.erase_eq_eraseP', List.eraseP_map]
    rfl
  have hmem : x.handle ∈ (l.map (·.handle)).erase h := hmap ▸ List.mem_map_of_mem hx
  exact (hl.mem_erase_iff.mp hmem).1

/-! ### The life of a registration -/

/-- A registration stays until its handle is unregistered. -/
theorem live_step (hx : x ∈ d.notifyList) (hne : e ≠ .unregister x.handle) :
    x ∈ (e.step d).2.notifyList := by
  rcases notifyList_step d e with ⟨heq, -⟩ | ⟨key, fn, out, pool, -, -, -, heq⟩ |
    ⟨handle, rfl, heq⟩
  · rwa [heq]
  · rw [heq]
    exact List.mem_append_left _ hx
  · rw [heq]
    have hh : x.handle ≠ handle := by
      rintro rfl
      exact hne rfl
    rw [List.mem_eraseP_of_neg (by simpa using hh)]
    exact hx

/-- A registration lives until it is ended. -/
theorem live_run (hx : x ∈ d.notifyList) (hne : .unregister x.handle ∉ es) :
    x ∈ (after d es).notifyList := by
  induction es generalizing d with
  | nil => exact hx
  | cons e es ih =>
    have ⟨he, hes⟩ := not_or.mp (mt List.mem_cons.mpr hne)
    exact ih (live_step hx (Ne.symm he)) hes

/-- A step keeps the handles apart. -/
theorem Registry.step (hd : Registry d) (hfresh : Fresh d e) : Registry (e.step d).2 := by
  have hsound : Sound (e.step d).2 := (notify_refines hd.sound e).2
  rcases notifyList_step d e with ⟨heq, -⟩ | ⟨key, fn, out, pool, rfl, hpool, -, heq⟩ |
    ⟨handle, -, heq⟩
  · exact ⟨hsound, by rw [heq]; exact hd.nodup, by rw [heq]; exact hd.handle_ne⟩
  · refine ⟨hsound, ?_, ?_⟩
    · rw [heq, List.map_append, List.nodup_append]
      refine ⟨hd.nodup, List.nodup_singleton _, ?_⟩
      intro a ha b hb
      obtain ⟨y, hy, rfl⟩ := List.mem_map.mp ha
      rw [List.map_cons, List.map_nil, List.mem_singleton] at hb
      rw [hb]
      exact hfresh y hy
    · rw [heq]
      intro y hy
      rcases List.mem_append.mp hy with hy | hy
      · exact hd.handle_ne y hy
      · rw [List.mem_singleton.mp hy]
        exact hpool
  · have hsub : (d.notifyList.eraseP (·.handle == handle)).Sublist d.notifyList :=
      List.eraseP_sublist
    refine ⟨hsound, ?_, ?_⟩
    · rw [heq]
      exact hd.nodup.sublist (hsub.map _)
    · rw [heq]
      exact fun y hy => hd.handle_ne y (hsub.subset hy)

/-- So does every sequence of steps. -/
theorem Registry.run (hd : Registry d) (hfresh : Throughout Fresh d es) :
    Registry (after d es) := by
  induction es generalizing d with
  | nil => exact hd
  | cons e es ih => exact ih (hd.step hfresh.1) hfresh.2

omit [Keyed α] in
/-- Registrations with one handle are one. -/
theorem Registry.eq_of_handle (hd : Registry d) {y : KeypadConsoleInExNotify}
    (hx : x ∈ d.notifyList) (hy : y ∈ d.notifyList) (heq : x.handle = y.handle) : x = y :=
  List.inj_on_of_nodup_map hd.nodup hx hy heq

/-- A registration that is there after an entry was there before and was not unregistered, or is
what the entry registered. -/
theorem origin_step (hd : Registry d) (hx : x ∈ (e.step d).2.notifyList) :
    (x ∈ d.notifyList ∧ e ≠ .unregister x.handle) ∨
      ∃ out pool, e = .register (some x.keyData) x.keyNotificationFn out pool ∧
        Registers d x.keyData x.keyNotificationFn out pool x.handle := by
  rcases notifyList_step d e with ⟨heq, hkept⟩ | ⟨key, fn, out, pool, rfl, -, hreg, heq⟩ |
    ⟨handle, rfl, heq⟩
  · rw [heq] at hx
    exact .inl ⟨hx, hkept x hx (hd.handle_ne x hx)⟩
  · rw [heq] at hx
    rcases List.mem_append.mp hx with hx | hx
    · exact .inl ⟨hx, fun heq => by cases heq⟩
    · rw [List.mem_singleton] at hx
      subst hx
      exact .inr ⟨out, pool, rfl, hreg⟩
  · rw [heq] at hx
    refine .inl ⟨List.mem_of_mem_eraseP hx, ?_⟩
    intro heq'
    exact handle_ne_of_mem_eraseP hd.nodup hx (NotifyEvent.unregister.inj heq').symm

/-- **Where a registration comes from**: an entry registered it, and none since has unregistered
its handle. -/
theorem origin (hd : Registry d) (hempty : d.notifyList = []) (hfresh : Throughout Fresh d es)
    (hx : x ∈ (after d es).notifyList) :
    ∃ pre out pool mid,
      es = pre ++ .register (some x.keyData) x.keyNotificationFn out pool :: mid ∧
        Registers (after d pre) x.keyData x.keyNotificationFn out pool x.handle ∧
        .unregister x.handle ∉ mid := by
  induction es using List.reverseRecOn with
  | nil =>
    have hnil : x ∈ d.notifyList := hx
    rw [hempty] at hnil
    cases hnil
  | append_singleton es e ih =>
    have ⟨hes, _⟩ := throughout_append.mp hfresh
    rw [after_append] at hx
    rcases origin_step (hd.run hes) hx with ⟨hbefore, hne⟩ | ⟨out, pool, rfl, hreg⟩
    · obtain ⟨pre, out, pool, mid, rfl, hreg, hmid⟩ := ih hes hbefore
      refine ⟨pre, out, pool, mid ++ [e], by simp, hreg, ?_⟩
      intro hmem
      rcases List.mem_append.mp hmem with hmem | hmem
      · exact hmid hmem
      · exact hne (List.mem_singleton.mp hmem).symm
    · exact ⟨es, out, pool, [], rfl, hreg, List.not_mem_nil⟩

/-! ### Copies of a press -/

omit [Keyed α] in
/-- An arrival queues a copy for each registration that the key matches. -/
theorem push_copies {q : EfiKeyQueue α} (hq : q.WellFormed keypadEfiKeyMaxCount) (k : α)
    (p : KeypadConsoleInExNotify → Bool) (l : List KeypadConsoleInExNotify)
    (hroom : (EfiKeyQueue.keys q).length + (l.filter p).length < keypadEfiKeyMaxCount) :
    EfiKeyQueue.keys (l.foldl (fun queue x => if p x then pushEfikeyBufTail queue k else queue) q) =
      EfiKeyQueue.keys q ++ List.replicate (l.filter p).length k := by
  induction l generalizing q with
  | nil => exact (List.append_nil _).symm
  | cons x l ih =>
    rw [List.foldl_cons]
    by_cases hx : p x = true
    · rw [List.filter_cons_of_pos hx, List.length_cons] at hroom ⊢
      have hpush := pushEfikeyBufTail_of_room hq (by omega) k
      have hroom' : (EfiKeyQueue.keys (pushEfikeyBufTail q k)).length + (l.filter p).length <
          keypadEfiKeyMaxCount := by
        rw [hpush, List.length_append, List.length_singleton]
        omega
      have hwf : (pushEfikeyBufTail q k).WellFormed keypadEfiKeyMaxCount := hq.push k
      rw [if_pos hx, ih hwf hroom', hpush, List.append_assoc, List.replicate_succ]
      rfl
    · rw [List.filter_cons_of_neg hx] at hroom ⊢
      rw [if_neg hx, ih hq hroom]

/-- A key that is accepted is queued once for each registration that matches it. -/
theorem arrive_notifyKeys (hd : Sound d) (hacc : ignoresKey d k = false)
    (hroom : (notifyKeys d).length + (matching d k).length < keypadEfiKeyMaxCount) :
    notifyKeys (keypadReturnApiPushEfikeyBufTail d k) =
      notifyKeys d ++ List.replicate (matching d k).length k := by
  rw [keypadReturnApiPushEfikeyBufTail]
  rw [if_neg (by rw [hacc]; exact Bool.false_ne_true)]
  exact push_copies hd.efiKeyQueueForNotify k _ d.notifyList hroom

/-- A key that is ignored changes nothing. -/
theorem arrive_ignored (hign : ignoresKey d k = true) :
    keypadReturnApiPushEfikeyBufTail d k = d := if_pos hign

/-- **A pass of the handler** takes the oldest copy and calls every registration it matches. -/
theorem process_spec (hd : Sound d) :
    (notifyKeys d = [] ∧ keyNotifyProcessPass d = none) ∨
      ∃ k l d', notifyKeys d = k :: l ∧
        keyNotifyProcessPass d =
          some ((matching d k).map fun x => ⟨x.handle, x.keyNotificationFn, k⟩, d') ∧
        notifyKeys d' = l ∧ Sound d' := by
  rw [keyNotifyProcessPass]
  cases hq : notifyKeys d with
  | nil =>
    rw [popEfikeyBufHead_eq_none hd.efiKeyQueueForNotify hq]
    exact .inl ⟨rfl, rfl⟩
  | cons k l =>
    obtain ⟨rest, hpop, hrest, hl⟩ := popEfikeyBufHead_eq_some hd.efiKeyQueueForNotify hq
    rw [hpop]
    exact .inr ⟨k, l, _, rfl, rfl, hl, ⟨hd.efiKeyQueue, hrest⟩⟩

/-- Registering and unregistering call nobody and queue nothing. -/
theorem register_quiet (d : KeypadConsoleInDev α) (key : Option EfiKeyData) (fn : ℕ) (out : Bool)
    (pool : ℕ) :
    notifyKeys ((NotifyEvent.register key fn out pool).step d).2 = notifyKeys d := by
  rw [NotifyEvent.step]
  obtain ⟨_, -, heq⟩ | ⟨data, rfl, hargs, ⟨x, hfind⟩ | ⟨hfind, hpool⟩⟩ :=
    register_cases d key fn out pool
  · rw [heq]
  · rw [register_found hargs hfind]
  · rw [register_added hargs hpool hfind]
    rfl

/-- Nor does the end of a registration queue anything. -/
theorem unregister_quiet (d : KeypadConsoleInDev α) (handle : ℕ) :
    notifyKeys ((NotifyEvent.unregister handle).step d).2 = notifyKeys d := by
  rw [NotifyEvent.step]
  rcases unregister_cases d handle with ⟨heq, -⟩ | heq
  · rw [heq]
  · rw [heq]
    rfl

/-- A copy that is queued after an entry was queued before, or is of the press that arrived. -/
theorem mem_notifyKeys_step (hd : Sound d) (hroom : Roomy d e) (hne : e ≠ .arrive k)
    (hk : k ∉ notifyKeys d) :
    k ∉ notifyKeys (e.step d).2 ∧ ∀ c ∈ (e.step d).1, c.key ≠ k := by
  cases e with
  | arrive k' =>
    refine ⟨?_, fun _ hc => by cases hc⟩
    rw [NotifyEvent.step]
    dsimp only
    cases hacc : ignoresKey d k' with
    | true => rwa [arrive_ignored hacc]
    | false =>
      rw [arrive_notifyKeys hd hacc (hroom hacc)]
      intro hmem
      rcases List.mem_append.mp hmem with hmem | hmem
      · exact hk hmem
      · exact hne (congrArg NotifyEvent.arrive (List.eq_of_mem_replicate hmem).symm)
  | register key fn out pool => exact ⟨by rwa [register_quiet], fun _ hc => by cases hc⟩
  | unregister handle => exact ⟨by rwa [unregister_quiet], fun _ hc => by cases hc⟩
  | process =>
    unfold NotifyEvent.step
    dsimp only
    obtain ⟨-, hpass⟩ | ⟨k', l, d', hq, hpass, hl, -⟩ := process_spec hd
    · rw [hpass]
      exact ⟨hk, fun _ hc => by cases hc⟩
    · rw [hpass, Option.getD_some]
      rw [hq] at hk
      obtain ⟨hk', hkl⟩ := not_or.mp (mt List.mem_cons.mpr hk)
      refine ⟨by rwa [hl], ?_⟩
      intro c hc
      obtain ⟨x, -, rfl⟩ := List.mem_map.mp hc
      exact Ne.symm hk'

/-- Before a press arrives, there is no copy of it and no call for it. -/
theorem unheard_run (hd : Sound d) (hroom : Throughout Roomy d es) (hne : .arrive k ∉ es)
    (hk : k ∉ notifyKeys d) :
    k ∉ notifyKeys (after d es) ∧ ∀ c ∈ callsOf d es, c.key ≠ k := by
  induction es generalizing d with
  | nil => exact ⟨hk, fun _ hc => by cases hc⟩
  | cons e es ih =>
    have ⟨he, hes⟩ := not_or.mp (mt List.mem_cons.mpr hne)
    obtain ⟨hstep, hcalls⟩ := mem_notifyKeys_step hd hroom.1 (Ne.symm he) hk
    obtain ⟨hrun, hlater⟩ := ih (notify_refines hd e).2 hroom.2 hes hstep
    refine ⟨hrun, ?_⟩
    intro c hc
    rw [callsOf_cons] at hc
    rcases List.mem_append.mp hc with hc | hc
    · exact hcalls c hc
    · exact hlater c hc

/-! ### Copies and calls -/

section Tally

variable [DecidableEq α]

/-- Each matching registration is called once for a copy. -/
theorem count_calls (hd : Registry d) (hx : x ∈ matching d k) :
    ((matching d k).map fun y => (⟨y.handle, y.keyNotificationFn, k⟩ : Call α)).count
      ⟨x.handle, x.keyNotificationFn, k⟩ = 1 := by
  have hsub : (matching d k).Sublist d.notifyList := List.filter_sublist
  have hnodup : ((matching d k).map (·.handle)).Nodup := hd.nodup.sublist (hsub.map _)
  refine List.count_eq_one_of_mem (List.Nodup.of_map Call.handle ?_)
    (List.mem_map.mpr ⟨x, hx, rfl⟩)
  rw [List.map_map]
  exact hnodup

/-- **One entry**: a copy of a press that leaves the queue calls the registration once, so the
copies in the queue and the calls made keep their sum. -/
theorem tally_step (hd : Registry d) (hroom : Roomy d e) (hx : x ∈ matching d k)
    (hne : e ≠ .arrive k) :
    (notifyKeys (e.step d).2).count k +
      (e.step d).1.count ⟨x.handle, x.keyNotificationFn, k⟩ = (notifyKeys d).count k := by
  cases e with
  | arrive k' =>
    rw [NotifyEvent.step]
    dsimp only
    rw [List.count_nil, Nat.add_zero]
    cases hacc : ignoresKey d k' with
    | true => rw [arrive_ignored hacc]
    | false =>
      have hk : k' ≠ k := fun heq => hne (congrArg NotifyEvent.arrive heq)
      rw [arrive_notifyKeys hd.sound hacc (hroom hacc), List.count_append, List.count_replicate]
      simp [hk]
  | register key fn out pool =>
    rw [register_quiet]
    exact Nat.add_zero _
  | unregister handle =>
    rw [unregister_quiet]
    exact Nat.add_zero _
  | process =>
    unfold NotifyEvent.step
    dsimp only
    obtain ⟨-, hpass⟩ | ⟨k', l, d', hq, hpass, hl, -⟩ := process_spec hd.sound
    · rw [hpass]
      exact Nat.add_zero _
    · rw [hpass, Option.getD_some, hq, hl]
      by_cases hk : k' = k
      · subst hk
        rw [count_calls hd hx, List.count_cons_self]
      · have hnone : (⟨x.handle, x.keyNotificationFn, k⟩ : Call α) ∉
            (matching d k').map fun y => ⟨y.handle, y.keyNotificationFn, k'⟩ := by
          intro hmem
          obtain ⟨y, -, hy⟩ := List.mem_map.mp hmem
          exact hk (congrArg Call.key hy)
        rw [List.count_eq_zero_of_not_mem hnone, List.count_cons_of_ne hk, Nat.add_zero]

/-- **Runs**: while a registration is live, the copies in the queue and the calls made for them
keep their sum. -/
theorem tally_run (hd : Registry d) (hfresh : Throughout Fresh d es)
    (hroom : Throughout Roomy d es) (hx : x ∈ matching d k)
    (hlive : .unregister x.handle ∉ es) (hne : .arrive k ∉ es) :
    (notifyKeys (after d es)).count k +
      (callsOf d es).count ⟨x.handle, x.keyNotificationFn, k⟩ = (notifyKeys d).count k := by
  induction es generalizing d with
  | nil => rfl
  | cons e es ih =>
    have ⟨he, hes⟩ := not_or.mp (mt List.mem_cons.mpr hne)
    have ⟨hl, hls⟩ := not_or.mp (mt List.mem_cons.mpr hlive)
    have ⟨hmem, hmatch⟩ := List.mem_filter.mp hx
    have hstep := tally_step hd hroom.1 hx (Ne.symm he)
    have hx' : x ∈ matching (e.step d).2 k :=
      List.mem_filter.mpr ⟨live_step hmem (Ne.symm hl), hmatch⟩
    have hrun := ih (hd.step hfresh.1) hfresh.2 hroom.2 hx' hls hes
    rw [after_cons, callsOf_cons, List.count_append]
    omega

/-- **How often a registration hears a press**: once the handler has drained the queue, as often
as there were registrations that the press matched when it arrived. -/
theorem heard_count {pre post : List (NotifyEvent α)} (hd : Registry d)
    (hempty : notifyKeys d = [])
    (hfresh : Throughout Fresh d (pre ++ .arrive k :: post))
    (hroom : Throughout Roomy d (pre ++ .arrive k :: post))
    (hdrained : notifyKeys (after d (pre ++ .arrive k :: post)) = [])
    (hpre : .arrive k ∉ pre) (hpost : .arrive k ∉ post)
    (hacc : ignoresKey (after d pre) k = false) (hx : x ∈ matching (after d pre) k)
    (hlive : .unregister x.handle ∉ post) :
    (callsOf d (pre ++ .arrive k :: post)).count ⟨x.handle, x.keyNotificationFn, k⟩ =
      (matching (after d pre) k).length := by
  obtain ⟨hfreshPre, _, hfreshPost⟩ := throughout_append.mp hfresh
  obtain ⟨hroomPre, hroomHere, hroomPost⟩ := throughout_append.mp hroom
  have hreg : Registry (after d pre) := hd.run hfreshPre
  -- nothing of the press before it arrives
  have hnone : k ∉ notifyKeys d := by rw [hempty]; exact List.not_mem_nil
  obtain ⟨hqueue, hcalls⟩ := unheard_run hd.sound hroomPre hpre hnone
  have hcalls : (callsOf d pre).count ⟨x.handle, x.keyNotificationFn, k⟩ = 0 :=
    List.count_eq_zero_of_not_mem fun hmem => hcalls _ hmem rfl
  -- a copy for each match when it does
  have hcopies : (notifyKeys (NotifyEvent.step (after d pre) (.arrive k)).2).count k =
      (matching (after d pre) k).length := by
    rw [NotifyEvent.step]
    dsimp only
    rw [arrive_notifyKeys hreg.sound hacc (hroomHere hacc), List.count_append,
      List.count_eq_zero_of_not_mem hqueue, List.count_replicate_self, Nat.zero_add]
  obtain ⟨hmem, hmatch⟩ := List.mem_filter.mp hx
  have hx' : x ∈ matching (NotifyEvent.step (after d pre) (.arrive k)).2 k :=
    List.mem_filter.mpr ⟨live_step hmem (fun heq => by cases heq), hmatch⟩
  have htally := tally_run (hreg.step (e := .arrive k) trivial) hfreshPost hroomPost hx' hlive
    hpost
  rw [after_append, after_cons] at hdrained
  rw [hdrained, List.count_nil, Nat.zero_add, hcopies] at htally
  rw [callsOf_append, callsOf_cons, List.count_append, List.count_append, hcalls, htally]
  exact (Nat.zero_add _).trans (Nat.zero_add _)

end Tally

/-! ### A whole run of the handler -/

/-- With enough fuel the handler takes all copies that wait, one by one. -/
theorem keyNotifyProcessLoop_eq {fuel : ℕ} (hd : Sound d)
    (hfuel : (notifyKeys d).length ≤ fuel) :
    keyNotifyProcessLoop fuel d =
        notifyRun d (List.replicate (notifyKeys d).length .process) ∧
      notifyKeys (keyNotifyProcessLoop fuel d).2 = [] := by
  induction fuel generalizing d with
  | zero =>
    have hnil := List.length_eq_zero_iff.mp (Nat.le_zero.mp hfuel)
    rw [hnil]
    exact ⟨rfl, hnil⟩
  | succ fuel ih =>
    rw [keyNotifyProcessLoop]
    obtain ⟨hnil, hpass⟩ | ⟨k, l, d', hq, hpass, hl, hd'⟩ := process_spec hd
    · rw [hpass]
      exact ⟨by rw [hnil]; rfl, hnil⟩
    · rw [hq, List.length_cons] at hfuel
      obtain ⟨hloop, hdrained⟩ := ih hd' (by rw [hl]; omega)
      rw [hl] at hloop
      have hstep : NotifyEvent.process.step d =
          ((matching d k).map fun x => ⟨x.handle, x.keyNotificationFn, k⟩, d') := by
        unfold NotifyEvent.step
        dsimp only
        rw [hpass, Option.getD_some]
      rw [hpass, hq, List.length_cons, List.replicate_succ, notifyRun, hstep]
      dsimp only
      rw [hloop] at hdrained ⊢
      exact ⟨rfl, hdrained⟩

/-- **A run of the handler** is a sequence of passes, and drains the queue. -/
theorem keyNotifyProcessHandler_eq (hd : Sound d) :
    keyNotifyProcessHandler d = notifyRun d (List.replicate (notifyKeys d).length .process) ∧
      notifyKeys (keyNotifyProcessHandler d).2 = [] := by
  have hlen : (notifyKeys d).length < keypadEfiKeyMaxCount := by
    rw [notifyKeys, EfiKeyQueue.keys]
    rw [RingBuffer.length_contents]
    exact RingBuffer.count_lt hd.efiKeyQueueForNotify
  exact keyNotifyProcessLoop_eq hd (Nat.le_of_lt hlen)

/-! ### Every press once -/

/-- A call for a key that is registered already succeeds with the handle of that entry. -/
theorem registers_of_some (pool : ℕ) (hargs : out = true ∧ fn ≠ 0)
    (hfind : alreadyRegistered d key fn = some x) :
    Registers d key fn out pool x.handle ∧
      (NotifyEvent.step d (.register (some key) fn out pool)).2 = d := by
  have hcall : keypadRegisterKeyNotify d (some key) fn out pool =
      ⟨.success, some x.handle, d⟩ := register_found hargs hfind
  rw [Registers, NotifyEvent.step]
  dsimp only
  rw [hcall]
  exact ⟨⟨rfl, rfl⟩, rfl⟩

/-- What the sequences below rely on: `AllocateZeroPool` keeps its promise, the queue for the
handler never overflows, and in the end the handler has drained it. -/
structure Orderly (d : KeypadConsoleInDev α) (es : List (NotifyEvent α)) : Prop where
  fresh : Throughout Fresh d es
  roomy : Throughout Roomy d es
  drained : notifyKeys (after d es) = []

/-- Each registration hears each press once, from its call of `KeypadRegisterKeyNotify` until
its handle is unregistered, and registrations of different key data have lives of their own. -/
structure HearsOnce [DecidableEq α] (d : KeypadConsoleInDev α) (es : List (NotifyEvent α)) :
    Prop where
  once : ∀ pre key fn out pool h mid k post,
    es = pre ++ .register (some key) fn out pool :: (mid ++ .arrive k :: post) →
    Registers (after d pre) key fn out pool h → .unregister h ∉ mid ++ post →
    ignoresKey (after d (pre ++ .register (some key) fn out pool :: mid)) k = false →
    isKeyRegistered key (keyData k) = true → (callsOf d es).count ⟨h, fn, k⟩ = 1
  live : ∀ pre key fn out pool h mid post,
    es = pre ++ .register (some key) fn out pool :: (mid ++ post) →
    Registers (after d pre) key fn out pool h → .unregister h ∉ mid →
    ⟨h, key, fn⟩ ∈ (after d (pre ++ .register (some key) fn out pool :: mid)).notifyList
  apart : ∀ pre key fn out pool h mid key' fn' out' pool' h' post,
    es = pre ++ .register (some key) fn out pool ::
      (mid ++ .register (some key') fn' out' pool' :: post) →
    Registers (after d pre) key fn out pool h →
    Registers (after d (pre ++ .register (some key) fn out pool :: mid)) key' fn' out' pool' h' →
    .unregister h ∉ mid → key ≠ key' → h ≠ h'

/-- No registration is answered by one for other key data, and no press that a surviving
registration hears matches a second registration. -/
structure Separate (d : KeypadConsoleInDev α) (es : List (NotifyEvent α)) : Prop where
  register : ∀ pre key fn out pool post, es = pre ++ .register (some key) fn out pool :: post →
    out = true → fn ≠ 0 → ∀ x, alreadyRegistered (after d pre) key fn = some x → x.keyData = key
  arrive : ∀ pre k post, es = pre ++ .arrive k :: post → ignoresKey (after d pre) k = false →
    ∀ x ∈ matching (after d pre) k, .unregister x.handle ∉ post →
      (matching (after d pre) k).length = 1

/-- No key arrives twice: the carrier of the keys labels the presses. -/
def Labelled (es : List (NotifyEvent α)) : Prop :=
  ∀ pre k post, es = pre ++ .arrive k :: post → .arrive k ∉ pre ∧ .arrive k ∉ post

/-- A registration that is not answered by one for other key data is live under its handle. -/
theorem registers_live (hreg : Registers d key fn out pool h)
    (hsame : ∀ x, alreadyRegistered d key fn = some x → x.keyData = key)
    (hne : .unregister h ∉ es) :
    ⟨h, key, fn⟩ ∈ (after d (.register (some key) fn out pool :: es)).notifyList := by
  rw [after_cons]
  refine live_run (x := ⟨h, key, fn⟩) ?_ hne
  have hstep : (NotifyEvent.step d (.register (some key) fn out pool)).2 =
      (keypadRegisterKeyNotify d (some key) fn out pool).consoleIn := rfl
  rw [hstep]
  obtain ⟨-, ⟨x, hfind, rfl, heq⟩ | ⟨-, -, rfl, heq⟩⟩ := registers_cases hreg
  · rw [heq]
    have hx : x ∈ d.notifyList := List.mem_of_find?_eq_some hfind
    have hfn := List.find?_some hfind
    rw [Bool.and_eq_true, beq_iff_eq] at hfn
    rw [← hsame x hfind, ← hfn.2]
    exact hx
  · rw [heq]
    exact List.mem_append_right _ (List.mem_singleton_self _)

/-- A registration that is separate from the others lives until it is ended. -/
theorem Separate.live (hsep : Separate d es) {pre mid post : List (NotifyEvent α)}
    (hes : es = pre ++ .register (some key) fn out pool :: (mid ++ post))
    (hreg : Registers (after d pre) key fn out pool h) (hne : .unregister h ∉ mid) :
    ⟨h, key, fn⟩ ∈ (after d (pre ++ .register (some key) fn out pool :: mid)).notifyList := by
  obtain ⟨⟨hout, hfn⟩, -⟩ := registers_cases hreg
  rw [after_append]
  exact registers_live hreg (hsep.register pre key fn out pool _ hes hout hfn) hne

section Separation

variable [DecidableEq α]

/-- Separate registrations hear every matching key once. -/
theorem hearsOnce_of_separate (hd : Registry d) (hempty : notifyKeys d = [])
    (hord : Orderly d es) (hlab : Labelled es) (hsep : Separate d es) : HearsOnce d es where
  live _ _ _ _ _ _ _ _ hes hreg hne := hsep.live hes hreg hne
  once := by
    intro pre key fn out pool h mid k post hes hreg hne hacc hmatch
    have ⟨hmid, hpost⟩ := not_or.mp (mt List.mem_append.mpr hne)
    have hsplit : es = (pre ++ .register (some key) fn out pool :: mid) ++ .arrive k :: post := by
      rw [hes, List.append_assoc, List.cons_append]
    have hlive := hsep.live hes hreg hmid
    have hx : ⟨h, key, fn⟩ ∈
        matching (after d (pre ++ .register (some key) fn out pool :: mid)) k :=
      List.mem_filter.mpr ⟨hlive, hmatch⟩
    have ⟨hbefore, hlater⟩ := hlab _ k post hsplit
    have hone := hsep.arrive _ k post hsplit hacc _ hx hpost
    subst hsplit
    rw [← hone]
    exact heard_count hd hempty hord.fresh hord.roomy hord.drained hbefore hlater hacc hx hpost
  apart := by
    intro pre key fn out pool h mid key' fn' out' pool' h' post hes hreg hreg' hne hkey heq
    have hfirst := hsep.live hes hreg hne
    have hsplit : es = (pre ++ .register (some key) fn out pool :: mid) ++
        .register (some key') fn' out' pool' :: ([] ++ post) := by
      rw [hes, List.append_assoc, List.cons_append, List.nil_append]
    have hsecond := hsep.live hsplit hreg' List.not_mem_nil
    have hfirst' := live_step (e := .register (some key') fn' out' pool') hfirst
      fun heq => by cases heq
    have hfresh := hord.fresh
    rw [hsplit, List.nil_append] at hfresh
    have ⟨hfreshPre, hfreshHere, _⟩ := throughout_append.mp hfresh
    have hregistry := (hd.run hfreshPre).step hfreshHere
    rw [after_append] at hsecond
    have hsame := hregistry.eq_of_handle hfirst' hsecond heq
    exact hkey (congrArg KeypadConsoleInExNotify.keyData hsame)

/-- If every registration hears its keys once, the registrations are separate. -/
theorem separate_of_hearsOnce (hd : Registry d) (hlist : d.notifyList = [])
    (hempty : notifyKeys d = []) (hord : Orderly d es) (hlab : Labelled es)
    (hears : HearsOnce d es) : Separate d es where
  register := by
    intro pre key fn out pool post hes hout hfn x hfind
    obtain ⟨hreg, hstep⟩ := registers_of_some pool ⟨hout, hfn⟩ hfind
    have hlive := hears.live pre key fn out pool x.handle [] post hes hreg List.not_mem_nil
    rw [after_append, after_cons, hstep] at hlive
    have hfresh := hord.fresh
    rw [hes] at hfresh
    have hregistry := hd.run (throughout_append.mp hfresh).1
    have hx : x ∈ (after d pre).notifyList := List.mem_of_find?_eq_some hfind
    have hsame := hregistry.eq_of_handle hx hlive rfl
    exact congrArg KeypadConsoleInExNotify.keyData hsame
  arrive := by
    intro pre k post hes hacc x hx hne
    have ⟨hmem, hmatch⟩ := List.mem_filter.mp hx
    have ⟨hbefore, hlater⟩ := hlab pre k post hes
    subst hes
    have hfreshPre := (throughout_append.mp hord.fresh).1
    have hcount := heard_count hd hempty hord.fresh hord.roomy hord.drained hbefore hlater hacc hx
      hne
    obtain ⟨pre₁, out, pool, mid, rfl, hreg, hmid⟩ := origin hd hlist hfreshPre hmem
    rw [← hcount]
    refine hears.once pre₁ x.keyData x.keyNotificationFn out pool x.handle mid k post
      (by rw [List.append_assoc, List.cons_append]) hreg ?_ hacc hmatch
    exact fun hmem => (List.mem_append.mp hmem).elim hmid hne

end Separation

/-! ### Presses -/

/-- A press of a key, told apart from other presses of it by a number. -/
structure Press where
  data : EfiKeyData
  number : ℕ
  deriving DecidableEq, Repr

instance : Keyed Press := ⟨Press.data⟩

instance : Inhabited Press := ⟨⟨⟨⟨scanNull, charNull⟩, ⟨0, 0⟩⟩, 0⟩⟩

/-- An entry, its arrival a press with a number. -/
def NotifyEvent.press (n : ℕ) : NotifyEvent EfiKeyData → NotifyEvent Press
  | .arrive key => .arrive ⟨key, n⟩
  | .register key fn out pool => .register key fn out pool
  | .unregister handle => .unregister handle
  | .process => .process

/-- A sequence of entries, the presses numbered from `n`. -/
def presses : ℕ → List (NotifyEvent EfiKeyData) → List (NotifyEvent Press)
  | _, [] => []
  | n, e :: es => e.press n :: presses (n + 1) es

/-- The presses of a sequence are numbered from its start on. -/
theorem le_number {n : ℕ} {es : List (NotifyEvent EfiKeyData)} {k : Press}
    (hk : .arrive k ∈ presses n es) : n ≤ k.number := by
  induction es generalizing n with
  | nil => cases hk
  | cons e es ih =>
    rcases List.mem_cons.mp hk with heq | hk
    · cases e with
      | arrive key => rw [NotifyEvent.arrive.inj heq]
      | register | unregister | process => cases heq
    · exact Nat.le_of_succ_le (ih hk)

/-- So no two of them have one number. -/
theorem labelled_presses (n : ℕ) (es : List (NotifyEvent EfiKeyData)) :
    Labelled (presses n es) := by
  induction es generalizing n with
  | nil => exact fun pre k post h => absurd h (by simp [presses])
  | cons e es ih =>
    intro pre k post hes
    cases pre with
    | nil =>
      obtain ⟨hhead, htail⟩ := List.cons.inj hes
      refine ⟨List.not_mem_nil, ?_⟩
      intro hmem
      rw [← htail] at hmem
      have hlater := le_number hmem
      cases e with
      | arrive key =>
        rw [← NotifyEvent.arrive.inj hhead] at hlater
        exact Nat.lt_irrefl n hlater
      | register | unregister | process => cases hhead
    | cons e' pre =>
      obtain ⟨hhead, htail⟩ := List.cons.inj hes
      obtain ⟨hpre, hpost⟩ := ih (n + 1) pre k post htail
      refine ⟨?_, hpost⟩
      intro hmem
      rcases List.mem_cons.mp hmem with heq | hmem
      · have hk : .arrive k ∈ presses (n + 1) es := by
          rw [htail]
          exact List.mem_append_right _ List.mem_cons_self
        have hlater := le_number hk
        rw [← heq] at hhead
        cases e with
        | arrive key =>
          rw [← NotifyEvent.arrive.inj hhead] at hlater
          exact Nat.lt_irrefl n hlater
        | register | unregister | process => cases hhead
      · exact hpre hmem

/-- The driver after its start, with or without partial keystrokes. -/
def started (partialKeys : Bool) : KeypadConsoleInDev Press :=
  { keypadControllerDriverStart with isSupportPartialKey := partialKeys }

/-- A started device has no registrations. -/
theorem registry_started (partialKeys : Bool) : Registry (started partialKeys) :=
  have hsound := sound_start (α := Press)
  ⟨⟨hsound.1, hsound.2⟩, List.nodup_nil, nofun⟩

/-- And no copies that wait. -/
theorem notifyKeys_started (partialKeys : Bool) : notifyKeys (started partialKeys) = [] :=
  RingBuffer.contents_clear _ _

/-- **When every registration hears every press once**: in sequences where the queue for the
handler does not overflow and is drained in the end, exactly when no registration is answered by
one for other key data, and no press that a surviving registration hears matches a second one. -/
theorem hearsOnce_iff_separate (partialKeys : Bool) (es : List (NotifyEvent EfiKeyData))
    (hord : Orderly (started partialKeys) (presses 0 es)) :
    HearsOnce (started partialKeys) (presses 0 es) ↔
      Separate (started partialKeys) (presses 0 es) :=
  ⟨separate_of_hearsOnce (registry_started _) rfl (notifyKeys_started _) hord
      (labelled_presses 0 es),
    hearsOnce_of_separate (registry_started _) (notifyKeys_started _) hord
      (labelled_presses 0 es)⟩

/-! ### Two registrations for one key -/

/-- The letter `a`. -/
def letterA : EfiKeyData := ⟨⟨0, 97⟩, ⟨0, 0⟩⟩

/-- One registration for the letter, its press, and a pass of the handler. -/
def oneListener : List (NotifyEvent EfiKeyData) :=
  [.register (some letterA) 1 true 100, .arrive letterA, .process]

/-- The sequence with one listener is orderly. -/
theorem oneListener_orderly : Orderly (started false) (presses 0 oneListener) where
  fresh := by decide +kernel
  roomy := by decide +kernel
  drained := by decide +kernel

/-- The criterion at that sequence. -/
theorem oneListener_hearsOnce_iff :
    HearsOnce (started false) (presses 0 oneListener) ↔
      Separate (started false) (presses 0 oneListener) :=
  hearsOnce_iff_separate false oneListener oneListener_orderly

/-- Two registrations for the letter, its press, and passes of the handler until it has drained
the queue. -/
def twoListeners : List (NotifyEvent EfiKeyData) :=
  [.register (some letterA) 1 true 100, .register (some letterA) 2 true 200, .arrive letterA,
    .process, .process]

/-- Each of two registrations for a letter hears its press twice. -/
theorem twoListeners_not_hearsOnce :
    Orderly (started false) (presses 0 twoListeners) ∧
      ¬HearsOnce (started false) (presses 0 twoListeners) := by
  refine ⟨⟨by decide +kernel, by decide +kernel, by decide +kernel⟩, ?_⟩
  intro h
  have honce := h.once [] letterA 1 true 100 100 [.register (some letterA) 2 true 200]
    ⟨letterA, 2⟩ [.process, .process] rfl ⟨rfl, rfl⟩ (by decide) (by decide +kernel) (by decide)
  revert honce
  decide +kernel

end Keypad

end Msm8998
