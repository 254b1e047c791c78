import Msm8998.Fallible
import Msm8998.KeypadBinding

/-!
# What the Keypad Driver Holds

What a `Start` and a `Stop` of the keypad driver do to what the driver holds, with any outcomes of
the calls that they make.

## Main results

* `errorExit_run`: whatever a `Start` got so far, its error path gives back, and takes the ground
  from under nothing;
* `setUp_spec`: the books are in order wherever a `Start` may jump to its error path;
* `start_spec`, `stop_spec`: what a whole `Start` and a whole `Stop` do.
-/

namespace Msm8998

namespace Keypad

namespace Binding

open Custody (Run)

variable {α : Type}

/-! ### What a device holds -/

/-- What is held for a device, with the keypad device open or not, and the interfaces installed
or not. -/
def ConsoleIn.Holds (c : ConsoleIn α) (opened installed : Bool) : Resource → Prop
  | .keypadDevice => opened = true
  | .consoleIn p => p = c.pool
  | .event kind event p => c.events kind = some event ∧ p = c.pool
  | .names table p => c.controllerNameTable = some table ∧ p = c.pool
  | .notify node p => node ∈ c.dev.notifyList.map (·.handle) ∧ p = c.pool
  | .interfaces p => installed = true ∧ p = c.pool

def ConsoleIn.held (c : ConsoleIn α) (opened installed : Bool) : Set Resource :=
  {r | c.Holds opened installed r}

variable {c : ConsoleIn α} {opened installed : Bool} {r : Resource} {H K : Set Resource}

/-- What is held for a device, resource by resource. -/
theorem mem_held : r ∈ c.held opened installed ↔ c.Holds opened installed r := Iff.rfl

/-- Taking one resource whose ground is held. -/
theorem acquire_run (hnew : r ∉ H) (hground : ∀ b ∈ r.rests, b ∈ H)
    (hK : ∀ a, a ∈ K ↔ a = r ∨ a ∈ H) : services.Run H [.acquire r] K :=
  Run.gain rfl rfl hnew hground (Set.ext hK)

/-- Giving back one resource that carries nothing. -/
theorem release_run (hheld : r ∈ H) (hfree : ∀ b ∈ H, r ∉ b.rests)
    (hK : ∀ a, a ∈ K ↔ a ∈ H ∧ a ≠ r) : services.Run H [.release r] K :=
  Run.drop rfl rfl hheld hfree (Set.ext hK)

/-- Only the memory of a device and the keypad device carry anything. -/
theorem mem_rests {a b : Resource} (h : a ∈ b.rests) :
    a = .keypadDevice ∨ ∃ p, a = .consoleIn p := by
  cases b with
  | keypadDevice => simp [Resource.rests] at h
  | consoleIn p => simp [Resource.rests] at h
  | event kind event p => cases kind <;> simp [Resource.rests] at h <;> tauto
  | names table p => simp [Resource.rests] at h; tauto
  | notify node p => simp [Resource.rests] at h; tauto
  | interfaces p => simp [Resource.rests] at h; tauto

/-! ### Giving back -/

/-- The device with some of its events closed. -/
def ConsoleIn.clear (c : ConsoleIn α) (kinds : List EventKind) : ConsoleIn α :=
  { c with events := fun kind => if kind ∈ kinds then none else c.events kind }

/-- The other events stay open. -/
theorem clear_events {kind : EventKind} {kinds : List EventKind} (h : kind ∉ kinds) :
    (c.clear kinds).events kind = c.events kind := if_neg h

/-- Closing one event does not change how another is closed. -/
theorem closeEvent_clear {kind : EventKind} {kinds : List EventKind} (h : kind ∉ kinds) :
    closeEvent (c.clear kinds) kind = closeEvent c kind := by
  simp only [closeEvent, ConsoleIn.clear, if_neg h]

/-- Closing one event. -/
theorem closeEvent_run (c : ConsoleIn α) (kind : EventKind) :
    services.Run (c.held opened installed) (closeEvent c kind)
      ((c.clear [kind]).held opened installed) := by
  rw [closeEvent]
  cases hevent : c.events kind with
  | none =>
      have hsame : c.clear [kind] = c := by
        have hevents : (c.clear [kind]).events = c.events := by
          funext k
          by_cases hk : k = kind
          · simp [ConsoleIn.clear, hk, hevent]
          · simp [ConsoleIn.clear, hk]
        exact ConsoleIn.ext rfl hevents rfl rfl
      rw [hsame]
      exact .nil _
  | some event =>
      refine release_run ⟨hevent, rfl⟩ (fun b _ hb => ?_) fun a => ?_
      · rcases mem_rests hb with h | ⟨p, h⟩ <;> cases h
      · cases a with
        | event k e p =>
            by_cases hk : k = kind
            · subst hk
              simp only [mem_held, ConsoleIn.Holds, ConsoleIn.clear,
                List.mem_singleton, if_true, reduceCtorEq, false_and, hevent, Option.some.injEq,
                ne_eq, Resource.event.injEq, true_and, false_iff]
              rintro ⟨⟨rfl, rfl⟩, hne⟩
              exact hne ⟨rfl, rfl⟩
            · simp [mem_held, ConsoleIn.Holds, ConsoleIn.clear, hk]
        | _ => simp [mem_held, ConsoleIn.Holds, ConsoleIn.clear]

/-- Closing several events, one after the other. -/
theorem closeEvents_run (c : ConsoleIn α) {kinds : List EventKind} (hnodup : kinds.Nodup) :
    services.Run (c.held opened installed) (kinds.flatMap (closeEvent c))
      ((c.clear kinds).held opened installed) := by
  induction kinds generalizing c with
  | nil => exact .nil _
  | cons kind kinds ih =>
      obtain ⟨hnew, hnodup⟩ := List.nodup_cons.mp hnodup
      have hrest := ih (c.clear [kind]) hnodup
      have hclose : kinds.flatMap (closeEvent (c.clear [kind])) = kinds.flatMap (closeEvent c) :=
        List.flatMap_congr fun k hk => closeEvent_clear (by
          rw [List.mem_singleton]
          rintro rfl
          exact hnew hk)
      have hclear : (c.clear [kind]).clear kinds = c.clear (kind :: kinds) := by
        simp only [ConsoleIn.clear, List.mem_cons, List.not_mem_nil, or_false]
        congr 1
        funext k
        by_cases hk : k = kind <;> simp [hk]
      rw [hclose, hclear] at hrest
      exact (closeEvent_run c kind).append hrest

/-- The device with so many of its registrations. -/
def ConsoleIn.withNotifyList (c : ConsoleIn α) (l : List KeypadConsoleInExNotify) : ConsoleIn α :=
  { c with dev := { c.dev with notifyList := l } }

/-- Giving back the registrations, one after the other. -/
theorem freeNotifyNodes_run (c : ConsoleIn α) {l : List KeypadConsoleInExNotify}
    (hnodup : (l.map (·.handle)).Nodup) :
    services.Run ((c.withNotifyList l).held opened installed)
      (l.map fun x => .release (.notify x.handle c.pool))
      ((c.withNotifyList []).held opened installed) := by
  induction l with
  | nil => exact .nil _
  | cons x l ih =>
      rw [List.map_cons, List.nodup_cons] at hnodup
      obtain ⟨hnew, hnodup⟩ := hnodup
      refine Run.append (release_run (r := .notify x.handle c.pool) ?_ (fun b _ hb => ?_)
        fun a => ?_) (ih hnodup)
      · exact ⟨List.mem_cons_self, rfl⟩
      · rcases mem_rests hb with h | ⟨p, h⟩ <;> cases h
      · cases a with
        | notify node p =>
            simp only [mem_held, ConsoleIn.Holds,
              ConsoleIn.withNotifyList, List.map_cons, List.mem_cons, ne_eq,
              Resource.notify.injEq]
            constructor
            · rintro ⟨hmem, rfl⟩
              refine ⟨⟨.inr hmem, rfl⟩, ?_⟩
              rintro ⟨rfl, -⟩
              exact hnew hmem
            · rintro ⟨⟨rfl | hmem, rfl⟩, hne⟩
              · exact absurd ⟨rfl, rfl⟩ hne
              · exact ⟨hmem, rfl⟩
        | _ => simp [mem_held, ConsoleIn.Holds, ConsoleIn.withNotifyList]

/-- Giving back the name table. -/
theorem freeUnicodeStringTable_run (c : ConsoleIn α) :
    services.Run (c.held opened installed) (freeUnicodeStringTable c)
      ({ c with controllerNameTable := none }.held opened installed) := by
  rw [freeUnicodeStringTable]
  cases htable : c.controllerNameTable with
  | none =>
      have hsame : { c with controllerNameTable := none } = c :=
        ConsoleIn.ext rfl rfl htable.symm rfl
      rw [hsame]
      exact .nil _
  | some table =>
      refine release_run ⟨htable, rfl⟩ (fun b _ hb => ?_) fun a => ?_
      · rcases mem_rests hb with h | ⟨p, h⟩ <;> cases h
      · cases a with
        | names t p =>
            simp only [mem_held, ConsoleIn.Holds, htable,
              reduceCtorEq, false_and, Option.some.injEq, ne_eq, Resource.names.injEq, false_iff]
            rintro ⟨⟨rfl, rfl⟩, hne⟩
            exact hne ⟨rfl, rfl⟩
        | _ => simp [mem_held, ConsoleIn.Holds]

/-- Every handle in the list of the device is there once. -/
def ConsoleIn.Distinct (c : ConsoleIn α) : Prop := (c.dev.notifyList.map (·.handle)).Nodup

/-- What is left when a device is gone. -/
def bare (opened : Bool) : Set Resource := {r | r = .keypadDevice ∧ opened = true}

/-- Giving back a device without events. -/
theorem freeDevice_run (hnodup : c.Distinct) (hevents : ∀ kind, c.events kind = none) :
    services.Run (c.held opened false)
      (kbdFreeNotifyList c ++ freeUnicodeStringTable c ++ [.release (.consoleIn c.pool)])
      (bare opened) := by
  have hnotify : services.Run (c.held opened false) (kbdFreeNotifyList c)
      ((c.withNotifyList []).held opened false) := freeNotifyNodes_run c hnodup
  refine (hnotify.append (freeUnicodeStringTable_run _)).append
    (release_run rfl (fun b hb hrests => ?_) fun a => ?_)
  · cases b with
    | event kind event p =>
        obtain ⟨hevent, -⟩ := hb
        rw [show (c.withNotifyList []).events = c.events from rfl, hevents kind] at hevent
        cases hevent
    | _ => simp_all [mem_held, ConsoleIn.Holds, ConsoleIn.withNotifyList, Resource.rests]
  · cases a with
    | _ => simp [bare, mem_held, ConsoleIn.Holds, ConsoleIn.withNotifyList, hevents]

/-- **The error path gives back** whatever a `Start` got so far. -/
theorem errorExit_run (hnodup : c.Distinct) :
    services.Run (c.held true false) (errorExit c) ∅ := by
  let kinds : List EventKind := [.waitForKey, .timer, .waitForKeyEx, .keyNotifyProcess]
  have hevents : services.Run (c.held true false) (kinds.flatMap (closeEvent c))
      ((c.clear kinds).held true false) := closeEvents_run c (by decide)
  have hnone : ∀ kind, (c.clear kinds).events kind = none := by
    intro kind
    exact if_pos (by cases kind <;> decide)
  have hdevice : services.Run ((c.clear kinds).held true false) _ (bare true) :=
    freeDevice_run hnodup hnone
  have hlast : services.Run (bare true) [.release .keypadDevice] ∅ := by
    refine release_run ⟨rfl, rfl⟩ ?_ fun a => ?_
    · rintro b ⟨rfl, -⟩ hb
      cases hb
    · simp [bare]
  have hrun := (hevents.append hdevice).append hlast
  simp only [kinds, List.flatMap_cons, List.flatMap_nil, List.append_nil, List.append_assoc,
    List.singleton_append] at hrun
  simp only [errorExit, List.append_assoc]
  exact hrun

/-- **The end of a `Stop`** gives back what a device without timer and interfaces holds. -/
theorem freeOtherResources_run (hnodup : c.Distinct) (htimer : c.events .timer = none) :
    services.Run (c.held false false) (freeOtherResources c) ∅ := by
  let kinds : List EventKind := [.waitForKey, .waitForKeyEx, .keyNotifyProcess]
  have hevents : services.Run (c.held false false) (kinds.flatMap (closeEvent c))
      ((c.clear kinds).held false false) := closeEvents_run c (by decide)
  have hnone : ∀ kind, (c.clear kinds).events kind = none := by
    intro kind
    by_cases hkind : kind ∈ kinds
    · exact if_pos hkind
    · have htimer' : kind = .timer := by
        cases kind <;> simp [kinds] at hkind ⊢
      rw [htimer'] at hkind ⊢
      exact (clear_events hkind).trans htimer
  have hdevice : services.Run ((c.clear kinds).held false false) _ (bare false) :=
    freeDevice_run hnodup hnone
  have hempty : bare false = ∅ := by simp [bare]
  have hrun := hevents.append (hempty ▸ hdevice)
  simp only [kinds, List.flatMap_cons, List.flatMap_nil, List.append_nil,
    List.append_assoc] at hrun
  simp only [freeOtherResources, List.append_assoc]
  exact hrun

/-! ### Setting up a device -/

section SetUp

variable [Keyed α] {s : Setup α} {kinds : List EventKind} {kind : EventKind}
  {named : Bool} {dev : KeypadConsoleInDev α}

/-- A device under construction, with so many of its events, and with a name table or not. -/
structure Built (kinds : List EventKind) (named : Bool) (dev : KeypadConsoleInDev α)
    (s : Setup α) : Prop where
  run : services.Run ∅ s.trace (s.consoleIn.held true false)
  events : ∀ kind, (s.consoleIn.events kind).isSome ↔ kind ∈ kinds
  dev_eq : s.consoleIn.dev = dev
  notifyList : dev.notifyList = []
  unnamed : named = false → s.consoleIn.controllerNameTable = none

/-- A part of `Start` that jumps to `ErrorExit` does so with an error, and with a device whose
books are in order. -/
def Failed (failure : UInt64 × Setup α) : Prop :=
  efiError failure.1 = true ∧ ∃ kinds named dev, Built kinds named dev failure.2

/-- Every status but success is an error. -/
theorem efiError_code {status : Status} (h : status ≠ .success) : efiError status.code = true := by
  cases status with
  | success => exact absurd rfl h
  | _ => rfl

omit [Keyed α] in
/-- An event more, or a failure. -/
theorem Built.createEvent (h : Built kinds named dev s) (hkind : kind ∉ kinds) (event : Option ℕ) :
    Fallible.Ends Failed (Built (kind :: kinds) named dev) (createEvent kind event s) := by
  cases event with
  | none => exact ⟨efiError_code (by decide), kinds, named, dev, h⟩
  | some e =>
      have hnone : s.consoleIn.events kind = none := by
        rw [← Option.not_isSome_iff_eq_none, h.events]
        exact hkind
      refine ⟨h.run.append (acquire_run ?_ ?_ fun a => ?_), fun k => ?_, h.dev_eq,
        h.notifyList, h.unnamed⟩
      · rintro ⟨hevent, -⟩
        rw [hnone] at hevent
        cases hevent
      · cases kind <;> simp [Resource.rests, mem_held, ConsoleIn.Holds]
      · cases a with
        | event k e' p =>
            by_cases hk : k = kind
            · subst hk
              simp only [mem_held, ConsoleIn.Holds, ConsoleIn.setEvent, Function.update_self,
                Option.some.injEq, Resource.event.injEq, true_and, hnone, reduceCtorEq, false_and,
                or_false]
              rw [eq_comm (a := e)]
            · simp [mem_held, ConsoleIn.Holds, ConsoleIn.setEvent, hk]
        | _ => simp [mem_held, ConsoleIn.Holds, ConsoleIn.setEvent]
      · by_cases hk : k = kind
        · simp [ConsoleIn.setEvent, hk]
        · simp [ConsoleIn.setEvent, hk, h.events]

omit [Keyed α] in
/-- Setting the timer takes nothing. -/
theorem Built.setTimer (h : Built kinds named dev s) (status : UInt64) :
    Fallible.Ends Failed (Built kinds named dev) (setTimer status s) := by
  rw [Binding.setTimer]
  split
  · exact ⟨efiError_code (by decide), kinds, named, dev, h⟩
  · exact h

omit [Keyed α] in
/-- The books do not depend on the keys. -/
theorem held_dev {dev : KeypadConsoleInDev α} (c : ConsoleIn α)
    (h : dev.notifyList = c.dev.notifyList) :
    { c with dev := dev }.held opened installed = c.held opened installed := by
  ext r
  cases r with
  | _ => simp [mem_held, ConsoleIn.Holds, h]

omit [Keyed α] in
/-- What the timer brings does not change the books. -/
theorem Built.withDev (h : Built kinds named dev s) {dev' : KeypadConsoleInDev α}
    (hlist : dev'.notifyList = dev.notifyList) :
    Built kinds named dev' { s with consoleIn := { s.consoleIn with dev := dev' } } where
  run := by
    have hsame := hlist.trans (congrArg (·.notifyList) h.dev_eq.symm)
    rw [held_dev s.consoleIn hsame]
    exact h.run
  events := h.events
  dev_eq := rfl
  notifyList := hlist.trans h.notifyList
  unnamed := h.unnamed

/-- The timer goes off any number of times. -/
theorem Built.ticks (h : Built kinds named dev s) (polls : List (Poll α)) :
    Built kinds named (polls.foldl keypadTimerHandler dev) (s.ticks polls) := by
  have htick := h.withDev (apart_notifyList.polls dev polls)
  rw [← h.dev_eq] at htick ⊢
  exact htick

omit [Keyed α] in
/-- The reset takes nothing. -/
theorem Built.reset (h : Built kinds named dev s) :
    Fallible.Ends Failed (Built kinds named (keypadEfiReset dev).2) (reset s) := by
  have hreset := h.withDev (reset_notifyList dev)
  rw [← h.dev_eq] at hreset ⊢
  simp only [Binding.reset]
  split
  · exact ⟨efiError_code (by decide), kinds, named, _, hreset⟩
  · exact hreset

omit [Keyed α] in
/-- The name table, if it was made. -/
theorem Built.addUnicodeString2 (h : Built kinds false dev s) (table : Option ℕ) :
    Built kinds true dev (s.addUnicodeString2 table) := by
  have hnone := h.unnamed rfl
  cases table with
  | none => exact ⟨h.run, h.events, h.dev_eq, h.notifyList, fun hnamed => by cases hnamed⟩
  | some t =>
      simp only [Setup.addUnicodeString2]
      refine ⟨h.run.append (acquire_run ?_ ?_ fun a => ?_), h.events, h.dev_eq, h.notifyList,
        fun hnamed => by cases hnamed⟩
      · rintro ⟨htable, -⟩
        rw [hnone] at htable
        cases htable
      · simp [Resource.rests, mem_held, ConsoleIn.Holds]
      · cases a with
        | names t' p =>
            simp only [mem_held, ConsoleIn.Holds, Option.some.injEq, Resource.names.injEq, hnone,
              reduceCtorEq, false_and, or_false]
            rw [eq_comm (a := t)]
        | _ => simp [mem_held, ConsoleIn.Holds]

/-- The keys and settings of the device when a `Start` returns. -/
def startedDev [Inhabited α] (env : StartEnv α) : KeypadConsoleInDev α :=
  env.late.foldl keypadTimerHandler
    (keypadEfiReset (env.early.foldl keypadTimerHandler zeroed)).2

/-- A device that a `Start` installed. -/
structure Started [Inhabited α] (env : StartEnv α) (s : Setup α) : Prop where
  run : services.Run ∅ s.trace (s.consoleIn.held true true)
  events : ∀ kind, (s.consoleIn.events kind).isSome
  dev_eq : s.consoleIn.dev = startedDev env
  status : efiError env.installStatus = false

omit [Keyed α] in
/-- Installing the interfaces on an open keypad device. -/
theorem install_run (h : services.Run ∅ s.trace (s.consoleIn.held true false)) :
    services.Run ∅ (s.trace ++ [.acquire (.interfaces s.consoleIn.pool)])
      (s.consoleIn.held true true) := by
  refine h.append (acquire_run ?_ ?_ fun a => ?_)
  · rintro ⟨hinstalled, -⟩
    cases hinstalled
  · simp [Resource.rests, mem_held, ConsoleIn.Holds]
  · cases a with
    | _ => simp [mem_held, ConsoleIn.Holds]

omit [Keyed α] in
/-- The device before its first event. -/
theorem init_built [Inhabited α] (pool : ℕ) :
    Built [] false (zeroed : KeypadConsoleInDev α) (.init pool) where
  run := by
    refine Run.append (s := [.acquire .keypadDevice]) (K := {.keypadDevice})
      (acquire_run ?_ ?_ fun a => ?_) (acquire_run ?_ ?_ fun a => ?_)
    · exact Set.notMem_empty _
    · simp [Resource.rests]
    · simp
    · simp
    · simp [Resource.rests]
    · cases a with
      | _ => simp [mem_held, ConsoleIn.Holds, Setup.init, zeroed]
  events := by simp [Setup.init]
  dev_eq := rfl
  notifyList := rfl
  unnamed := fun _ => rfl

/-- **The fallible part of a `Start`**: the books are in order at every jump and at the end. -/
theorem setUp_spec [Inhabited α] (env : StartEnv α) (pool : ℕ) :
    Fallible.Ends Failed (Started env) (setUp env (.init pool)) := by
  rw [setUp]
  refine ((init_built pool).createEvent (by decide) _).bind fun s h => ?_
  refine (h.createEvent (by decide) _).bind fun s h => ?_
  refine (h.createEvent (by decide) _).bind fun s h => ?_
  refine (h.setTimer _).bind fun s h => ?_
  refine ((h.ticks env.early).createEvent (by decide) _).bind fun s h => ?_
  refine h.reset.bind fun s h => ?_
  have hbuilt := (h.addUnicodeString2 env.controllerNameTable).ticks env.late
  rw [installMultipleProtocolInterfaces]
  by_cases hstatus : efiError env.installStatus = true
  · rw [if_pos hstatus]
    exact ⟨hstatus, _, _, _, hbuilt⟩
  · rw [if_neg hstatus]
    refine ⟨install_run hbuilt.run, fun kind => ?_, hbuilt.dev_eq, by simpa using hstatus⟩
    exact (hbuilt.events kind).mpr (by cases kind <;> decide)

end SetUp

/-! ### The calls -/

section Calls

variable [Keyed α] [Inhabited α]

omit [Keyed α] [Inhabited α] in
/-- Without registrations no handle is there twice. -/
theorem distinct_of_eq_nil (h : c.dev.notifyList = []) : c.Distinct := by
  rw [ConsoleIn.Distinct, h]
  exact List.nodup_nil

/-- **A `Start`** gives back all it took, or leaves a device with all its events. -/
theorem start_spec {env : StartEnv α} {run : StartRun α}
    (h : keypadControllerDriverStart env = some run) :
    (efiError run.status = true ∧ run.consoleIn = none ∧ services.Run ∅ run.trace ∅) ∨
      (efiError run.status = false ∧ ∃ c, run.consoleIn = some c ∧
        services.Run ∅ run.trace (c.held true true) ∧ (∀ kind, (c.events kind).isSome) ∧
        c.dev = startedDev env) := by
  rw [keypadControllerDriverStart] at h
  by_cases hopen : efiError env.openStatus = true
  · rw [if_pos hopen] at h
    cases h
    exact .inl ⟨hopen, rfl, .nil _⟩
  · rw [if_neg hopen] at h
    cases hpool : env.pool with
    | none =>
        rw [hpool] at h
        cases h
    | some pool =>
        rw [hpool] at h
        dsimp only at h
        have hspec := setUp_spec env pool
        cases hsetUp : setUp env (.init pool) with
        | error failure =>
            obtain ⟨status, s⟩ := failure
            rw [hsetUp] at hspec h
            obtain ⟨herror, kinds, named, dev, hbuilt⟩ := hspec
            cases h
            have hlist := (congrArg (·.notifyList) hbuilt.dev_eq).trans hbuilt.notifyList
            exact .inl ⟨herror, rfl, hbuilt.run.append (errorExit_run (distinct_of_eq_nil hlist))⟩
        | ok s =>
            rw [hsetUp] at hspec h
            cases h
            exact .inr ⟨hspec.status, _, rfl, hspec.run, hspec.events, hspec.dev_eq⟩

/-- **When a `Start` goes astray**: the device is not allocated. -/
theorem start_eq_none_iff {env : StartEnv α} :
    keypadControllerDriverStart env = none ↔
      efiError env.openStatus = false ∧ env.pool = none := by
  rw [keypadControllerDriverStart]
  by_cases hopen : efiError env.openStatus = true
  · simp [hopen]
  · rw [if_neg hopen]
    cases hpool : env.pool with
    | none => simp [hopen]
    | some pool =>
        cases hsetUp : setUp env (.init pool) with
        | error failure => simp [hsetUp]
        | ok s => simp [hsetUp]

omit [Keyed α] [Inhabited α] in
/-- Forgetting an event is closing it. -/
theorem setEvent_none (c : ConsoleIn α) (kind : EventKind) :
    c.setEvent kind none = c.clear [kind] := by
  refine ConsoleIn.ext rfl ?_ rfl rfl
  funext k
  by_cases hk : k = kind
  · simp [ConsoleIn.setEvent, ConsoleIn.clear, hk]
  · simp [ConsoleIn.setEvent, ConsoleIn.clear, hk]

omit [Keyed α] [Inhabited α] in
/-- Taking down the interfaces and the keypad device. -/
theorem uninstall_run (htimer : c.events .timer = none) :
    services.Run (c.held true true) [.release (.interfaces c.pool), .release .keypadDevice]
      (c.held false false) := by
  have hinterfaces : services.Run (c.held true true) [.release (.interfaces c.pool)]
      (c.held true false) := by
    refine release_run ⟨rfl, rfl⟩ (fun b _ hb => ?_) fun a => ?_
    · rcases mem_rests hb with h | ⟨p, h⟩ <;> cases h
    · cases a with
      | _ => simp [mem_held, ConsoleIn.Holds]
  refine hinterfaces.append (release_run rfl (fun b hb hrests => ?_) fun a => ?_)
  · cases b with
    | event kind event p =>
        obtain ⟨hevent, -⟩ := hb
        cases kind with
        | timer =>
            rw [htimer] at hevent
            cases hevent
        | _ => simp [Resource.rests] at hrests
    | _ => simp_all [mem_held, ConsoleIn.Holds, Resource.rests]
  · cases a with
    | _ => simp [mem_held, ConsoleIn.Holds]

omit [Keyed α] [Inhabited α] in
/-- **A `Stop`** gives back all that the driver holds, or leaves the device, perhaps without its
timer. -/
theorem stop_spec (env : StopEnv) (hnodup : c.Distinct) :
    ∃ run, keypadControllerDriverStop env (some c) = run ∧
      ((efiError run.status = true ∧ ∃ c', run.consoleIn = some c' ∧
          services.Run (c.held true true) run.trace (c'.held true true) ∧
          (c' = c ∨ c' = c.clear [.timer])) ∨
        (efiError run.status = false ∧ run.consoleIn = none ∧
          services.Run (c.held true true) run.trace ∅)) := by
  refine ⟨_, rfl, ?_⟩
  rw [keypadControllerDriverStop]
  by_cases hopen : efiError env.openStatus = true
  · rw [if_pos hopen]
    exact .inl ⟨hopen, c, rfl, .nil _, .inl rfl⟩
  rw [if_neg hopen]
  by_cases htest : efiError env.testStatus = true
  · rw [if_pos htest]
    exact .inl ⟨htest, c, rfl, .nil _, .inl rfl⟩
  rw [if_neg htest]
  have htimer : services.Run (c.held true true) (closeEvent c .timer)
      ((c.clear [.timer]).held true true) := closeEvent_run c .timer
  by_cases huninstall : efiError env.uninstallStatus = true
  · dsimp only
    rw [if_pos huninstall, setEvent_none]
    exact .inl ⟨huninstall, _, rfl, htimer, .inr rfl⟩
  · dsimp only
    rw [if_neg huninstall, setEvent_none]
    have hnone : (c.clear [.timer]).events .timer = none := by simp [ConsoleIn.clear]
    exact .inr ⟨rfl, rfl,
      (htimer.append (uninstall_run hnone)).append (freeOtherResources_run hnodup hnone)⟩

end Calls

end Binding

end Keypad

end Msm8998
