import Msm8998.Mailbox
import Msm8998.TouchCoordinates

/-!
# Touch Samples Between the Poll and the Reader

The timer polls the controller at `TPL_CALLBACK` while an application, below it, is in
`AbsPGetState` or `AbsPReset`. Neither of the two raises the priority, so that a poll may come
between any two of their statements. This module runs the two statement by statement, in the
order of the source, with polls and calls of `AbsPWaitForInput` in between; a poll as a whole is
not interrupted.

Each of these runs is one of a `Mailbox`, whose posts are the polls that read a touch.

## Main results

* `reports_drawn`: which samples are reported, over all interleavings.
-/

namespace Msm8998

namespace Touch

/-- `AbsPReset`. -/
def absPReset (p : Pointer) : Pointer := { p with lastX := 0, lastY := 0, stateChanged := false }

/-- `AbsPWaitForInput`: whether it signals the event, and the instance after the call. -/
def absPWaitForInput (env : PollEnv) (p : Pointer) : Bool × Pointer :=
  let p := syncPollCallback env p
  (p.stateChanged, p)

/-- The statement after which the application is in `AbsPGetState`, or in `AbsPReset`. -/
inductive Position
  | outside
  | stateChanged
  | currentX (x : UInt64)
  | currentY (x y : UInt64)
  | lastX
  | lastY
deriving Repr, DecidableEq

/-- An instance that is shared, with the states reported and the signals sent so far. -/
structure Shared where
  pointer : Pointer
  position : Position
  reported : List AbsolutePointerState
  signals : List Bool
deriving Repr, DecidableEq

/-- What happens next: the timer fires, somebody checks the event, or the application enters a
function or goes on to the next statement. -/
inductive Act
  | timer (env : PollEnv)
  | waitForInput (env : PollEnv)
  | getState
  | reset
  | resume

/-- What `AbsPGetState` stores. -/
def pointerState (r : UInt64 × UInt64) : AbsolutePointerState := ⟨r.1, r.2, 0, 1⟩

/-- The next statement of the application. -/
def Shared.resume (s : Shared) : Shared :=
  match s.position with
  | .outside => s
  | .stateChanged => { s with position := .currentX s.pointer.lastX.toUInt64 }
  | .currentX x => { s with position := .currentY x s.pointer.lastY.toUInt64 }
  | .currentY x y =>
      { s with
        pointer := { s.pointer with stateChanged := false }
        position := .outside
        reported := s.reported ++ [⟨x, y, 0, 1⟩] }
  | .lastX => { s with pointer := { s.pointer with lastY := 0 }, position := .lastY }
  | .lastY => { s with pointer := { s.pointer with stateChanged := false }, position := .outside }

def Shared.step (s : Shared) : Act → Shared
  | .timer env => { s with pointer := syncPollCallback env s.pointer }
  | .waitForInput env =>
      let (signal, pointer) := absPWaitForInput env s.pointer
      { s with pointer, signals := s.signals ++ [signal] }
  | .getState =>
      match s.position with
      | .outside => if s.pointer.stateChanged then { s with position := .stateChanged } else s
      | _ => s
  | .reset =>
      match s.position with
      | .outside => { s with pointer := { s.pointer with lastX := 0 }, position := .lastX }
      | _ => s
  | .resume => s.resume

def Shared.run (s : Shared) (acts : List Act) : Shared := acts.foldl Shared.step s

/-- An instance as `Start` copies it from its template. -/
def Shared.start (p : Pointer) : Shared := ⟨absPReset p, .outside, [], []⟩

/-! ### Calls that are not interrupted -/

/-- `AbsPGetState` in one piece. -/
theorem run_getState {s : Shared} (h : s.position = .outside) :
    s.run [.getState, .resume, .resume, .resume] =
      match absPGetState s.pointer with
      | (.ok state, pointer) => { s with pointer, reported := s.reported ++ [state] }
      | (.error _, pointer) => { s with pointer } := by
  obtain ⟨p, position, reported, signals⟩ := s
  obtain rfl : position = .outside := h
  cases hchanged : p.stateChanged with
  | true => simp [Shared.run, Shared.step, Shared.resume, absPGetState, hchanged]
  | false => simp [Shared.run, Shared.step, Shared.resume, absPGetState, hchanged]

/-- `AbsPReset` in one piece. -/
theorem run_reset {s : Shared} (h : s.position = .outside) :
    s.run [.reset, .resume, .resume] = { s with pointer := absPReset s.pointer } := by
  obtain ⟨p, position, reported, signals⟩ := s
  obtain rfl : position = .outside := h
  rfl

/-! ### Samples -/

/-- The coordinates that a poll stores, if it reads a touch. -/
def sample (p : Pointer) (env : PollEnv) : Option (UInt16 × UInt16) :=
  match syncGetTouchData env p.inst with
  | .error _ => none
  | .ok data =>
      if data.touchStatus > 0 then
        some (lastCoordinate data.touchX p.inst.rmi4Device.xMin p.xInverted p.inst.absoluteMaxX,
          lastCoordinate data.touchY p.inst.rmi4Device.yMin p.yInverted p.inst.absoluteMaxY)
      else none

/-- A poll stores the coordinates it read, if it read any. -/
theorem syncPollCallback_eq (p : Pointer) (env : PollEnv) :
    syncPollCallback env p =
      match sample p env with
      | some (x, y) => { p with lastX := x, lastY := y, stateChanged := true }
      | none => p := by
  rw [syncPollCallback, sample]
  cases syncGetTouchData env p.inst with
  | error status => rfl
  | ok data =>
      dsimp only
      split <;> rfl

/-- The sample that is taken when something happens, as it would be reported. -/
def sampled (p : Pointer) : Act → Option (UInt64 × UInt64)
  | .timer env => (sample p env).map fun r => (r.1.toUInt64, r.2.toUInt64)
  | .waitForInput env => (sample p env).map fun r => (r.1.toUInt64, r.2.toUInt64)
  | _ => none

def samples (p : Pointer) (acts : List Act) : List (UInt64 × UInt64) := acts.filterMap (sampled p)

/-- No sample is taken when the application has stored one coordinate only. -/
def Untorn (p : Pointer) (acts : List Act) : Prop :=
  ∀ before act after, acts = before ++ act :: after → sampled p act ≠ none →
    ∀ x, ((Shared.start p).run before).position ≠ .currentX x

/-! ### The mailbox -/

/-- What it is to the mailbox. -/
def mailboxEvent (p : Pointer) (act : Act) : Option (Mailbox.Event UInt64 UInt64) :=
  match act with
  | .timer _ => (sampled p act).map fun r => .post r.1 r.2
  | .waitForInput _ => (sampled p act).map fun r => .post r.1 r.2
  | .getState => some .receive
  | .reset => some (.wipe 0)
  | .resume => some (.next 0)

def Position.reader : Position → Mailbox.Reader UInt64 UInt64
  | .outside => .outside
  | .stateChanged => .checked
  | .currentX x => .half x
  | .currentY x y => .whole x y
  | .lastX => .wipedFirst
  | .lastY => .wipedSecond

/-- A mailbox that holds what the instance holds, of which the device is that of `p`. -/
structure Matches (p : Pointer) (s : Shared) (m : Mailbox.State UInt64 UInt64) : Prop where
  settings : sample s.pointer = sample p
  first : m.first = s.pointer.lastX.toUInt64
  second : m.second = s.pointer.lastY.toUInt64
  full : m.full = s.pointer.stateChanged
  reader : m.reader = s.position.reader
  reported : s.reported = m.received.map pointerState

variable {p : Pointer} {s : Shared} {m : Mailbox.State UInt64 UInt64}

/-- A poll is a post, or nothing. -/
theorem Matches.poll (h : Matches p s m) (env : PollEnv) :
    match (sample p env).map fun r => (r.1.toUInt64, r.2.toUInt64) with
    | some r => Matches p { s with pointer := syncPollCallback env s.pointer }
        (Mailbox.step m (.post r.1 r.2))
    | none => syncPollCallback env s.pointer = s.pointer := by
  rw [syncPollCallback_eq, h.settings]
  cases sample p env with
  | none => rfl
  | some r => exact ⟨h.settings, rfl, rfl, rfl, h.reader, h.reported⟩

/-- What the mailbox does when something happens. -/
theorem Matches.step (h : Matches p s m) (act : Act) :
    Matches p (s.step act) (Mailbox.run m (mailboxEvent p act).toList) := by
  cases act with
  | timer env =>
      have hpoll := h.poll env
      rw [mailboxEvent, sampled]
      cases hsample : (sample p env).map fun r => (r.1.toUInt64, r.2.toUInt64) with
      | none =>
          rw [hsample] at hpoll
          rw [Shared.step, hpoll]
          exact h
      | some r =>
          rw [hsample] at hpoll
          exact hpoll
  | waitForInput env =>
      have hpoll := h.poll env
      rw [mailboxEvent, sampled]
      cases hsample : (sample p env).map fun r => (r.1.toUInt64, r.2.toUInt64) with
      | none =>
          rw [hsample] at hpoll
          rw [Shared.step, absPWaitForInput, hpoll]
          exact ⟨h.settings, h.first, h.second, h.full, h.reader, h.reported⟩
      | some r =>
          rw [hsample] at hpoll
          exact ⟨hpoll.settings, hpoll.first, hpoll.second, hpoll.full, hpoll.reader,
            hpoll.reported⟩
  | getState =>
      obtain ⟨hsettings, hfirst, hsecond, hfull, hreader, hreported⟩ := h
      simp only [mailboxEvent, Option.toList_some, Mailbox.run, List.foldl_cons, List.foldl_nil,
        Shared.step, Mailbox.step, hreader, hfull]
      cases hposition : s.position with
      | outside =>
          dsimp only [Position.reader]
          split
          · exact ⟨hsettings, hfirst, hsecond, rfl, rfl, hreported⟩
          · exact ⟨hsettings, hfirst, hsecond, hfull, by rw [hreader, hposition], hreported⟩
      | _ => exact ⟨hsettings, hfirst, hsecond, hfull, hreader, hreported⟩
  | reset =>
      obtain ⟨hsettings, hfirst, hsecond, hfull, hreader, hreported⟩ := h
      simp only [mailboxEvent, Option.toList_some, Mailbox.run, List.foldl_cons, List.foldl_nil,
        Shared.step, Mailbox.step, hreader]
      cases hposition : s.position with
      | outside => exact ⟨hsettings, rfl, hsecond, hfull, rfl, hreported⟩
      | _ => exact ⟨hsettings, hfirst, hsecond, hfull, hreader, hreported⟩
  | resume =>
      obtain ⟨hsettings, hfirst, hsecond, hfull, hreader, hreported⟩ := h
      simp only [mailboxEvent, Option.toList_some, Mailbox.run, List.foldl_cons, List.foldl_nil,
        Shared.step, Shared.resume, Mailbox.step, hreader]
      cases hposition : s.position with
      | outside => exact ⟨hsettings, hfirst, hsecond, hfull, hreader, hreported⟩
      | stateChanged =>
          exact ⟨hsettings, hfirst, hsecond, hfull, by rw [hfirst]; rfl, hreported⟩
      | currentX x =>
          exact ⟨hsettings, hfirst, hsecond, hfull, by rw [hsecond]; rfl, hreported⟩
      | currentY x y =>
          refine ⟨hsettings, hfirst, hsecond, rfl, rfl, ?_⟩
          change s.reported ++ [pointerState (x, y)] = (m.received ++ [(x, y)]).map pointerState
          rw [List.map_append, hreported, List.map_singleton]
      | lastX => exact ⟨hsettings, hfirst, rfl, hfull, rfl, hreported⟩
      | lastY => exact ⟨hsettings, hfirst, hsecond, rfl, rfl, hreported⟩

/-- The mailbox to begin with. -/
def emptyBox : Mailbox.State UInt64 UInt64 := ⟨0, 0, false, .outside, []⟩

/-- Nothing was done with the empty mailbox. -/
theorem emptyBox_idle : emptyBox.Idle := ⟨rfl, rfl, rfl⟩

/-- At the start the pointer is the empty mailbox. -/
theorem matches_start (p : Pointer) : Matches p (.start p) emptyBox :=
  ⟨rfl, rfl, rfl, rfl, rfl, rfl⟩

/-- The pointer and the mailbox go together through every run. -/
theorem Matches.run (h : Matches p s m) (acts : List Act) :
    Matches p (s.run acts) (Mailbox.run m (acts.filterMap (mailboxEvent p))) := by
  induction acts generalizing s m with
  | nil => exact h
  | cons act acts ih =>
      have hrun := ih (h.step act)
      cases hevent : mailboxEvent p act with
      | none =>
          rw [hevent] at hrun
          rw [List.filterMap_cons_none hevent]
          exact hrun
      | some e =>
          rw [hevent] at hrun
          rw [List.filterMap_cons_some hevent]
          exact hrun

/-- The samples are what is posted. -/
theorem posts_mailboxEvents (p : Pointer) (acts : List Act) :
    Mailbox.posts (acts.filterMap (mailboxEvent p)) = samples p acts := by
  rw [Mailbox.posts, List.filterMap_filterMap, samples]
  refine List.filterMap_congr fun act _ => ?_
  cases act with
  | timer env =>
      rw [mailboxEvent]
      cases sampled p (.timer env) <;> rfl
  | waitForInput env =>
      rw [mailboxEvent]
      cases sampled p (.waitForInput env) <;> rfl
  | getState => rfl
  | reset => rfl
  | resume => rfl

/-- What is a post is a sample. -/
theorem sampled_of_post {act : Act} {a b : UInt64} (h : mailboxEvent p act = some (.post a b)) :
    sampled p act ≠ none := by
  intro hnone
  cases act with
  | timer env =>
      rw [mailboxEvent, hnone] at h
      cases h
  | waitForInput env =>
      rw [mailboxEvent, hnone] at h
      cases h
  | _ => cases h

/-- Where no sample tears a state, no post disturbs the mailbox. -/
theorem Untorn.undisturbed {acts : List Act} (h : Untorn p acts) :
    Mailbox.Undisturbed emptyBox (acts.filterMap (mailboxEvent p)) := by
  intro before a b after heq x hreader
  obtain ⟨before', rest, rfl, rfl, hrest⟩ := List.filterMap_eq_append_iff.mp heq
  obtain ⟨skipped, act, after', rfl, hskipped, hact, -⟩ := List.filterMap_eq_cons_iff.mp hrest
  have hbefore : (before' ++ skipped).filterMap (mailboxEvent p) =
      before'.filterMap (mailboxEvent p) := by
    rw [List.filterMap_append, List.filterMap_eq_nil_iff.mpr hskipped, List.append_nil]
  have hmatches := (matches_start p).run (before' ++ skipped)
  rw [hbefore] at hmatches
  have hposition : ((Shared.start p).run (before' ++ skipped)).position = .currentX x := by
    have hr := hmatches.reader.symm.trans hreader
    cases hp : ((Shared.start p).run (before' ++ skipped)).position with
    | currentX y =>
        rw [hp] at hr
        cases hr
        rfl
    | _ =>
        rw [hp] at hr
        cases hr
  exact h (before' ++ skipped) act after' (List.append_assoc ..).symm (sampled_of_post hact) x
    hposition

/-- What `AbsPGetState` returns once the event is signalled. -/
theorem getState_of_signal {acts : List Act} {env : PollEnv}
    (hposition : ((Shared.start p).run acts).position = .outside)
    (hsignal : (absPWaitForInput env ((Shared.start p).run acts).pointer).1 = true) :
    ∃ r, (samples p (acts ++ [.waitForInput env])).getLast? = some r ∧
      (absPGetState (absPWaitForInput env ((Shared.start p).run acts).pointer).2).1 =
        .ok (pointerState r) := by
  have hmatches := (matches_start p).run (acts ++ [.waitForInput env])
  have hrun : (Shared.start p).run (acts ++ [.waitForInput env]) =
      ((Shared.start p).run acts).step (.waitForInput env) := List.foldl_concat ..
  rw [hrun] at hmatches
  have hlast := Mailbox.last_of_full emptyBox_idle
    (hmatches.reader.trans (congrArg Position.reader hposition)) (hmatches.full.trans hsignal)
  rw [posts_mailboxEvents, hmatches.first, hmatches.second] at hlast
  refine ⟨_, hlast, ?_⟩
  have hchanged : (absPWaitForInput env ((Shared.start p).run acts).pointer).2.stateChanged =
      true := hsignal
  rw [absPGetState, hchanged]
  rfl

/-- **Which samples are reported.** However polls, calls of `AbsPWaitForInput` and the statements
of `AbsPGetState` and `AbsPReset` interleave, the states reported are drawn in order from
stretches of the samples that do not overlap, with the second coordinate from the same sample as
the first or from a later one. If no poll reads a touch between the two coordinates, they are
samples, each at most once and in order. Once the event is signalled outside of a call,
`AbsPGetState` returns the last sample. -/
theorem reports_drawn (p : Pointer) (acts : List Act) :
    (∃ received, ((Shared.start p).run acts).reported = received.map pointerState ∧
      Mailbox.Draws False (samples p acts) received ∧
      (Untorn p acts → received.Sublist (samples p acts))) ∧
    (((Shared.start p).run acts).position = .outside → ∀ env,
      (absPWaitForInput env ((Shared.start p).run acts).pointer).1 = true →
      ∃ r, (samples p (acts ++ [.waitForInput env])).getLast? = some r ∧
        (absPGetState (absPWaitForInput env ((Shared.start p).run acts).pointer).2).1 =
          .ok (pointerState r)) := by
  have hmatches := (matches_start p).run acts
  have hdraws := Mailbox.run_draws emptyBox_idle (acts.filterMap (mailboxEvent p))
  rw [posts_mailboxEvents] at hdraws
  refine ⟨⟨_, hmatches.reported, hdraws, fun huntorn => ?_⟩,
    fun hposition env => getState_of_signal hposition⟩
  have hsub := Mailbox.received_sublist emptyBox_idle huntorn.undisturbed
  rwa [posts_mailboxEvents] at hsub

/-- A poll that reads a touch in the first 256 rows and columns. -/
def touchAt (x y : UInt8) : PollEnv := ⟨true, some #v[1, x, 0, y, 0, 0, 0, 0]⟩

/-- A state between two samples, neither of which it is. -/
example : ((Shared.start (pointerWith 0 1079 0 1919 false)).run
    [.timer (touchAt 10 20), .getState, .resume, .timer (touchAt 30 40), .resume,
      .resume]).reported = [pointerState (10, 40)] := by
  rfl

end Touch

end Msm8998
