import Msm8998.ConsoleSafety

/-!
# The Interrupt Discipline of the Console

`SerialPortWrite` and `SerialPortWriteCritical` mean to keep interrupts disabled while
they paint a buffer, and to leave them as they found them. A line feed breaks this: it
jumps to the label `newline` past the declaration of `intstate`, and the code there
enables interrupts if the unset variable happens to be nonzero.

## Main results

* `disciplined_iff`: after initialization, a buffer is painted with the interrupt
  discipline, whatever the unset variable holds and whatever the interrupt state on entry,
  exactly when it has no line feed, and no visible character on a grid that is too small
  for `goto paint` to end.
-/

namespace Msm8998

/-- **The interrupt discipline** of a call: it returns; it disables interrupts first and
enables them only as its last step, if they were enabled on entry; and it leaves the
interrupt state as it found it. -/
def Disciplined (fb : FrameBuffer) (junk : ℕ → Bool) (call : Call) (st : FbCon) : Prop :=
  ∃ fuel st', runCall fb junk fuel st call = some st' ∧ st'.interrupts = st.interrupts ∧
    ∃ painted, .enableInterrupts ∉ painted ∧
      st'.trace = st.trace ++ .disableInterrupts :: painted ++
        (if st.interrupts then [.enableInterrupts] else [])

variable {fb : FrameBuffer} {junk : ℕ → Bool} {c : UInt8} {st st' : FbCon} {fuel : ℕ}

/-! ### Runs that return -/

/-- Whatever the `goto paint` loop returns is a painting. -/
theorem paintLoop_painting (hst : Ready fb st)
    (h : paintLoop fb junk c .common scaleFactor fuel st = some st') : Painting fb c st st' := by
  induction fuel generalizing st with
  | zero => exact absurd h (by simp [paintLoop])
  | succ fuel ih =>
      have hspec := @paintPass_spec fb junk c st hst
      rw [paintLoop] at h
      generalize paintPass fb junk c .common scaleFactor st = r at hspec h
      cases hspec with
      | done painting =>
          obtain rfl := Option.some.inj h
          exact painting
      | again painting home full => exact painting.trans (ih painting.ready h)

/-- The invariant of a console between calls. -/
structure Steady (fb : FrameBuffer) (st : FbCon) : Prop where
  ready : Ready fb st
  initialized : st.initialized = true

/-- Whatever putting a character returns is a painting, on an initialized console. -/
theorem fbConPutCharWithFactor_painting (hst : Steady fb st)
    (h : fbConPutCharWithFactor fb junk fuel c .common scaleFactor st = some st') :
    Painting fb c st st' ∧ Steady fb st' := by
  rw [fbConPutCharWithFactor, if_pos hst.initialized] at h
  have hpaint := paintLoop_painting hst.ready h
  exact ⟨hpaint, hpaint.ready, hpaint.initialized.trans hst.initialized⟩

/-- A buffer is painted on an initialized console. -/
theorem writeBytes_steady {buffer : List UInt8} :
    ∀ {st : FbCon}, Steady fb st → writeBytes fb junk fuel buffer st = some st' →
      Steady fb st' ∧ st'.color = st.color ∧ ∃ new, st'.trace = st.trace ++ new := by
  induction buffer with
  | nil =>
      intro st hst h
      obtain rfl := Option.some.inj h
      exact ⟨hst, rfl, [], (List.append_nil _).symm⟩
  | cons c buffer ih =>
      intro st hst h
      obtain ⟨st₁, hput, hrest⟩ := Option.bind_eq_some_iff.mp h
      obtain ⟨hpaint, hst₁⟩ := fbConPutCharWithFactor_painting hst hput
      obtain ⟨hst', hcolor, new, hnew⟩ := ih hst₁ hrest
      obtain ⟨new₁, hnew₁, -⟩ := hpaint.trace
      refine ⟨hst', hcolor.trans hpaint.color, new₁ ++ new, ?_⟩
      rw [hnew, hnew₁, List.append_assoc]

/-- The state in which a write call paints its buffer. -/
def paintingState (call : Call) (st : FbCon) : FbCon :=
  match call with
  | .writeCritical _ =>
      { armDisableInterrupts st with color := ⟨fbBgra8888Yellow, st.color.background⟩ }
  | _ => armDisableInterrupts st

/-- A write call is one of the two that paint the buffer. -/
def Writes (call : Call) (buffer : List UInt8) : Prop :=
  call = .write buffer ∨ call = .writeCritical buffer

/-- A write call paints its buffer with interrupts disabled, and then restores the color and
the interrupt state. -/
theorem runCall_write {call : Call} {buffer : List UInt8} (hcall : Writes call buffer) :
    (∀ st, writeBytes fb junk fuel buffer (paintingState call st) = none →
        runCall fb junk fuel st call = none) ∧
      ∀ st t, writeBytes fb junk fuel buffer (paintingState call st) = some t →
        ∃ color, runCall fb junk fuel st call =
          some (restoreInterrupts st.interrupts { t with color := color }) := by
  rcases hcall with rfl | rfl
  · refine ⟨fun st h => ?_, fun st t h => ⟨t.color, ?_⟩⟩
    · have hrun : writeBytes fb junk fuel buffer (armDisableInterrupts st) = none := h
      rw [runCall, serialPortWrite, hrun]
      rfl
    · have hrun : writeBytes fb junk fuel buffer (armDisableInterrupts st) = some t := h
      rw [runCall, serialPortWrite, hrun]
      rfl
  · refine ⟨fun st h => ?_, fun st t h => ⟨⟨st.color.foreground, t.color.background⟩, ?_⟩⟩
    · have hrun : writeBytes fb junk fuel buffer { armDisableInterrupts st with
          color := ⟨fbBgra8888Yellow, (armDisableInterrupts st).color.background⟩ } = none := h
      rw [runCall, serialPortWriteCritical]
      dsimp only
      rw [hrun]
      rfl
    · have hrun : writeBytes fb junk fuel buffer { armDisableInterrupts st with
          color := ⟨fbBgra8888Yellow, (armDisableInterrupts st).color.background⟩ } = some t := h
      rw [runCall, serialPortWriteCritical]
      dsimp only
      rw [hrun]
      rfl

/-- Painting starts from a steady state with interrupts disabled. -/
theorem paintingState_spec (hst : Steady fb st) (call : Call) (entry : Bool) :
    Steady fb (paintingState call { st with interrupts := entry }) ∧
      (paintingState call { st with interrupts := entry }).interrupts = false ∧
      (paintingState call { st with interrupts := entry }).trace =
        st.trace ++ [.disableInterrupts] := by
  have hready := hst.ready
  cases call with
  | init => exact ⟨⟨⟨hready.maxPosition, hready.onGrid⟩, hst.initialized⟩, rfl, rfl⟩
  | write buffer => exact ⟨⟨⟨hready.maxPosition, hready.onGrid⟩, hst.initialized⟩, rfl, rfl⟩
  | writeCritical buffer =>
      exact ⟨⟨⟨hready.maxPosition, hready.onGrid⟩, hst.initialized⟩, rfl, rfl⟩

/-- Before initialization nothing is painted. -/
theorem writeBytes_uninitialized {buffer : List UInt8} (h : st.initialized = false) :
    writeBytes fb junk fuel buffer st = some st := by
  induction buffer with
  | nil => rfl
  | cons c buffer ih =>
      have hput : fbConPutCharWithFactor fb junk fuel c .common scaleFactor st = some st := by
        rw [fbConPutCharWithFactor, h]
        rfl
      rw [writeBytes, hput, Option.bind_some, ih]

/-- A call that returns leaves an initialized console ready. -/
theorem runCall_ready {call : Call} (hready : st.initialized = true → Ready fb st)
    (h : runCall fb junk fuel st call = some st') (hinit : st'.initialized = true) :
    Ready fb st' := by
  have hwrite : ∀ buffer, Writes call buffer → Ready fb st' := by
    intro buffer hcall
    have hrestore : ∀ {t : FbCon} {color : FbconColor}, Ready fb t →
        Ready fb (restoreInterrupts st.interrupts { t with color := color }) := by
      intro t color ht
      refine ⟨?_, ?_⟩
      · rw [restoreInterrupts_maxPosition]
        exact ht.maxPosition
      · rw [restoreInterrupts_position]
        exact ht.onGrid
    obtain ⟨hnone, hsome⟩ := @runCall_write fb junk fuel call buffer hcall
    cases hpainted : writeBytes fb junk fuel buffer (paintingState call st) with
    | none =>
        rw [hnone st hpainted] at h
        exact absurd h (by simp)
    | some t =>
        obtain ⟨color, hrun⟩ := hsome st t hpainted
        rw [hrun] at h
        obtain rfl := Option.some.inj h
        rw [restoreInterrupts_initialized] at hinit
        cases hst : st.initialized with
        | true =>
            have hsteady := (paintingState_spec ⟨hready hst, hst⟩ call st.interrupts).1
            exact hrestore (writeBytes_steady hsteady hpainted).1.ready
        | false =>
            have hoff : (paintingState call st).initialized = false := by
              rcases hcall with rfl | rfl
              · exact hst
              · exact hst
            rw [writeBytes_uninitialized hoff] at hpainted
            obtain rfl := Option.some.inj hpainted
            rw [hoff] at hinit
            exact absurd hinit (by simp)
  cases call with
  | init =>
      obtain rfl := Option.some.inj h
      rw [serialPortInitialize] at hinit ⊢
      split
      · rename_i hst
        exact hready hst
      · refine ⟨?_, ?_⟩
        · rw [restoreInterrupts_maxPosition]
          rfl
        · rw [restoreInterrupts_position]
          exact onGrid_home fb
  | write buffer => exact hwrite buffer (Or.inl rfl)
  | writeCritical buffer => exact hwrite buffer (Or.inr rfl)

/-- Once initialized, the console is steady after every sequence of calls that returns. -/
theorem runCalls_steady {calls : List Call} {interrupts : Bool}
    (hrun : runCalls fb junk fuel calls (powerOn interrupts) = some st)
    (hinit : st.initialized = true) : Steady fb st := by
  have hrest : ∀ {s : FbCon}, (s.initialized = true → Ready fb s) →
      runCalls fb junk fuel calls s = some st → Ready fb st := by
    clear hrun
    induction calls with
    | nil =>
        intro s hs h
        obtain rfl := Option.some.inj h
        exact hs hinit
    | cons call calls ih =>
        intro s hs h
        obtain ⟨s₁, hcall, hrest⟩ := Option.bind_eq_some_iff.mp h
        exact ih (runCall_ready hs hcall) hrest
  exact ⟨hrest (fun h => absurd h (by simp [powerOn])) hrun, hinit⟩

/-! ### Buffers that keep the discipline -/

/-- A character that leaves interrupts alone and returns, on the grid of the framebuffer. -/
def Quiet (fb : FrameBuffer) (c : UInt8) : Prop :=
  c.toNat ≠ 10 ∧ (Cramped fb → ¬ (33 ≤ c.toNat ∧ c.toNat ≤ 127))

instance (fb : FrameBuffer) (c : UInt8) : Decidable (Quiet fb c) :=
  inferInstanceAs (Decidable (_ ∧ _))

/-- The framebuffers with a cramped grid. -/
theorem cramped_iff : Cramped fb ↔ fb.width < 24 ∧ 1 ≤ fb.height ∧ fb.height ≤ 60 := by
  have hlt := fb.height_lt
  have hcols : columns fb = fb.width / 6 / 2 := rfl
  have hrows : textRows fb = sub64 fb.height 1 / 12 := rfl
  rw [Cramped, hcols, hrows, sub64]
  omega

/-- On a cramped grid the cursor is always in the first column. -/
theorem Ready.x_eq_zero (h : Ready fb st) (hcramped : Cramped fb) : st.position.x = 0 := by
  have hcols := hcramped.1
  have hx := h.onGrid.x_nonneg
  rcases h.onGrid.x_lt with hlt | hzero
  · omega
  · exact hzero

/-- Putting a quiet character returns. -/
theorem fbConPutCharWithFactor_quiet (hst : Steady fb st) (hc : Quiet fb c) : ∃ st',
    fbConPutCharWithFactor fb junk 2 c .common scaleFactor st = some st' := by
  rw [fbConPutCharWithFactor, if_pos hst.initialized]
  by_cases hcramped : Cramped fb
  · have hhidden : ¬ Visible c st := by
      rintro ⟨hlo, hhi, hspace⟩
      have hx := hst.ready.x_eq_zero hcramped
      have h33 : ¬ (33 ≤ c.toNat ∧ c.toNat ≤ 127) := hc.2 hcramped
      exact hspace ⟨hx, by omega⟩
    obtain ⟨x, -, hpass⟩ := @paintPass_ignored fb junk c st hhidden hc.1
    rw [paintLoop, hpass]
    exact ⟨_, rfl⟩
  · obtain ⟨st', hloop, -⟩ := @paintLoop_spec fb junk c st hst.ready (Or.inr ⟨hcramped, hc.1⟩) 0
    exact ⟨st', hloop⟩

/-- **Quiet buffers** are painted without enabling interrupts. -/
theorem writeBytes_quiet {buffer : List UInt8} (hbuffer : ∀ c ∈ buffer, Quiet fb c)
    (hst : Steady fb st) (hoff : st.interrupts = false) : ∃ st',
      writeBytes fb junk 2 buffer st = some st' ∧ st'.interrupts = false ∧
        Extends (· ≠ .enableInterrupts) st.trace st'.trace := by
  obtain ⟨st', hrun, -, hoff', htrace⟩ := @writeBytes_invariant fb junk
    (fun s => Steady fb s ∧ s.interrupts = false ∧
      Extends (· ≠ .enableInterrupts) st.trace s.trace) 2 buffer st (by
    rintro c hc s ⟨hs, hsoff, htrace⟩
    obtain ⟨s', hput⟩ := @fbConPutCharWithFactor_quiet fb junk c s hs (hbuffer c hc)
    obtain ⟨hpaint, hs'⟩ := fbConPutCharWithFactor_painting hs hput
    refine ⟨s', hput, hs', (hpaint.interrupts (hbuffer c hc).1).trans hsoff, ?_⟩
    refine htrace.trans (hpaint.trace.mono fun e he => ?_)
    rcases he with he | ⟨-, h10 | hon⟩
    · exact he.ne_enable
    · exact absurd h10 (hbuffer c hc).1
    · rw [hsoff] at hon
      exact absurd hon (by simp)) ⟨hst, hoff, Extends.refl _ _⟩
  exact ⟨st', hrun, hoff', htrace⟩

/-! ### Buffers that break it -/

/-- The newline code with the unset variable nonzero enables interrupts. -/
theorem newline_enables (st : FbCon) :
    ∃ s new, (newline fb true scaleFactor st = .done s ∨ newline fb true scaleFactor st = .again s) ∧
      s.trace = st.trace ++ new ∧ .enableInterrupts ∈ new := by
  rw [newline]
  dsimp only
  split
  · obtain ⟨new, hnew, -⟩ := resetFb_extends fb st.trace
    refine ⟨_, new ++ [.enableInterrupts], Or.inr rfl, ?_, by simp⟩
    rw [← List.append_assoc, ← hnew]
    rfl
  · exact ⟨_, [.enableInterrupts], Or.inl rfl, rfl, by simp⟩

/-- A line feed enables interrupts when the unset variable is nonzero. -/
theorem fbConPutCharWithFactor_lineFeed (hst : Steady fb st) (hc : c.toNat = 10)
    (h : fbConPutCharWithFactor fb (fun _ => true) fuel c .common scaleFactor st = some st') :
    ∃ new, st'.trace = st.trace ++ new ∧ .enableInterrupts ∈ new := by
  rw [fbConPutCharWithFactor, if_pos hst.initialized] at h
  cases fuel with
  | zero => exact absurd h (by simp [paintLoop])
  | succ fuel =>
      have hspec := @paintPass_spec fb (fun _ => true) c st hst.ready
      rw [paintLoop] at h
      rw [paintPass_lineFeed hc] at h hspec
      obtain ⟨s, new, hs, htrace, hmem⟩ :=
        @newline_enables fb { st with junkReads := st.junkReads + 1 }
      rcases hs with hs | hs
      · rw [hs] at h
        obtain rfl := Option.some.inj h
        exact ⟨new, htrace, hmem⟩
      · rw [hs] at h hspec
        cases hspec with
        | again painting home full =>
            obtain ⟨new', hnew', -⟩ := (paintLoop_painting painting.ready h).trace
            refine ⟨new ++ new', ?_, List.mem_append_left new' hmem⟩
            rw [hnew', htrace, List.append_assoc]

/-- A buffer with a line feed enables interrupts when the unset variable is nonzero. -/
theorem writeBytes_lineFeed {buffer : List UInt8} {b : UInt8} (hb : b ∈ buffer)
    (hb10 : b.toNat = 10) :
    ∀ {st : FbCon}, Steady fb st → writeBytes fb (fun _ => true) fuel buffer st = some st' →
      ∃ new, st'.trace = st.trace ++ new ∧ .enableInterrupts ∈ new := by
  induction buffer with
  | nil => exact absurd hb List.not_mem_nil
  | cons c buffer ih =>
      intro st hst h
      obtain ⟨st₁, hput, hrest⟩ := Option.bind_eq_some_iff.mp h
      obtain ⟨hpaint, hst₁⟩ := fbConPutCharWithFactor_painting hst hput
      by_cases hc : c.toNat = 10
      · obtain ⟨new, hnew, hmem⟩ := fbConPutCharWithFactor_lineFeed hst hc hput
        obtain ⟨-, -, new', hnew'⟩ := writeBytes_steady hst₁ hrest
        refine ⟨new ++ new', ?_, List.mem_append_left new' hmem⟩
        rw [hnew', hnew, List.append_assoc]
      · have hmem : b ∈ buffer := by
          rcases List.mem_cons.mp hb with rfl | hmem
          · exact absurd hb10 hc
          · exact hmem
        obtain ⟨new, hnew, henable⟩ := ih hmem hst₁ hrest
        obtain ⟨new₁, hnew₁, -⟩ := hpaint.trace
        refine ⟨new₁ ++ new, ?_, List.mem_append_right new₁ henable⟩
        rw [hnew, hnew₁, List.append_assoc]

/-- On a cramped grid a visible character uses up the page in every pass. -/
theorem paintLoop_cramped (hcramped : Cramped fb) (hlo : 33 ≤ c.toNat) (hhi : c.toNat ≤ 127) :
    ∀ {st : FbCon}, Ready fb st → paintLoop fb junk c .common scaleFactor fuel st = none := by
  induction fuel with
  | zero => exact fun _ => rfl
  | succ fuel ih =>
      intro st hst
      have hvis : Visible c st := ⟨by omega, hhi, fun h => by omega⟩
      have hspec := @paintPass_spec fb junk c st hst
      have hrow : (drawn fb c st).position.x ≥ (drawn fb c st).maxPosition.x / (scaleFactor : ℤ) := by
        have hmax : (drawn fb c st).maxPosition.x / (scaleFactor : ℤ) = columns fb := by
          show st.maxPosition.x / (scaleFactor : ℤ) = columns fb
          rw [hst.maxPosition]
          rfl
        have hpos : (drawn fb c st).position.x = st.position.x + 1 := rfl
        have hx := hst.onGrid.x_nonneg
        have hcols := hcramped.1
        rw [hmax, hpos]
        omega
      have hpage : (drawn fb c st).position.y + (scaleFactor : ℤ) ≥
          (drawn fb c st).maxPosition.y - (scaleFactor : ℤ) := by
        have hmax : (drawn fb c st).maxPosition.y = textRows fb := by
          show st.maxPosition.y = textRows fb
          rw [hst.maxPosition]
          rfl
        have hpos : (drawn fb c st).position.y = st.position.y := rfl
        have hy := hst.onGrid.y_nonneg
        have hrows := hcramped.2
        have hscale : (scaleFactor : ℤ) = 2 := rfl
        rw [hmax, hpos, hscale]
        omega
      rw [paintLoop]
      rw [paintPass_visible hvis, if_pos hrow, newline] at hspec ⊢
      dsimp only at hspec ⊢
      rw [if_pos hpage] at hspec ⊢
      cases hspec with
      | again painting home full => exact ih painting.ready

/-- On a cramped grid no buffer with a visible character is ever painted. -/
theorem writeBytes_cramped {buffer : List UInt8} {b : UInt8} (hcramped : Cramped fb)
    (hb : b ∈ buffer) (hlo : 33 ≤ b.toNat) (hhi : b.toNat ≤ 127) :
    ∀ {st : FbCon}, Steady fb st → writeBytes fb junk fuel buffer st = none := by
  induction buffer with
  | nil => exact absurd hb List.not_mem_nil
  | cons c buffer ih =>
      intro st hst
      rw [writeBytes]
      cases hput : fbConPutCharWithFactor fb junk fuel c .common scaleFactor st with
      | none => rfl
      | some st₁ =>
          rcases List.mem_cons.mp hb with rfl | hmem
          · rw [fbConPutCharWithFactor, if_pos hst.initialized,
              paintLoop_cramped hcramped hlo hhi hst.ready] at hput
            exact absurd hput (by simp)
          · exact ih hmem (fbConPutCharWithFactor_painting hst hput).2

/-! ### The discipline -/

/-- **When the console keeps the interrupt discipline.** From every state that calls after
power on lead to and in which the console is initialized, a write call on a buffer keeps
the discipline for every content of the unset variable and every interrupt state on entry
exactly when every character of the buffer is quiet. -/
theorem disciplined_iff {calls : List Call} {interrupts : Bool} {call : Call}
    {buffer : List UInt8} (hrun : runCalls fb junk fuel calls (powerOn interrupts) = some st)
    (hinit : st.initialized = true) (hcall : Writes call buffer) :
    (∀ junk' entry, Disciplined fb junk' call { st with interrupts := entry }) ↔
      ∀ c ∈ buffer, Quiet fb c := by
  have hst := runCalls_steady hrun hinit
  constructor
  · intro hdisc c hc
    obtain ⟨fuel', st', hreturn, -, painted, hpainted, htrace⟩ := hdisc (fun _ => true) false
    obtain ⟨hsteady, -, hstart⟩ := paintingState_spec hst call false
    obtain ⟨hnone, hsome⟩ := @runCall_write fb (fun _ => true) fuel' call buffer hcall
    cases hwrite : writeBytes fb (fun _ => true) fuel' buffer
        (paintingState call { st with interrupts := false }) with
    | none =>
        rw [hnone _ hwrite] at hreturn
        exact absurd hreturn (by simp)
    | some t =>
        obtain ⟨color, hrun'⟩ := hsome _ t hwrite
        rw [hrun'] at hreturn
        obtain rfl := Option.some.inj hreturn
        refine ⟨fun h10 => ?_, fun hcramped hvisible => ?_⟩
        · obtain ⟨new, hnew, henable⟩ := writeBytes_lineFeed hc h10 hsteady hwrite
          have htrace' : t.trace = st.trace ++ .disableInterrupts :: painted := by
            rw [← List.append_nil (st.trace ++ _)]
            exact htrace
          rw [hnew, hstart, List.append_assoc] at htrace'
          have hsame := List.append_cancel_left htrace'
          rw [List.singleton_append, List.cons.injEq] at hsame
          exact hpainted (hsame.2 ▸ henable)
        · rw [writeBytes_cramped hcramped hc hvisible.1 hvisible.2 hsteady] at hwrite
          exact absurd hwrite (by simp)
  · intro hquiet junk' entry
    obtain ⟨hsteady, hoff, hstart⟩ := paintingState_spec hst call entry
    obtain ⟨t, hwrite, htoff, painted, hpainted, hnot⟩ :=
      @writeBytes_quiet fb junk' _ buffer hquiet hsteady hoff
    obtain ⟨color, hrun'⟩ := (@runCall_write fb junk' 2 call buffer hcall).2 _ t hwrite
    refine ⟨2, _, hrun', ?_, painted, fun hmem => hnot _ hmem rfl, ?_⟩
    · rw [restoreInterrupts_interrupts]
      show (entry || t.interrupts) = entry
      rw [htoff, Bool.or_false]
    · have htrace : t.trace = st.trace ++ .disableInterrupts :: painted := by
        rw [hpainted, hstart, List.append_assoc, List.singleton_append]
      cases entry with
      | false => exact htrace.trans (List.append_nil _).symm
      | true =>
          show t.trace ++ [.enableInterrupts] = _
          rw [htrace]
          rfl

/-- The grid of the Nokia 8 is not cramped. -/
theorem nb1_not_cramped : ¬ Cramped nb1FrameBuffer := by
  rw [cramped_iff]
  exact fun h => absurd h.1 (by decide)

/-- A greeting without a line feed keeps the discipline on the Nokia 8. -/
theorem greeting_disciplined :
    Disciplined nb1FrameBuffer (fun _ => true) (.write [72, 105])
      { serialPortInitialize nb1FrameBuffer (powerOn true) with interrupts := false } :=
  (@disciplined_iff nb1FrameBuffer (fun _ => true) _ 2 [.init] true _ _ rfl rfl
    (Or.inl rfl)).mpr (by simp [Quiet, nb1_not_cramped]) (fun _ => true) false

/-- A single line feed on the Nokia 8, with interrupts disabled on entry and the unset
variable nonzero: the call returns with interrupts enabled. -/
theorem lineFeed_undisciplined :
    (∃ st', runCall nb1FrameBuffer (fun _ => true) 2
        (serialPortInitialize nb1FrameBuffer (powerOn false)) (.write [10]) = some st' ∧
      st'.interrupts = true) ∧
      (serialPortInitialize nb1FrameBuffer (powerOn false)).interrupts = false ∧
      ¬ Disciplined nb1FrameBuffer (fun _ => true) (.write [10])
        (serialPortInitialize nb1FrameBuffer (powerOn false)) := by
  refine ⟨⟨_, rfl, rfl⟩, rfl, ?_⟩
  rintro ⟨fuel, st', hrun, hsame, -⟩
  cases fuel with
  | zero =>
      have hnone : runCall nb1FrameBuffer (fun _ => true) 0
          (serialPortInitialize nb1FrameBuffer (powerOn false)) (.write [10]) = none := rfl
      rw [hnone] at hrun
      exact absurd hrun (by simp)
  | succ fuel =>
      obtain rfl := Option.some.inj hrun
      exact absurd hsame (by decide)

end Msm8998
