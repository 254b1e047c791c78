import Msm8998.ConsoleGlyph
import Msm8998.Terminal
import Mathlib.Data.List.Induction

/-!
# The Console as a Terminal

`FbConPutCharWithFactor` handles a byte that uses up the page a second time: the code behind
the page clear jumps back to the label `paint` with the same byte. So the console is a
page-clearing terminal that repaints such a byte on the blank page, which is the reference
terminal for a space and no other byte.

A cell of the terminal is two text rows of the framebuffer high, and a critical message is in
yellow ink.

## Main results

* `paintPass_follows`: one pass from the label `paint` handles the byte once;
* `runCalls_shows`: after any calls the framebuffer shows the terminal that repaints;
* `runCalls_shows_reference_iff`: for which bytes it shows the reference terminal all along.
-/

namespace Msm8998

/-! ### The screen of a terminal -/

/-- The number of rows of the terminal. -/
def rows (fb : FrameBuffer) : ℕ := (textRows fb - 1) / scaleFactor

/-- The colors of a critical message and of any other. -/
def inkColor (critical : Bool) : FbconColor :=
  ⟨if critical then fbBgra8888Yellow else fbBgra8888White, fbBgra8888Black⟩

/-- The cell in a column and row of the terminal. -/
def cell (column row : ℕ) : FbconPosition := ⟨column, (scaleFactor * row : ℕ)⟩

/-- One glyph, painted after `trace`. -/
def glyphTrace (fb : FrameBuffer) (trace : List Event) (g : Glyph Bool) : List Event :=
  fbConDrawglyph (glyphAddress fb scaleFactor (cell g.column g.row)) (fb.width % 2 ^ 32)
    (fb.bpp / 8 % 2 ^ 32) ((g.char.toNat - 32) * 2) scaleFactor (inkColor g.ink) trace

/-- The painting of the whole screen. -/
def picture (fb : FrameBuffer) (t : Terminal Bool) : List Event :=
  t.glyphs.foldl (glyphTrace fb) (if t.cleared then resetFb fb [] else [])

/-- The cursor of the console and every byte of the framebuffer are those of a terminal,
whatever the framebuffer held at power on. -/
structure Shows (fb : FrameBuffer) (st : FbCon) (t : Terminal Bool) : Prop where
  position : st.position = cell t.column t.row
  screen : ∀ a, fb.base ≤ a → a < fb.base + fb.size →
    ∀ v, byteAt a st.trace v = byteAt a (picture fb t) v

/-- The console is at a terminal whose cursor may be behind the last column. -/
structure Tracks (fb : FrameBuffer) (critical : Bool) (st : FbCon) (t : Terminal Bool) :
    Prop where
  shown : Shows fb st t
  initialized : st.initialized = true
  maxPosition : st.maxPosition = maxPositionOf fb
  color : st.color = inkColor critical
  row_lt : t.row < rows fb

/-- The console is at a terminal. -/
structure Follows (fb : FrameBuffer) (critical : Bool) (st : FbCon) (t : Terminal Bool) :
    Prop extends Tracks fb critical st t where
  column_lt : t.column < columns fb

variable {fb : FrameBuffer} {junk : ℕ → Bool} {c : UInt8} {st : FbCon} {fuel : ℕ}
  {critical : Bool} {t : Terminal Bool}

/-- A roomy framebuffer is a terminal of at least two rows. -/
theorem Roomy.two_le_rows (h : Roomy fb) : 2 ≤ rows fb := by
  have hrows := h.five_le
  rw [rows, scaleFactor]
  omega

/-- It has a column. -/
theorem Roomy.columns_pos (h : Roomy fb) : 0 < columns fb := by
  have hwidth := h.width
  rw [columns, fontWidth, scaleFactor]
  omega

/-- The page is used up when the code finds it full. -/
theorem Roomy.rows_le_iff (h : Roomy fb) (row : ℕ) :
    rows fb ≤ row + 1 ↔
      ((scaleFactor * row : ℕ) : ℤ) + (scaleFactor : ℤ) ≥
        (maxPositionOf fb).y - (scaleFactor : ℤ) := by
  have hrows := h.five_le
  have hmax : (maxPositionOf fb).y = textRows fb := rfl
  rw [hmax, rows, scaleFactor]
  omega

/-! ### Events that do not paint -/

/-- Switching the interrupts stores nothing. -/
theorem byteAt_interrupts (a : ℕ) (trace : List Event) {e : Event}
    (he : e = .disableInterrupts ∨ e = .enableInterrupts) (v : ℕ) :
    byteAt a (trace ++ [e]) v = byteAt a trace v := by
  rw [byteAt_append]
  rcases he with rfl | rfl <;> rfl

/-- Disabling the interrupts does not change what is shown. -/
theorem Shows.armDisableInterrupts (h : Shows fb st t) : Shows fb (armDisableInterrupts st) t where
  position := h.position
  screen a hlo hhi v := (byteAt_interrupts a _ (.inl rfl) v).trans (h.screen a hlo hhi v)

/-- Nor does restoring them. -/
theorem Shows.restoreInterrupts (h : Shows fb st t) (i : Bool) :
    Shows fb (restoreInterrupts i st) t := by
  cases i with
  | false => exact h
  | true =>
      exact ⟨h.position, fun a hlo hhi v =>
        (byteAt_interrupts a _ (.inr rfl) v).trans (h.screen a hlo hhi v)⟩

/-- The console follows the terminal with its interrupts disabled. -/
theorem Follows.armDisableInterrupts (h : Follows fb critical st t) :
    Follows fb critical (armDisableInterrupts st) t :=
  ⟨⟨h.shown.armDisableInterrupts, h.initialized, h.maxPosition, h.color, h.row_lt⟩, h.column_lt⟩

/-- And with them restored. -/
theorem Follows.restoreInterrupts (h : Follows fb critical st t) (i : Bool) :
    Follows fb critical (restoreInterrupts i st) t :=
  ⟨⟨h.shown.restoreInterrupts i, by simpa using h.initialized, by simpa using h.maxPosition,
    by simpa using h.color, h.row_lt⟩, h.column_lt⟩

/-- Another color for the next bytes. -/
theorem Follows.withColor (h : Follows fb critical st t) (critical' : Bool) :
    Follows fb critical' { st with color := inkColor critical' } t :=
  ⟨⟨⟨h.shown.position, h.shown.screen⟩, h.initialized, h.maxPosition, rfl, h.row_lt⟩, h.column_lt⟩

/-! ### One pass -/

/-- The code from the label `newline` on. -/
theorem Tracks.newline (hroomy : Roomy fb) (h : Tracks fb critical st t) (i : Bool) :
    ∃ st', Follows fb critical st' (t.nextRow (rows fb)) ∧
      newline fb i scaleFactor st =
        if rows fb ≤ t.row + 1 then .again st' else .done st' := by
  have hy : st.position.y = ((scaleFactor * t.row : ℕ) : ℤ) := by rw [h.shown.position, cell]
  have hfull : st.position.y + (scaleFactor : ℤ) ≥ st.maxPosition.y - (scaleFactor : ℤ) ↔
      rows fb ≤ t.row + 1 := by
    rw [hy, h.maxPosition]
    exact (hroomy.rows_le_iff t.row).symm
  have hrow := Terminal.nextRow_row_lt (t := t) (Nat.zero_lt_of_lt hroomy.two_le_rows)
  rw [Msm8998.newline]
  dsimp only
  by_cases hrows : rows fb ≤ t.row + 1
  · rw [Terminal.nextRow_of_le hrows] at hrow ⊢
    have hblank : Shows fb { st with trace := resetFb fb st.trace, position := ⟨0, 0⟩ }
        Terminal.page := by
      refine ⟨rfl, fun a hlo hhi v => ?_⟩
      change byteAt a (resetFb fb st.trace) v = byteAt a (resetFb fb []) v
      rw [resetFb_contents, resetFb_contents, if_pos ⟨hlo, hhi⟩, if_pos ⟨hlo, hhi⟩]
    have hpage : Follows fb critical
        { st with trace := resetFb fb st.trace, position := ⟨0, 0⟩ } Terminal.page :=
      ⟨⟨hblank, h.initialized, h.maxPosition, h.color, hrow⟩, hroomy.columns_pos⟩
    refine ⟨_, hpage.restoreInterrupts i, ?_⟩
    rw [if_pos (hfull.mpr hrows), if_pos hrows]
  · have hnext : t.nextRow (rows fb) = { t with column := 0, row := t.row + 1 } :=
      if_pos (Nat.lt_of_not_le hrows)
    rw [hnext] at hrow ⊢
    have hposition : (⟨0, st.position.y + (scaleFactor : ℤ)⟩ : FbconPosition) =
        cell 0 (t.row + 1) := by
      rw [hy, cell, Nat.mul_succ, Nat.cast_add]
      rfl
    have hbelow : Follows fb critical
        { st with position := ⟨0, st.position.y + (scaleFactor : ℤ)⟩ }
        { t with column := 0, row := t.row + 1 } :=
      ⟨⟨⟨hposition, h.shown.screen⟩, h.initialized, h.maxPosition, h.color, hrow⟩,
        hroomy.columns_pos⟩
    refine ⟨_, hbelow.restoreInterrupts i, ?_⟩
    rw [if_neg fun hge => hrows (hfull.mp hge), if_neg hrows]

/-- A glyph drawn at the cursor. -/
theorem Follows.drawn (h : Follows fb critical st t) (c : UInt8) :
    Tracks fb critical (drawn fb c st) (t.draw critical c) where
  shown := by
    refine ⟨?_, fun a hlo hhi v => ?_⟩
    · have hx : st.position.x = t.column := by rw [h.shown.position, cell]
      have hy : st.position.y = ((scaleFactor * t.row : ℕ) : ℤ) := by rw [h.shown.position, cell]
      show (⟨st.position.x + 1, st.position.y⟩ : FbconPosition) = cell (t.column + 1) t.row
      rw [hx, hy, cell, Nat.cast_add]
      rfl
    · have hpicture : picture fb (t.draw critical c) =
          glyphTrace fb (picture fb t) ⟨t.column, t.row, c, critical⟩ :=
        List.foldl_concat _ _ _ _
      rw [hpicture, glyphTrace, fbConDrawglyph, Msm8998.drawn, fbConDrawglyph, h.color,
        h.shown.position]
      refine drawglyph_congr _ _ _ _ _ (by decide) _ ?_
      exact (byteAt_interrupts a _ (.inl rfl) v).trans (h.shown.screen a hlo hhi v)
  initialized := h.initialized
  maxPosition := h.maxPosition
  color := h.color
  row_lt := h.row_lt

/-- The console draws a byte just when the terminal does. -/
theorem Follows.visible_iff (h : Follows fb critical st t) (c : UInt8) :
    Visible c st ↔ t.Drawn c := by
  have hx : st.position.x = 0 ↔ t.column = 0 := by
    rw [h.shown.position, cell]
    exact Int.natCast_eq_zero
  rw [Visible, Terminal.Drawn, hx]

/-- A carriage return. -/
theorem paintPass_carriageReturn (hc : c.toNat = 13) :
    paintPass fb junk c .common scaleFactor st =
      .done { st with position := ⟨0, st.position.y⟩ } := by
  rw [paintPass, if_neg (by omega), if_pos (by omega), if_neg (by omega), if_pos hc]

/-- Any other byte that is not drawn. -/
theorem paintPass_other (h : ¬ Visible c st) (hlf : c.toNat ≠ 10) (hcr : c.toNat ≠ 13) :
    paintPass fb junk c .common scaleFactor st = .done st := by
  rw [paintPass]
  by_cases hhi : c.toNat > 127
  · rw [if_pos hhi]
  rw [if_neg hhi]
  by_cases hlo : c.toNat < 32
  · rw [if_pos hlo, if_neg hlf, if_neg hcr]
  · have hspace : st.position.x = 0 ∧ c.toNat = 32 := by
      by_contra hno
      exact h ⟨by omega, by omega, hno⟩
    rw [if_neg hlo, if_pos ⟨hspace.1, hspace.2, by decide, by decide⟩]

/-- **One pass** handles the byte once, and jumps back if it used up the page. -/
theorem paintPass_follows (junk : ℕ → Bool) (hroomy : Roomy fb)
    (h : Follows fb critical st t) (c : UInt8) :
    ∃ st', Follows fb critical st' (t.put (columns fb) (rows fb) critical c) ∧
      paintPass fb junk c .common scaleFactor st =
        if t.Fills (columns fb) (rows fb) c then .again st' else .done st' := by
  have hvisible := h.visible_iff c
  by_cases hlf : c.toNat = 10
  · have hfills : t.Fills (columns fb) (rows fb) c ↔ rows fb ≤ t.row + 1 :=
      Terminal.fills_iff (.inl hlf)
    have hcounted : Tracks fb critical { st with junkReads := st.junkReads + 1 } t :=
      ⟨⟨h.shown.position, h.shown.screen⟩, h.initialized, h.maxPosition, h.color, h.row_lt⟩
    rw [paintPass_lineFeed hlf, Terminal.put, if_pos hlf]
    simp only [hfills]
    exact hcounted.newline hroomy _
  by_cases hcr : c.toNat = 13
  · have hfills : ¬ t.Fills (columns fb) (rows fb) c := by
      refine Terminal.not_fills_of_stays hlf fun hdrawn => ?_
      have hlo := hdrawn.1
      omega
    have hy : st.position.y = ((scaleFactor * t.row : ℕ) : ℤ) := by rw [h.shown.position, cell]
    have hreturn : Follows fb critical { st with position := ⟨0, st.position.y⟩ }
        { t with column := 0 } :=
      ⟨⟨⟨by rw [hy]; rfl, h.shown.screen⟩, h.initialized, h.maxPosition, h.color, h.row_lt⟩,
        hroomy.columns_pos⟩
    rw [paintPass_carriageReturn hcr, Terminal.put, if_neg hlf, if_pos hcr]
    exact ⟨_, hreturn, (if_neg hfills).symm⟩
  by_cases hdrawn : t.Drawn c
  · have hx : (drawn fb c st).position.x = (t.column + 1 : ℕ) := by
      rw [(h.drawn c).shown.position]
      rfl
    have hmax : (drawn fb c st).maxPosition.x / (scaleFactor : ℤ) = columns fb := by
      rw [(h.drawn c).maxPosition]
      rfl
    rw [paintPass_visible (hvisible.mpr hdrawn), hx, hmax, Terminal.put, if_neg hlf, if_neg hcr,
      if_pos hdrawn]
    by_cases hcolumn : t.column + 1 < columns fb
    · have hfills : ¬ t.Fills (columns fb) (rows fb) c :=
        Terminal.not_fills_of_stays hlf fun _ => hcolumn
      have hnext : Follows fb critical (Msm8998.drawn fb c st) (t.draw critical c) :=
        ⟨h.drawn c, hcolumn⟩
      rw [if_pos hcolumn, if_neg (by omega)]
      exact ⟨_, hnext.restoreInterrupts _, (if_neg hfills).symm⟩
    · have hfills : t.Fills (columns fb) (rows fb) c ↔ rows fb ≤ t.row + 1 :=
        Terminal.fills_iff (.inr ⟨hdrawn, Nat.le_of_not_lt hcolumn⟩)
      rw [if_neg hcolumn, if_pos (by omega)]
      simp only [hfills]
      exact (h.drawn c).newline hroomy _
  · have hfills : ¬ t.Fills (columns fb) (rows fb) c :=
      Terminal.not_fills_of_stays hlf fun hdrawn' => absurd hdrawn' hdrawn
    rw [paintPass_other (fun hv => hdrawn (hvisible.mp hv)) hlf hcr, Terminal.put, if_neg hlf,
      if_neg hcr, if_neg hdrawn]
    exact ⟨st, h, (if_neg hfills).symm⟩

/-! ### One byte -/

/-- The terminal that handles a byte once more on the blank page it leaves. -/
def repaint (fb : FrameBuffer) (t : Terminal Bool) (critical : Bool) (c : UInt8) :
    Terminal Bool :=
  if t.Fills (columns fb) (rows fb) c then
    Terminal.page.put (columns fb) (rows fb) critical c
  else t.put (columns fb) (rows fb) critical c

/-- **One byte** on the console. -/
theorem fbConPutCharWithFactor_follows (junk : ℕ → Bool) (hroomy : Roomy fb) (hfuel : 2 ≤ fuel)
    (h : Follows fb critical st t) (c : UInt8) :
    ∃ st', fbConPutCharWithFactor fb junk fuel c .common scaleFactor st = some st' ∧
      Follows fb critical st' (repaint fb t critical c) := by
  obtain ⟨fuel, rfl⟩ : ∃ f, fuel = f + 2 := ⟨fuel - 2, by omega⟩
  obtain ⟨st₁, hfollows, hpass⟩ := paintPass_follows junk hroomy h c
  rw [fbConPutCharWithFactor, if_pos h.initialized, paintLoop, hpass, repaint]
  by_cases hfills : t.Fills (columns fb) (rows fb) c
  · rw [Terminal.put_of_fills hfills] at hfollows
    obtain ⟨st₂, hfollows', hpass'⟩ := paintPass_follows junk hroomy hfollows c
    rw [if_pos hfills, if_pos hfills]
    dsimp only
    rw [paintLoop, hpass', if_neg (Terminal.not_fills_page hroomy.two_le_rows)]
    exact ⟨st₂, rfl, hfollows'⟩
  · rw [if_neg hfills, if_neg hfills]
    exact ⟨st₁, rfl, hfollows⟩

/-! ### Whole runs -/

/-- The bytes that a call writes, each with whether it is part of a critical message. -/
def Call.bytes : Call → List (UInt8 × Bool)
  | .init => []
  | .write buffer => buffer.map (·, false)
  | .writeCritical buffer => buffer.map (·, true)

/-- The terminal that repaints, after a sequence of bytes. -/
def repainted (fb : FrameBuffer) (t : Terminal Bool) (bytes : List (UInt8 × Bool)) :
    Terminal Bool :=
  bytes.foldl (fun t b => repaint fb t b.2 b.1) t

/-- A buffer, byte by byte. -/
theorem writeBytes_follows (junk : ℕ → Bool) (hroomy : Roomy fb) (hfuel : 2 ≤ fuel)
    (buffer : List UInt8) (h : Follows fb critical st t) :
    ∃ st', writeBytes fb junk fuel buffer st = some st' ∧
      Follows fb critical st' (repainted fb t (buffer.map (·, critical))) := by
  induction buffer generalizing st t with
  | nil => exact ⟨st, rfl, h⟩
  | cons c buffer ih =>
      obtain ⟨st₁, hput, hfollows⟩ :=
        fbConPutCharWithFactor_follows junk hroomy hfuel h c
      obtain ⟨st₂, hrest, hfollows'⟩ := ih hfollows
      refine ⟨st₂, ?_, hfollows'⟩
      rw [writeBytes, hput, Option.bind_some, hrest]

/-- **One call.** -/
theorem runCall_follows (junk : ℕ → Bool) (hroomy : Roomy fb) (hfuel : 2 ≤ fuel) (call : Call)
    (h : Follows fb false st t) :
    ∃ st', runCall fb junk fuel st call = some st' ∧
      Follows fb false st' (repainted fb t call.bytes) := by
  cases call with
  | init =>
      refine ⟨st, ?_, h⟩
      rw [runCall, serialPortInitialize, if_pos h.initialized]
  | write buffer =>
      obtain ⟨st', hwrite, hfollows⟩ :=
        writeBytes_follows junk hroomy hfuel buffer h.armDisableInterrupts
      rw [runCall, serialPortWrite, hwrite]
      exact ⟨_, rfl, hfollows.restoreInterrupts st.interrupts⟩
  | writeCritical buffer =>
      have hyellow : (⟨fbBgra8888Yellow, (armDisableInterrupts st).color.background⟩ : FbconColor) =
          inkColor true := by
        rw [h.armDisableInterrupts.color]
        rfl
      obtain ⟨st', hwrite, hfollows⟩ := writeBytes_follows junk hroomy hfuel buffer
        (h.armDisableInterrupts.withColor true)
      have hwhite : (⟨st.color.foreground, st'.color.background⟩ : FbconColor) =
          inkColor false := by
        rw [h.color, hfollows.color]
        rfl
      rw [runCall, serialPortWriteCritical]
      dsimp only
      rw [hyellow, hwrite, Option.map_some, Option.map_some, hwhite]
      exact ⟨_, rfl, (hfollows.withColor false).restoreInterrupts st.interrupts⟩

/-- Any sequence of calls. -/
theorem runCalls_follows (junk : ℕ → Bool) (hroomy : Roomy fb) (hfuel : 2 ≤ fuel)
    (calls : List Call) (h : Follows fb false st t) :
    ∃ st', runCalls fb junk fuel calls st = some st' ∧
      Follows fb false st' (repainted fb t (calls.flatMap Call.bytes)) := by
  induction calls generalizing st t with
  | nil => exact ⟨st, rfl, h⟩
  | cons call calls ih =>
      obtain ⟨st₁, hcall, hfollows⟩ := runCall_follows junk hroomy hfuel call h
      obtain ⟨st₂, hrest, hfollows'⟩ := ih hfollows
      refine ⟨st₂, ?_, ?_⟩
      · rw [runCalls, hcall, Option.bind_some, hrest]
      · rw [List.flatMap_cons, repainted, List.foldl_append]
        exact hfollows'

/-- The console after `SerialPortInitialize`. -/
theorem serialPortInitialize_follows (hroomy : Roomy fb) (interrupts : Bool) :
    Follows fb false (serialPortInitialize fb (powerOn interrupts)) Terminal.start := by
  have hrow : 0 < rows fb := Nat.zero_lt_of_lt hroomy.two_le_rows
  have hreset : Follows fb false
      { fbConReset fb (armDisableInterrupts (powerOn interrupts)) with initialized := true }
      Terminal.start :=
    ⟨⟨⟨rfl, fun a _ _ v => byteAt_interrupts a [] (.inl rfl) v⟩, rfl, rfl, rfl, hrow⟩,
      hroomy.columns_pos⟩
  exact hreset.restoreInterrupts interrupts

/-- **The console is the terminal that repaints**, after any sequence of calls. -/
theorem runCalls_shows (junk : ℕ → Bool) (hroomy : Roomy fb) (hfuel : 2 ≤ fuel) (interrupts : Bool)
    (calls : List Call) :
    ∃ st, runCalls fb junk fuel (.init :: calls) (powerOn interrupts) = some st ∧
      Shows fb st (repainted fb Terminal.start (calls.flatMap Call.bytes)) := by
  obtain ⟨st, hrun, hfollows⟩ := runCalls_follows junk hroomy hfuel calls
    (serialPortInitialize_follows hroomy interrupts)
  exact ⟨st, hrun, hfollows.shown⟩

/-! ### Against the reference terminal -/

/-- The reference terminal, which handles every byte once. -/
def reference (fb : FrameBuffer) (bytes : List (UInt8 × Bool)) : Terminal Bool :=
  Terminal.start.run (columns fb) (rows fb) bytes

/-- No byte but a space ever uses up the page. -/
def OnlySpacesFill (fb : FrameBuffer) (bytes : List (UInt8 × Bool)) : Prop :=
  ∀ before b, before ++ [b] <+: bytes →
    (reference fb before).Fills (columns fb) (rows fb) b.1 → b.1.toNat = 32

/-- The condition holds of every beginning of the bytes. -/
theorem OnlySpacesFill.mono {bytes bytes' : List (UInt8 × Bool)} (h : OnlySpacesFill fb bytes')
    (hpart : bytes <+: bytes') : OnlySpacesFill fb bytes :=
  fun before b hb => h before b (hb.trans hpart)

/-- For a space, repainting makes no difference. -/
theorem repaint_eq_put (h : t.Fills (columns fb) (rows fb) c → c.toNat = 32) :
    repaint fb t critical c = t.put (columns fb) (rows fb) critical c := by
  rw [repaint]
  split
  · rename_i hfills
    rw [Terminal.put_of_fills hfills, Terminal.page_put_space (h hfills)]
  · rfl

/-- The repainting terminal after one more byte. -/
theorem repainted_append (t : Terminal Bool) (bytes : List (UInt8 × Bool)) (b : UInt8 × Bool) :
    repainted fb t (bytes ++ [b]) = repaint fb (repainted fb t bytes) b.2 b.1 :=
  List.foldl_concat _ _ _ _

/-- The reference terminal after one more byte. -/
theorem reference_append (bytes : List (UInt8 × Bool)) (b : UInt8 × Bool) :
    reference fb (bytes ++ [b]) = (reference fb bytes).put (columns fb) (rows fb) b.2 b.1 :=
  Terminal.run_append _ _ _

/-- Under the condition the two terminals are the same. -/
theorem OnlySpacesFill.repainted_eq {bytes : List (UInt8 × Bool)} (h : OnlySpacesFill fb bytes) :
    repainted fb Terminal.start bytes = reference fb bytes := by
  induction bytes using List.reverseRecOn with
  | nil => rw [repainted, reference, Terminal.run, List.foldl_nil, List.foldl_nil]
  | append_singleton bytes b ih =>
      rw [repainted_append, ih (h.mono (List.prefix_append _ _)), reference_append]
      exact repaint_eq_put (h bytes b (List.prefix_refl _))

/-- Calls that write the bytes one by one. -/
def oneByOne (bytes : List (UInt8 × Bool)) : List Call :=
  bytes.map fun b => if b.2 then .writeCritical [b.1] else .write [b.1]

/-- Calls for the single bytes write all of them. -/
theorem flatMap_bytes_oneByOne (bytes : List (UInt8 × Bool)) :
    (oneByOne bytes).flatMap Call.bytes = bytes := by
  induction bytes with
  | nil => rfl
  | cons b bytes ih =>
      rw [oneByOne, List.map_cons, List.flatMap_cons, ← oneByOne, ih]
      obtain ⟨c, critical⟩ := b
      cases critical <;> rfl

/-- Whatever the calls, the console shows the reference terminal as long as they write a part
of the bytes. -/
def ShowsReference (fb : FrameBuffer) (junk : ℕ → Bool) (fuel : ℕ) (interrupts : Bool)
    (bytes : List (UInt8 × Bool)) : Prop :=
  ∀ calls : List Call, calls.flatMap Call.bytes <+: bytes →
    ∃ st, runCalls fb junk fuel (.init :: calls) (powerOn interrupts) = some st ∧
      Shows fb st (reference fb (calls.flatMap Call.bytes))

/-- A byte that uses up the page and is no space leaves the cursor elsewhere. -/
theorem Shows.space {b : UInt8 × Bool} {bytes : List (UInt8 × Bool)} (hroomy : Roomy fb)
    (hfills : (reference fb bytes).Fills (columns fb) (rows fb) b.1)
    (hrepaint : Shows fb st (repaint fb (reference fb bytes) b.2 b.1))
    (hreference : Shows fb st (reference fb (bytes ++ [b]))) : b.1.toNat = 32 := by
  rw [repaint, if_pos hfills] at hrepaint
  rw [reference_append, Terminal.put_of_fills hfills] at hreference
  have hcell := hrepaint.position.symm.trans hreference.position
  rw [cell, cell, FbconPosition.mk.injEq, Int.natCast_inj, Int.natCast_inj] at hcell
  refine (Terminal.page_put_eq_iff hroomy.two_le_rows hfills).mp ⟨hcell.1, ?_⟩
  exact Nat.eq_of_mul_eq_mul_left (by decide) hcell.2

/-- What the console shows tells which bytes used up the page. -/
theorem ShowsReference.onlySpacesFill (hroomy : Roomy fb) (hfuel : 2 ≤ fuel) {interrupts : Bool}
    {bytes : List (UInt8 × Bool)} (h : ShowsReference fb junk fuel interrupts bytes) :
    OnlySpacesFill fb bytes := by
  induction bytes using List.reverseRecOn with
  | nil =>
      intro before b hb
      exact absurd (List.prefix_nil.mp hb) (by simp)
  | append_singleton bytes b ih =>
      have hbefore := ih fun calls hcalls => h calls (hcalls.trans (List.prefix_append _ _))
      intro before b' hb hfills
      rcases List.prefix_concat_iff.mp hb with heq | hb
      · -- the last byte: the same run, seen as both terminals
        obtain ⟨rfl, hlast⟩ := List.append_inj' heq rfl
        obtain rfl := List.singleton_inj.mp hlast
        have hwrites := flatMap_bytes_oneByOne (before ++ [b'])
        have hall : (oneByOne (before ++ [b'])).flatMap Call.bytes <+: before ++ [b'] :=
          ⟨[], by rw [hwrites, List.append_nil]⟩
        obtain ⟨st, hrun, hshows⟩ := h (oneByOne (before ++ [b'])) hall
        obtain ⟨st', hrun', hshows'⟩ := runCalls_shows junk hroomy hfuel interrupts
          (oneByOne (before ++ [b']))
        rw [hrun, Option.some.injEq] at hrun'
        rw [hwrites] at hshows hshows'
        rw [repainted_append, hbefore.repainted_eq, ← hrun'] at hshows'
        exact hshows'.space hroomy hfills hshows
      · exact hbefore before b' hb hfills

/-- **The console against the reference terminal.** On a framebuffer of at least 12 by 61
pixels, the console shows the reference terminal at every point of a sequence of bytes, for
any division of it into calls, exactly when no byte but a space ever uses up the page. -/
theorem runCalls_shows_reference_iff (hroomy : Roomy fb) (junk : ℕ → Bool) (hfuel : 2 ≤ fuel)
    (interrupts : Bool) (bytes : List (UInt8 × Bool)) :
    ShowsReference fb junk fuel interrupts bytes ↔ OnlySpacesFill fb bytes := by
  refine ⟨fun h => h.onlySpacesFill hroomy hfuel, fun h calls hcalls => ?_⟩
  obtain ⟨st, hrun, hshows⟩ := runCalls_shows junk hroomy hfuel interrupts calls
  rw [(h.mono hcalls).repainted_eq] at hshows
  exact ⟨st, hrun, hshows⟩

/-- A greeting on the Nokia 8. -/
theorem nb1_shows_reference_iff :
    ShowsReference nb1FrameBuffer (fun _ => true) 2 true [(72, false), (105, true), (10, true)] ↔
      OnlySpacesFill nb1FrameBuffer [(72, false), (105, true), (10, true)] :=
  runCalls_shows_reference_iff ⟨by decide, by decide⟩ (fun _ => true) le_rfl true _

theorem smallestFrameBuffer_base_lt : 0x9d400000 < 2 ^ 32 := by omega

theorem smallestFrameBuffer_bpp_lt : 32 < 2 ^ 32 := by omega

/-- The smallest framebuffer that the console is meant for. -/
def smallestFrameBuffer : FrameBuffer :=
  ⟨0x9d400000, 12, 61, 32, smallestFrameBuffer_base_lt, by omega, by omega,
    smallestFrameBuffer_bpp_lt, by omega⟩

/-- Two line feeds on it leave the cursor in the second row of the new page. -/
theorem smallest_not_shows_reference :
    ¬ ShowsReference smallestFrameBuffer (fun _ => false) 2 true [(10, false), (10, false)] := by
  intro h
  have hfill := h.onlySpacesFill ⟨by decide, by decide⟩ le_rfl
  have hspace := hfill [(10, false)] (10, false) (List.prefix_refl _) (by decide)
  exact absurd hspace (by decide)

end Msm8998
