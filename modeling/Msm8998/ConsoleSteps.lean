import Msm8998.Console
import Msm8998.Graded

/-!
# Steps of the Console

What one call to the console can do. The trace grows by events of a known kind: bytes
stored in the cell of a glyph at a position of the character grid, bytes of a page clear,
words of the font, and interrupt calls (`Emitted`). The cursor stays on the grid
(`Ready`). `paintPass_spec` says this of one pass of `FbConPutCharWithFactor`;
`paintLoop_spec` carries it through `goto paint`, which is taken at most once unless the
grid is too small (`Cramped`).

Painting is a nest of counted loops, so its extent in the framebuffer is computed by the
rule for graded relations: `Painted n` relates a pen to one that has moved by `n` bytes
and stored nothing outside them.
-/

namespace Msm8998

/-! ### Growing traces -/

/-- The trace grew by events that satisfy `P`. -/
def Extends (P : Event → Prop) (t t' : List Event) : Prop :=
  ∃ new, t' = t ++ new ∧ ∀ e ∈ new, P e

namespace Extends

variable {P Q : Event → Prop} {t t' t'' : List Event}

/-- Every trace extends itself by nothing. -/
theorem refl (P : Event → Prop) (t : List Event) : Extends P t t :=
  ⟨[], (List.append_nil t).symm, fun _ h => absurd h List.not_mem_nil⟩

/-- Extensions behind each other are an extension. -/
theorem trans (h : Extends P t t') (h' : Extends P t' t'') : Extends P t t'' := by
  obtain ⟨new, rfl, hnew⟩ := h
  obtain ⟨new', rfl, hnew'⟩ := h'
  refine ⟨new ++ new', List.append_assoc t new new', ?_⟩
  intro e he
  rcases List.mem_append.mp he with he | he
  · exact hnew e he
  · exact hnew' e he

/-- An extension by some events is one by more kinds of them. -/
theorem mono (h : Extends P t t') (hPQ : ∀ e, P e → Q e) : Extends Q t t' := by
  obtain ⟨new, hnew, hP⟩ := h
  exact ⟨new, hnew, fun e he => hPQ e (hP e he)⟩

/-- One more event. -/
theorem concat (t : List Event) {e : Event} (he : P e) : Extends P t (t ++ [e]) :=
  ⟨[e], rfl, fun _ he' => List.mem_singleton.mp he' ▸ he⟩

/-- A property of a trace and of the events it grew by is one of the grown trace. -/
theorem forall_mem (h : Extends P t t') (ht : ∀ e ∈ t, P e) : ∀ e ∈ t', P e := by
  obtain ⟨new, rfl, hnew⟩ := h
  intro e he
  rcases List.mem_append.mp he with he | he
  · exact ht e he
  · exact hnew e he

end Extends

/-! ### The extent of painting -/

/-- A byte stored at an address from `lo` up to `hi`. -/
def StoreIn (lo hi : ℕ) (e : Event) : Prop := ∃ a b, e = .store a b ∧ lo ≤ a ∧ a < hi

/-- A store in a range is one in every larger range. -/
theorem StoreIn.mono {lo lo' hi hi' : ℕ} {e : Event} (h : StoreIn lo hi e) (hlo : lo' ≤ lo)
    (hhi : hi ≤ hi') : StoreIn lo' hi' e := by
  obtain ⟨a, b, rfl, ha, ha'⟩ := h
  exact ⟨a, b, rfl, le_trans hlo ha, lt_of_lt_of_le ha' hhi⟩

/-- The pen moved by `n` bytes, and stored bytes only between the two places. -/
structure Painted (n : ℕ) (pen pen' : Pen) : Prop where
  pixels : pen'.pixels = pen.pixels + n
  trace : Extends (StoreIn pen.pixels (pen.pixels + n)) pen.trace pen'.trace

/-- Painting adds up. -/
theorem graded_painted : Graded Painted where
  refl pen := ⟨rfl, Extends.refl _ _⟩
  trans h h' := by
    refine ⟨by rw [h'.pixels, h.pixels, Nat.add_assoc], ?_⟩
    refine Extends.trans (h.trace.mono fun e he => he.mono le_rfl (by omega))
      (h'.trace.mono fun e he => he.mono ?_ ?_)
    · rw [h.pixels]
      omega
    · rw [h.pixels]
      omega

/-- One byte. -/
theorem paintByte_painted (s : Pen × ℕ) : Painted 1 s.1 (paintByte s).1 where
  pixels := rfl
  trace := Extends.concat _ ⟨s.1.pixels, s.2 % 256, rfl, le_rfl, Nat.lt_succ_self _⟩

/-- One pixel. -/
theorem paintPixel_painted (bpp color : ℕ) (pen : Pen) :
    Painted bpp pen (paintPixel bpp color pen) := by
  have h := (graded_painted.comap Prod.fst).iterate paintByte_painted bpp (pen, color)
  rw [Nat.mul_one] at h
  exact h

/-- A movement without painting. -/
theorem skip_painted (n : ℕ) (pen : Pen) : Painted n pen (skip n pen) :=
  ⟨rfl, Extends.refl _ _⟩

/-- The number of bytes from the start of a glyph half to the start of the next one. -/
def halfExtent (bpp lineSkip scale : ℕ) : ℕ :=
  fontHeight / 2 * (scale * (fontWidth * (scale * bpp) + lineSkip))

/-- A background half. -/
theorem backgroundHalf_painted (bpp lineSkip scale color : ℕ) (pen : Pen) :
    Painted (halfExtent bpp lineSkip scale) pen
      (backgroundHalf bpp lineSkip scale color pen) := by
  have hcolumn := graded_painted.iterate (paintPixel_painted bpp color) scale
  have hrow := graded_painted.iterate hcolumn fontWidth
  have hline : ∀ pen, Painted (fontWidth * (scale * bpp) + lineSkip) pen
      (skip lineSkip ((fun pen => (paintPixel bpp color)^[scale] pen)^[fontWidth] pen)) :=
    fun pen => graded_painted.trans (hrow pen) (skip_painted lineSkip _)
  exact graded_painted.iterate (graded_painted.iterate hline scale) (fontHeight / 2) pen

/-- A foreground column. -/
theorem foregroundColumn_painted (bpp scale color : ℕ) (s : Pen × ℕ) :
    Painted (scale * bpp) s.1 (foregroundColumn bpp scale color s).1 := by
  rw [foregroundColumn]
  split
  · exact graded_painted.iterate (paintPixel_painted bpp color) scale s.1
  · exact graded_painted.iterate (skip_painted bpp) scale s.1

/-- A foreground half. -/
theorem foregroundHalf_painted (bpp lineSkip scale color data : ℕ) (pen : Pen) :
    Painted (halfExtent bpp lineSkip scale) pen
      (foregroundHalf bpp lineSkip scale color data pen) := by
  have hgraded := graded_painted.comap (Prod.fst : Pen × ℕ → Pen)
  have hcolumns := hgraded.iterate (foregroundColumn_painted bpp scale color) fontWidth
  have hrow : ∀ (temp : ℕ) (s : Pen × ℕ), Painted (fontWidth * (scale * bpp) + lineSkip) s.1
      (foregroundRow bpp lineSkip scale color temp s).1 :=
    fun temp s => graded_painted.trans (hcolumns (s.1, temp)) (skip_painted lineSkip _)
  have hline : ∀ s : Pen × ℕ, Painted (scale * (fontWidth * (scale * bpp) + lineSkip)) s.1
      ((foregroundRow bpp lineSkip scale color s.2)^[scale] s).1 :=
    fun s => hgraded.iterate (hrow s.2) scale s
  exact hgraded.iterate hline (fontHeight / 2) (pen, data)

/-- What `FbConDrawglyph` adds to the trace. -/
def DrawEvent (pixels extent glyph : ℕ) (e : Event) : Prop :=
  StoreIn pixels (pixels + extent) e ∨ e = .glyphRead glyph ∨ e = .glyphRead (glyph + 1)

/-- **`FbConDrawglyph`** stores bytes in two halves from its start address on, and reads the
two words of its glyph. -/
theorem fbConDrawglyph_extends (pixels stride bpp glyph scale : ℕ) (color : FbconColor)
    (trace : List Event) :
    Extends (DrawEvent pixels
        (2 * halfExtent bpp (sub32 stride (fontWidth * scale) * bpp % 2 ^ 32) scale) glyph)
      trace (fbConDrawglyph pixels stride bpp glyph scale color trace) := by
  rw [fbConDrawglyph, fbConDrawglyphOf]
  generalize sub32 stride (fontWidth * scale) * bpp % 2 ^ 32 = lineSkip
  have hsecond : ∀ {pen pen' : Pen}, pixels ≤ pen.pixels →
      pen.pixels + halfExtent bpp lineSkip scale ≤
        pixels + 2 * halfExtent bpp lineSkip scale →
      Painted (halfExtent bpp lineSkip scale) pen pen' →
      Extends (DrawEvent pixels (2 * halfExtent bpp lineSkip scale) glyph)
        pen.trace pen'.trace :=
    fun hlo hhi h => h.trace.mono fun e he => Or.inl (he.mono hlo hhi)
  have h1 := backgroundHalf_painted bpp lineSkip scale (color.background % 2 ^ 32)
    ⟨pixels, trace⟩
  generalize backgroundHalf bpp lineSkip scale (color.background % 2 ^ 32) ⟨pixels, trace⟩ = pen₁
    at h1 ⊢
  have hpen₁ : pen₁.pixels = pixels + halfExtent bpp lineSkip scale := h1.pixels
  have h2 := backgroundHalf_painted bpp lineSkip scale (color.background % 2 ^ 32) pen₁
  generalize backgroundHalf bpp lineSkip scale (color.background % 2 ^ 32) pen₁ = pen₂ at h2 ⊢
  have h3 := foregroundHalf_painted bpp lineSkip scale (color.foreground % 2 ^ 32)
    (glyphWords glyph).1 ⟨pixels, pen₂.trace ++ [.glyphRead glyph]⟩
  generalize foregroundHalf bpp lineSkip scale (color.foreground % 2 ^ 32)
    (glyphWords glyph).1 ⟨pixels, pen₂.trace ++ [.glyphRead glyph]⟩ = pen₃ at h3 ⊢
  have hpen₃ : pen₃.pixels = pixels + halfExtent bpp lineSkip scale := h3.pixels
  have h4 := foregroundHalf_painted bpp lineSkip scale (color.foreground % 2 ^ 32)
    (glyphWords glyph).2 ⟨pen₃.pixels, pen₃.trace ++ [.glyphRead (glyph + 1)]⟩
  refine (hsecond le_rfl (by dsimp only; omega) h1).trans
    ((hsecond (by omega) (by omega) h2).trans ?_)
  refine (Extends.concat pen₂.trace (Or.inr (Or.inl rfl))).trans
    ((hsecond le_rfl (by dsimp only; omega) h3).trans ?_)
  exact (Extends.concat pen₃.trace (Or.inr (Or.inr rfl))).trans
    (hsecond (by dsimp only; omega) (by dsimp only; omega) h4)

/-- **`ResetFb`** stores bytes in the framebuffer only. -/
theorem resetFb_extends (fb : FrameBuffer) (trace : List Event) :
    Extends (StoreIn fb.base (fb.base + fb.size)) trace (resetFb fb trace) := by
  have hcolumn := graded_painted.iterate
    (paintPixel_painted (fb.bpp / 8) fbBgra8888Black) fb.height
  have h := (graded_painted.iterate hcolumn fb.width ⟨fb.base, trace⟩).trace
  rw [← Nat.mul_assoc] at h
  exact h

/-! ### The character grid -/

/-- The number of characters in a text row. -/
def columns (fb : FrameBuffer) : ℕ := fb.width / (fontWidth + 1) / scaleFactor

/-- The number of unscaled text rows. -/
def textRows (fb : FrameBuffer) : ℕ := sub64 fb.height 1 / fontHeight

/-- The cursor is on the grid: in a column, or at the start of a row, and at the first row
or with room for another row below. -/
structure OnGrid (fb : FrameBuffer) (position : FbconPosition) : Prop where
  x_nonneg : 0 ≤ position.x
  x_lt : position.x < columns fb ∨ position.x = 0
  y_nonneg : 0 ≤ position.y
  y_lt : position.y + scaleFactor < textRows fb ∨ position.y = 0

/-- The invariant of an initialized console. -/
structure Ready (fb : FrameBuffer) (st : FbCon) : Prop where
  maxPosition : st.maxPosition = maxPositionOf fb
  onGrid : OnGrid fb st.position

/-- The home position is on every grid. -/
theorem onGrid_home (fb : FrameBuffer) : OnGrid fb ⟨0, 0⟩ :=
  ⟨Int.le_refl 0, Or.inr rfl, Int.le_refl 0, Or.inr rfl⟩

/-- The start address and the glyph of a character drawn at a position of the grid. -/
def DrawnAt (fb : FrameBuffer) (position : FbconPosition) (c : ℕ) (e : Event) : Prop :=
  DrawEvent (glyphAddress fb scaleFactor position)
    (2 * halfExtent (fb.bpp / 8 % 2 ^ 32)
      (sub32 (fb.width % 2 ^ 32) (fontWidth * scaleFactor) * (fb.bpp / 8 % 2 ^ 32) % 2 ^ 32)
      scaleFactor)
    ((c - 32) * 2) e

/-- The events of painting with interrupts disabled. -/
def Emitted (fb : FrameBuffer) (e : Event) : Prop :=
  (∃ position c, OnGrid fb position ∧ 32 ≤ c ∧ c ≤ 127 ∧ DrawnAt fb position c e) ∨
    StoreIn fb.base (fb.base + fb.size) e ∨ e = .disableInterrupts

/-- Painting does not enable interrupts. -/
theorem Emitted.ne_enable {fb : FrameBuffer} {e : Event} (h : Emitted fb e) :
    e ≠ .enableInterrupts := by
  rintro rfl
  rcases h with ⟨_, _, -, -, -, ⟨_, _, h, -⟩ | h | h⟩ | ⟨_, _, h, -⟩ | h
  all_goals exact absurd h (by simp)

/-! ### One step -/

/-- What putting a character leaves behind: the cursor on the grid, the other globals
unchanged, and painting in the trace. Interrupts are enabled on the way only if they were
enabled before or if the character is a line feed. -/
structure Painting (fb : FrameBuffer) (c : UInt8) (st st' : FbCon) : Prop where
  ready : Ready fb st'
  initialized : st'.initialized = st.initialized
  color : st'.color = st.color
  interrupts : c.toNat ≠ 10 → st'.interrupts = st.interrupts
  trace : Extends (fun e => Emitted fb e ∨
    (e = .enableInterrupts ∧ (c.toNat = 10 ∨ st.interrupts = true))) st.trace st'.trace

/-- Painting nothing. -/
theorem Painting.refl {fb : FrameBuffer} {c : UInt8} {st : FbCon} (h : Ready fb st) :
    Painting fb c st st :=
  ⟨h, rfl, rfl, fun _ => rfl, Extends.refl _ _⟩

/-- Paintings behind each other are a painting. -/
theorem Painting.trans {fb : FrameBuffer} {c : UInt8} {st st' st'' : FbCon}
    (h : Painting fb c st st') (h' : Painting fb c st' st'') : Painting fb c st st'' where
  ready := h'.ready
  initialized := h'.initialized.trans h.initialized
  color := h'.color.trans h.color
  interrupts hc := (h'.interrupts hc).trans (h.interrupts hc)
  trace := by
    refine h.trace.trans (h'.trace.mono fun e he => ?_)
    rcases he with he | ⟨he, hc | hi⟩
    · exact Or.inl he
    · exact Or.inr ⟨he, Or.inl hc⟩
    · by_cases hc : c.toNat = 10
      · exact Or.inr ⟨he, Or.inl hc⟩
      · exact Or.inr ⟨he, Or.inr (h.interrupts hc ▸ hi)⟩

/-- The outcome of one pass from the label `paint`: a pass that jumps back has cleared the
page and moved the cursor home, after a row that was the last one. -/
inductive PassOutcome (fb : FrameBuffer) (c : UInt8) (st : FbCon) : Pass → Prop
  | done {st' : FbCon} (painting : Painting fb c st st') : PassOutcome fb c st (.done st')
  | again {st' : FbCon} (painting : Painting fb c st st') (home : st'.position = ⟨0, 0⟩)
      (full : (textRows fb : ℤ) ≤ st.position.y + 2 * scaleFactor) :
      PassOutcome fb c st (.again st')

variable {fb : FrameBuffer} {junk : ℕ → Bool} {c : UInt8} {st st' : FbCon}

/-- Restoring the interrupt state adds at most one event. -/
theorem restoreInterrupts_extends (i : Bool) (st : FbCon) :
    Extends (fun e => e = .enableInterrupts ∧ i = true) st.trace
      (restoreInterrupts i st).trace := by
  cases i with
  | false => exact Extends.refl _ _
  | true => exact Extends.concat _ ⟨rfl, rfl⟩

/-- The code from the label `newline` on, for a state `s` whose cursor is in a row of the
grid and whose trace has grown by painting since `st`. -/
theorem newline_spec {i : Bool} {s : FbCon} (hst : Ready fb st)
    (hmax : s.maxPosition = maxPositionOf fb) (hy : s.position.y = st.position.y)
    (hinit : s.initialized = st.initialized) (hcolor : s.color = st.color)
    (hint : c.toNat ≠ 10 → (i || s.interrupts) = st.interrupts)
    (htrace : Extends (Emitted fb) st.trace s.trace) :
    PassOutcome fb c st (newline fb i scaleFactor s) := by
  have henable : ∀ {e}, e = Event.enableInterrupts ∧ i = true →
      Emitted fb e ∨ (e = .enableInterrupts ∧ (c.toNat = 10 ∨ st.interrupts = true)) := by
    rintro e ⟨he, rfl⟩
    by_cases hc : c.toNat = 10
    · exact Or.inr ⟨he, Or.inl hc⟩
    · exact Or.inr ⟨he, Or.inr (hint hc).symm⟩
  rw [newline]
  dsimp only
  split
  · rename_i hfull
    rw [hmax, hy] at hfull
    refine .again ⟨⟨?_, ?_⟩, ?_, ?_, ?_, ?_⟩ (restoreInterrupts_position _ _) ?_
    · rw [restoreInterrupts_maxPosition]
      exact hmax
    · rw [restoreInterrupts_position]
      exact onGrid_home fb
    · rw [restoreInterrupts_initialized]
      exact hinit
    · rw [restoreInterrupts_color]
      exact hcolor
    · intro hc
      rw [restoreInterrupts_interrupts]
      exact hint hc
    · have hreset := (resetFb_extends fb s.trace).mono fun e he =>
        (Or.inr (Or.inl he) : Emitted fb e)
      exact ((htrace.trans hreset).mono fun e he => Or.inl he).trans
        ((restoreInterrupts_extends i _).mono fun e he => henable he)
    · have hrows : (maxPositionOf fb).y = textRows fb := rfl
      omega
  · rename_i hroom
    rw [hmax, hy] at hroom
    have hrows : (maxPositionOf fb).y = textRows fb := rfl
    have hgrid : OnGrid fb ⟨0, s.position.y + (scaleFactor : ℤ)⟩ := by
      have hy0 := hst.onGrid.y_nonneg
      refine ⟨Int.le_refl 0, Or.inr rfl, ?_, Or.inl ?_⟩
      · rw [hy]
        exact Int.add_nonneg hy0 (Int.natCast_nonneg _)
      · rw [hy]
        dsimp only
        omega
    refine .done ⟨⟨?_, ?_⟩, ?_, ?_, ?_, ?_⟩
    · rw [restoreInterrupts_maxPosition]
      exact hmax
    · rw [restoreInterrupts_position]
      exact hgrid
    · rw [restoreInterrupts_initialized]
      exact hinit
    · rw [restoreInterrupts_color]
      exact hcolor
    · intro hc
      rw [restoreInterrupts_interrupts]
      exact hint hc
    · exact (htrace.mono fun e he => Or.inl he).trans
        ((restoreInterrupts_extends i _).mono fun e he => henable he)

/-- The state after a glyph has been drawn at the cursor and the cursor has advanced. -/
def drawn (fb : FrameBuffer) (c : UInt8) (st : FbCon) : FbCon :=
  { armDisableInterrupts st with
    position := ⟨st.position.x + 1, st.position.y⟩
    trace := fbConDrawglyph (glyphAddress fb scaleFactor st.position) (fb.width % 2 ^ 32)
      (fb.bpp / 8 % 2 ^ 32) ((c.toNat - 32) * 2) scaleFactor st.color
      (armDisableInterrupts st).trace }

/-- The trace of drawing a glyph. -/
theorem drawn_extends (hst : Ready fb st) (hlo : 32 ≤ c.toNat) (hhi : c.toNat ≤ 127) :
    Extends (Emitted fb) st.trace (drawn fb c st).trace := by
  refine (Extends.concat st.trace (Or.inr (Or.inr rfl))).trans ?_
  refine (fbConDrawglyph_extends _ _ _ _ _ _ _).mono fun e he => ?_
  exact Or.inl ⟨st.position, c.toNat, hst.onGrid, hlo, hhi, he⟩

/-- Whether a character is drawn at all: it has a glyph, and it is no leading space. -/
def Visible (c : UInt8) (st : FbCon) : Prop :=
  32 ≤ c.toNat ∧ c.toNat ≤ 127 ∧ ¬ (st.position.x = 0 ∧ c.toNat = 32)

instance (c : UInt8) (st : FbCon) : Decidable (Visible c st) :=
  inferInstanceAs (Decidable (_ ∧ _ ∧ _))

/-- A pass over a visible character. -/
theorem paintPass_visible (h : Visible c st) :
    paintPass fb junk c .common scaleFactor st =
      if (drawn fb c st).position.x ≥ (drawn fb c st).maxPosition.x / (scaleFactor : ℤ) then
        newline fb st.interrupts scaleFactor (drawn fb c st)
      else .done (restoreInterrupts st.interrupts (drawn fb c st)) := by
  obtain ⟨hlo, hhi, hspace⟩ := h
  rw [paintPass, if_neg (by omega), if_neg (by omega), if_neg]
  · rfl
  · rintro ⟨hx, hc, -⟩
    exact hspace ⟨hx, hc⟩

/-- A pass over a line feed. -/
theorem paintPass_lineFeed (h : c.toNat = 10) :
    paintPass fb junk c .common scaleFactor st =
      newline fb (junk st.junkReads) scaleFactor { st with junkReads := st.junkReads + 1 } := by
  rw [paintPass, if_neg (by omega), if_pos (by omega), if_pos h]

/-- A pass over any other character moves the cursor to the start of its row or does
nothing. -/
theorem paintPass_ignored (h : ¬ Visible c st) (hc : c.toNat ≠ 10) :
    ∃ x, (x = 0 ∨ x = st.position.x) ∧
      paintPass fb junk c .common scaleFactor st =
        .done { st with position := ⟨x, st.position.y⟩ } := by
  rw [paintPass]
  by_cases hhi : c.toNat > 127
  · rw [if_pos hhi]
    exact ⟨st.position.x, Or.inr rfl, rfl⟩
  rw [if_neg hhi]
  by_cases hlo : c.toNat < 32
  · rw [if_pos hlo, if_neg hc]
    by_cases hcr : c.toNat = 13
    · rw [if_pos hcr]
      exact ⟨0, Or.inl rfl, rfl⟩
    · rw [if_neg hcr]
      exact ⟨st.position.x, Or.inr rfl, rfl⟩
  rw [if_neg hlo, if_pos]
  · exact ⟨st.position.x, Or.inr rfl, rfl⟩
  · have hspace : st.position.x = 0 ∧ c.toNat = 32 := by
      by_contra hno
      exact h ⟨by omega, by omega, hno⟩
    exact ⟨hspace.1, hspace.2, by decide, by decide⟩

/-- **One pass** of `FbConPutCharWithFactor` on an initialized console. -/
theorem paintPass_spec (hst : Ready fb st) :
    PassOutcome fb c st (paintPass fb junk c .common scaleFactor st) := by
  by_cases hvis : Visible c st
  · rw [paintPass_visible hvis]
    have htrace := drawn_extends hst hvis.1 hvis.2.1
    split
    · refine newline_spec hst hst.maxPosition rfl rfl rfl (fun _ => ?_) htrace
      exact Bool.or_false _
    · rename_i hx
      refine .done ⟨⟨?_, ?_⟩, ?_, ?_, ?_, ?_⟩
      · rw [restoreInterrupts_maxPosition]
        exact hst.maxPosition
      · rw [restoreInterrupts_position]
        have hmax : (drawn fb c st).maxPosition.x / (scaleFactor : ℤ) = columns fb := by
          show st.maxPosition.x / (scaleFactor : ℤ) = columns fb
          rw [hst.maxPosition]
          rfl
        rw [hmax] at hx
        have hx0 := hst.onGrid.x_nonneg
        have hpos : (drawn fb c st).position.x = st.position.x + 1 := rfl
        exact ⟨by omega, Or.inl (by omega), hst.onGrid.y_nonneg, hst.onGrid.y_lt⟩
      · rw [restoreInterrupts_initialized]
        rfl
      · rw [restoreInterrupts_color]
        rfl
      · intro _
        rw [restoreInterrupts_interrupts]
        exact Bool.or_false _
      · exact (htrace.mono fun e he => Or.inl he).trans
          ((restoreInterrupts_extends _ _).mono fun e he => Or.inr ⟨he.1, Or.inr he.2⟩)
  by_cases hc : c.toNat = 10
  · rw [paintPass_lineFeed hc]
    exact newline_spec hst hst.maxPosition rfl rfl rfl (fun h => absurd hc h)
      (Extends.refl _ _)
  · obtain ⟨x, hx, hpass⟩ := @paintPass_ignored fb junk c st hvis hc
    rw [hpass]
    refine .done ⟨⟨hst.maxPosition, ?_⟩, rfl, rfl, fun _ => rfl, Extends.refl _ _⟩
    have hgrid := hst.onGrid
    rcases hx with rfl | rfl
    · exact ⟨Int.le_refl 0, Or.inr rfl, hgrid.y_nonneg, hgrid.y_lt⟩
    · exact hgrid

/-! ### The loop -/

/-- A grid on which a row is used up by one character and the page by one row. -/
def Cramped (fb : FrameBuffer) : Prop := columns fb ≤ 1 ∧ textRows fb ≤ 4

instance (fb : FrameBuffer) : Decidable (Cramped fb) :=
  inferInstanceAs (Decidable (_ ∧ _))

/-- From the home position a pass returns, unless the grid is too small for it. -/
theorem paintPass_home (hst : Ready fb st) (hhome : st.position = ⟨0, 0⟩)
    (hroom : 5 ≤ textRows fb ∨ (¬ Cramped fb ∧ c.toNat ≠ 10)) :
    ∃ st', paintPass fb junk c .common scaleFactor st = .done st' := by
  have hspec := @paintPass_spec fb junk c st hst
  by_cases hrows : 5 ≤ textRows fb
  · generalize paintPass fb junk c .common scaleFactor st = r at hspec
    cases hspec with
    | @done st' painting => exact ⟨st', rfl⟩
    | again painting home full =>
        rw [hhome, scaleFactor] at full
        dsimp only at full
        omega
  obtain ⟨hcramped, hc⟩ := hroom.resolve_left hrows
  by_cases hvis : Visible c st
  · have hx : ¬ (drawn fb c st).position.x ≥ (drawn fb c st).maxPosition.x / (scaleFactor : ℤ) := by
      have hmax : (drawn fb c st).maxPosition.x / (scaleFactor : ℤ) = columns fb := by
        show st.maxPosition.x / (scaleFactor : ℤ) = columns fb
        rw [hst.maxPosition]
        rfl
      have hpos : (drawn fb c st).position.x = st.position.x + 1 := rfl
      have hcols : ¬ columns fb ≤ 1 := fun h => hcramped ⟨h, by omega⟩
      rw [hmax, hpos, hhome]
      dsimp only
      omega
    rw [paintPass_visible hvis, if_neg hx]
    exact ⟨_, rfl⟩
  · obtain ⟨x, -, hpass⟩ := @paintPass_ignored fb junk c st hvis hc
    exact ⟨_, hpass⟩

/-- **The `goto paint` loop** returns after at most two passes. -/
theorem paintLoop_spec (hst : Ready fb st)
    (hroom : 5 ≤ textRows fb ∨ (¬ Cramped fb ∧ c.toNat ≠ 10)) (fuel : ℕ) :
    ∃ st', paintLoop fb junk c .common scaleFactor (fuel + 2) st = some st' ∧
      Painting fb c st st' := by
  have hfirst := @paintPass_spec fb junk c st hst
  rw [paintLoop]
  generalize paintPass fb junk c .common scaleFactor st = r at hfirst
  cases hfirst with
  | @done st₁ painting => exact ⟨st₁, rfl, painting⟩
  | @again st₁ painting home full =>
      obtain ⟨st₂, hpass⟩ := @paintPass_home fb junk c st₁ painting.ready home hroom
      have hsecond := @paintPass_spec fb junk c st₁ painting.ready
      dsimp only
      rw [paintLoop]
      rw [hpass] at hsecond ⊢
      cases hsecond with
      | done painting' => exact ⟨st₂, rfl, painting.trans painting'⟩

/-- A property that every character of a buffer keeps is kept by the loop over the buffer,
which returns if they do. -/
theorem writeBytes_invariant {P : FbCon → Prop} {fuel : ℕ} :
    ∀ {buffer : List UInt8} {st : FbCon},
      (∀ c ∈ buffer, ∀ st, P st → ∃ st',
        fbConPutCharWithFactor fb junk fuel c .common scaleFactor st = some st' ∧ P st') →
      P st → ∃ st', writeBytes fb junk fuel buffer st = some st' ∧ P st' := by
  intro buffer
  induction buffer with
  | nil =>
      intro st _ hst
      exact ⟨st, rfl, hst⟩
  | cons c buffer ih =>
      intro st hstep hst
      obtain ⟨st₁, hput, hst₁⟩ := hstep c List.mem_cons_self st hst
      obtain ⟨st₂, hrest, hst₂⟩ :=
        ih (fun c' hc' => hstep c' (List.mem_cons_of_mem c hc')) hst₁
      refine ⟨st₂, ?_, hst₂⟩
      rw [writeBytes, hput, Option.bind_some, hrest]

end Msm8998
