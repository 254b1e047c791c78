import Msm8998.ConsoleTerminal

/-!
# What the Framebuffer Shows

`picture` paints the screen of a terminal with the drawing functions of the console. This module
says what that is pixel by pixel: where a glyph was drawn, its bits in its ink, and elsewhere
black, or what was there before the first page clear.

A cell of the terminal is 12 pixels wide and 24 high, and its glyph takes the first 10 columns
of it. The bytes of a row behind a glyph are counted in 32 bits, as in `paintsGlyph_iff`.

## Main results

* `glyphTrace_paints`: where a glyph of the grid is painted;
* `byteAt_picture`: the color of every pixel of the screen of a terminal;
* `runCalls_pixel`: the color of every pixel of the framebuffer after any calls.
-/

namespace Msm8998

variable {fb : FrameBuffer} {t : Terminal Bool} {g : Glyph Bool} {x y k v : ℕ}

/-! ### The colors of a screen -/

/-- The address of a byte of a pixel. -/
def pixelAddress (fb : FrameBuffer) (x y k : ℕ) : ℕ :=
  fb.base + (y * fb.width + x) * (fb.bpp / 8) + k

/-- The glyph takes the pixel. -/
def Covers (g : Glyph Bool) (x y : ℕ) : Bool :=
  x / 12 == g.column && decide (x % 12 < 10) && y / 24 == g.row

/-- The color that the glyph gives to a pixel. -/
def inkAt (g : Glyph Bool) (x y : ℕ) : ℕ :=
  glyphColor (glyphWords ((g.char.toNat - 32) * 2)) scaleFactor (inkColor g.ink) (y % 24) (x % 12)

/-- The color of a pixel: that of the last glyph drawn there, or black after a page clear. -/
def colorAt (t : Terminal Bool) (x y : ℕ) : Option ℕ :=
  match t.glyphs.reverse.find? (Covers · x y) with
  | some g => some (inkAt g x y)
  | none => if t.cleared then some fbBgra8888Black else none

/-! ### One glyph -/

/-- The glyph has its cell on the grid, with a row of pixels below it. -/
theorem grid_le (hroomy : Roomy fb) (hcolumn : g.column < columns fb) (hrow : g.row < rows fb) :
    g.column * 12 + 12 ≤ fb.width ∧ 12 * (scaleFactor * g.row) + 25 ≤ fb.height := by
  have htext := hroomy.textRows_eq
  rw [columns, fontWidth, scaleFactor] at hcolumn
  rw [rows, htext, scaleFactor] at hrow
  rw [scaleFactor]
  omega

/-- The address of a cell of the grid does not wrap. -/
theorem glyphAddress_cell (hroomy : Roomy fb) (hcolumn : g.column < columns fb)
    (hrow : g.row < rows fb) :
    glyphAddress fb scaleFactor (cell g.column g.row) =
      pixelAddress fb (12 * g.column) (24 * g.row) 0 := by
  obtain ⟨hwidth, hheight⟩ := grid_le hroomy hcolumn hrow
  have hoffset := cellOffset_le fb (x := g.column) (by omega) hheight
  have hsize := fb.fits
  rw [← FrameBuffer.size] at hsize
  have hlt : scaleFactor * g.row * (fb.bpp / 8 * 12 * fb.width) +
      g.column * 2 * (fb.bpp / 8 * 6) < 2 ^ 64 := by
    rcases Nat.eq_zero_or_pos (fb.bpp / 8) with hbpp | hbpp
    · rw [hbpp]
      simp
    · have hpos : 0 < fb.width * (fb.bpp / 8) := Nat.mul_pos (by omega) hbpp
      omega
  have hcast : ∀ {n : ℕ}, n < 2 ^ 64 → ((n : ℤ) % 2 ^ 64).toNat = n := by
    intro n hn
    omega
  have hy : (((scaleFactor * g.row : ℕ) : ℤ) * (fb.bpp / 8 * fontHeight * fb.width : ℕ) %
      2 ^ 64).toNat = scaleFactor * g.row * (fb.bpp / 8 * fontHeight * fb.width) := by
    rw [← Nat.cast_mul]
    exact hcast (lt_of_le_of_lt (Nat.le_add_right _ _) hlt)
  have hx : ((g.column : ℤ) * (scaleFactor : ℤ) * (fb.bpp / 8 * (fontWidth + 1) : ℕ) %
      2 ^ 64).toNat = g.column * scaleFactor * (fb.bpp / 8 * (fontWidth + 1)) := by
    rw [← Nat.cast_mul, ← Nat.cast_mul]
    exact hcast (lt_of_le_of_lt (Nat.le_add_left _ _) hlt)
  rw [glyphAddress, cell, hx, hy, pixelAddress, fontHeight, fontWidth, scaleFactor]
  ring

/-- **A glyph of the grid** is painted in its cell. -/
theorem glyphTrace_paints (hroomy : Roomy fb) (hfits : (fb.width - 10) * (fb.bpp / 8) < 2 ^ 32)
    (hcolumn : g.column < columns fb) (hrow : g.row < rows fb) :
    PaintsGlyph (pixelAddress fb (12 * g.column) (24 * g.row) 0) fb.width (fb.bpp / 8) scaleFactor
      (glyphWords ((g.char.toNat - 32) * 2)) (inkColor g.ink)
      fun trace => glyphTrace fb trace g := by
  have hwidth : fb.width % 2 ^ 32 = fb.width := Nat.mod_eq_of_lt fb.width_lt
  have hbpp : fb.bpp / 8 % 2 ^ 32 = fb.bpp / 8 :=
    Nat.mod_eq_of_lt (lt_of_le_of_lt (Nat.div_le_self _ _) fb.bpp_lt)
  have hcell : 5 * scaleFactor ≤ fb.width := le_trans (by decide) hroomy.width
  simp only [glyphTrace, hwidth, hbpp, glyphAddress_cell hroomy hcolumn hrow]
  exact paintsGlyph_of_fits (by decide) hcell fb.width_lt hfits _ _ _ _

/-- The pixels that a glyph takes, by their place in the cell. -/
theorem covers_iff : Covers g x y = true ↔
    ∃ r c, r < 24 ∧ c < 10 ∧ y = 24 * g.row + r ∧ x = 12 * g.column + c := by
  simp only [Covers, Bool.and_eq_true, beq_iff_eq, decide_eq_true_eq]
  constructor
  · rintro ⟨⟨hx, hc⟩, hy⟩
    exact ⟨y % 24, x % 12, Nat.mod_lt _ (by decide), hc, by omega, by omega⟩
  · rintro ⟨r, c, hr, hc, rfl, rfl⟩
    omega

/-- Bytes of different pixels have different addresses. -/
theorem pixelAddress_inj {x' y' k' : ℕ} (hx : x < fb.width) (hx' : x' < fb.width)
    (hk : k < fb.bpp / 8) (hk' : k' < fb.bpp / 8)
    (h : pixelAddress fb x y k = pixelAddress fb x' y' k') : x = x' ∧ y = y' := by
  rw [pixelAddress, pixelAddress, Nat.add_assoc, Nat.add_assoc] at h
  have hbyte := Nat.add_left_cancel h
  obtain ⟨hpixel, -⟩ := div_mod_of_digits (r := y * fb.width + x) hk
  obtain ⟨hpixel', -⟩ := div_mod_of_digits (r := y' * fb.width + x') hk'
  have heq := hpixel.symm.trans ((congrArg (· / (fb.bpp / 8)) hbyte).trans hpixel')
  obtain ⟨hrow, hcolumn⟩ := div_mod_of_digits (r := y) hx
  obtain ⟨hrow', hcolumn'⟩ := div_mod_of_digits (r := y') hx'
  exact ⟨hcolumn.symm.trans ((congrArg (· % fb.width) heq).trans hcolumn'),
    hrow.symm.trans ((congrArg (· / fb.width) heq).trans hrow')⟩

/-- A pixel after one more glyph. -/
theorem byteAt_glyphTrace (hroomy : Roomy fb) (hfits : (fb.width - 10) * (fb.bpp / 8) < 2 ^ 32)
    (hcolumn : g.column < columns fb) (hrow : g.row < rows fb) (hx : x < fb.width)
    (hk : k < fb.bpp / 8) (trace : List Event) :
    byteAt (pixelAddress fb x y k) (glyphTrace fb trace g) v =
      if Covers g x y then colorByte (inkAt g x y) k
      else byteAt (pixelAddress fb x y k) trace v := by
  have hpaints := glyphTrace_paints hroomy hfits hcolumn hrow
  obtain ⟨hwidth, -⟩ := grid_le hroomy hcolumn hrow
  have hplace : ∀ r c k, pixelAddress fb (12 * g.column) (24 * g.row) 0 +
      (r * fb.width + c) * (fb.bpp / 8) + k =
        pixelAddress fb (12 * g.column + c) (24 * g.row + r) k := by
    intro r c k
    rw [pixelAddress, pixelAddress]
    ring
  split
  · next hcovers =>
      obtain ⟨r, c, hr, hc, rfl, rfl⟩ := covers_iff.mp hcovers
      have hinside := hpaints.inside trace v r c k hr hc hk
      rw [hplace] at hinside
      rw [hinside, inkAt, Nat.mul_add_mod, Nat.mul_add_mod, Nat.mod_eq_of_lt hr,
        Nat.mod_eq_of_lt (by omega : c < 12)]
  · next hcovers =>
      refine hpaints.outside trace v _ fun r c k' hr hc hk' heq => hcovers (covers_iff.mpr ?_)
      have hc' : c < 10 := hc
      rw [hplace] at heq
      obtain ⟨rfl, rfl⟩ := pixelAddress_inj hx (by omega) hk hk' heq
      exact ⟨r, c, hr, hc', rfl, rfl⟩

/-! ### The whole screen -/

/-- The bytes of the pixels are those of the framebuffer. -/
theorem pixelAddress_mem (hx : x < fb.width) (hy : y < fb.height) (hk : k < fb.bpp / 8) :
    fb.base ≤ pixelAddress fb x y k ∧ pixelAddress fb x y k < fb.base + fb.size := by
  have hlt : (y * fb.width + x) * (fb.bpp / 8) + k < fb.size := by
    rw [FrameBuffer.size, Nat.mul_comm fb.width]
    exact digits_lt (digits_lt hy hx) hk
  rw [pixelAddress, Nat.add_assoc]
  exact ⟨Nat.le_add_right _ _, Nat.add_lt_add_left hlt _⟩

/-- A pixel of a blank page. -/
theorem byteAt_resetFb (hx : x < fb.width) (hy : y < fb.height) (hk : k < fb.bpp / 8) :
    byteAt (pixelAddress fb x y k) (resetFb fb []) v = colorByte fbBgra8888Black k := by
  obtain ⟨-, hbyte⟩ := div_mod_of_digits (r := y * fb.width + x) hk
  rw [resetFb_contents, if_pos (pixelAddress_mem hx hy hk), pixelAddress, Nat.add_assoc,
    Nat.add_sub_cancel_left, hbyte]

/-- **The picture of a terminal**, pixel by pixel. -/
theorem byteAt_picture (hroomy : Roomy fb) (hfits : (fb.width - 10) * (fb.bpp / 8) < 2 ^ 32)
    (hgrid : t.Contained (columns fb) (rows fb)) (hx : x < fb.width) (hy : y < fb.height)
    (hk : k < fb.bpp / 8) :
    byteAt (pixelAddress fb x y k) (picture fb t) v =
      (colorAt t x y).elim v fun color => colorByte color k := by
  obtain ⟨column, row, cleared, glyphs⟩ := t
  rw [picture, colorAt]
  dsimp only
  induction glyphs using List.reverseRecOn with
  | nil =>
      cases cleared with
      | false => rfl
      | true => exact byteAt_resetFb hx hy hk
  | append_singleton glyphs g ih =>
      obtain ⟨hcolumn, hrow⟩ := hgrid g (List.mem_append_right _ (List.mem_singleton_self g))
      have hearlier := ih fun g' hg' => hgrid g' (List.mem_append_left _ hg')
      rw [List.foldl_concat, List.reverse_concat, List.find?_cons,
        byteAt_glyphTrace hroomy hfits hcolumn hrow hx hk]
      -- the last glyph is the first one found
      cases Covers g x y with
      | true => rfl
      | false => exact hearlier

/-- The terminal that repaints keeps its cursor and its glyphs on the grid. -/
theorem repainted_contained (hroomy : Roomy fb) (bytes : List (UInt8 × Bool)) :
    (repainted fb Terminal.start bytes).InGrid (columns fb) (rows fb) ∧
      (repainted fb Terminal.start bytes).Contained (columns fb) (rows fb) := by
  have hcolumns := hroomy.columns_pos
  have hrows := Nat.zero_lt_of_lt hroomy.two_le_rows
  have hpage : (Terminal.page : Terminal Bool).InGrid (columns fb) (rows fb) := ⟨hcolumns, hrows⟩
  have hblank : (Terminal.page : Terminal Bool).Contained (columns fb) (rows fb) :=
    fun g hg => by cases hg
  induction bytes using List.reverseRecOn with
  | nil => exact ⟨⟨hcolumns, hrows⟩, fun g hg => by cases hg⟩
  | append_singleton bytes b ih =>
      rw [repainted_append, repaint]
      split
      · exact ⟨hpage.put b.2 b.1, hpage.contained hblank b.2 b.1⟩
      · exact ⟨ih.1.put b.2 b.1, ih.1.contained ih.2 b.2 b.1⟩

/-- **The framebuffer after any calls**, pixel by pixel: the last glyph that the terminal drew
there, black, or what was there at power on. -/
theorem runCalls_pixel (hroomy : Roomy fb) (hfits : (fb.width - 10) * (fb.bpp / 8) < 2 ^ 32)
    (junk : ℕ → Bool) {fuel : ℕ} (hfuel : 2 ≤ fuel) (interrupts : Bool) (calls : List Call) :
    ∃ st, runCalls fb junk fuel (.init :: calls) (powerOn interrupts) = some st ∧
      ∀ x y k v, x < fb.width → y < fb.height → k < fb.bpp / 8 →
        byteAt (pixelAddress fb x y k) st.trace v =
          (colorAt (repainted fb Terminal.start (calls.flatMap Call.bytes)) x y).elim v
            fun color => colorByte color k := by
  obtain ⟨st, hrun, hshows⟩ := runCalls_shows junk hroomy hfuel interrupts calls
  refine ⟨st, hrun, fun x y k v hx hy hk => ?_⟩
  obtain ⟨hle, hlt⟩ := pixelAddress_mem hx hy hk
  rw [hshows.screen _ hle hlt v]
  exact byteAt_picture hroomy hfits (repainted_contained hroomy _).2 hx hy hk

end Msm8998
