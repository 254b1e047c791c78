import Msm8998.ConsoleSafety
import Msm8998.Strip

/-!
# The Pixels of a Glyph

`FbConDrawglyph` walks the cell of a glyph four times with a running pointer: twice over a half
of it to paint the background, and twice to paint the set bits of a word. This module says what
the framebuffer holds afterwards.

The bytes from the end of one row of the cell to the start of the next are counted in 32 bits,
so the rows are a stride apart only if that count fits.

## Main results

* `resetFb_contents`: every byte of the framebuffer after a page clear;
* `drawglyph_contents`: every byte of the framebuffer after the drawing;
* `paintsGlyph_iff`: when exactly the glyph is painted.
-/

namespace Msm8998

/-! ### Stored bytes -/

/-- The byte at an address after a trace, when it was `v` before. -/
def byteAt (a : ℕ) (trace : List Event) (v : ℕ) : ℕ :=
  trace.foldl (fun v e => match e with
    | .store address byte => if address = a then byte else v
    | _ => v) v

/-- The byte after two traces behind each other. -/
theorem byteAt_append (a : ℕ) (t t' : List Event) (v : ℕ) :
    byteAt a (t ++ t') v = byteAt a t' (byteAt a t v) := List.foldl_append

/-- What the framebuffer holds at an address, for a pointer with a trace. -/
def Pen.contents (screen : ℕ → ℕ) (pen : Pen) (a : ℕ) : ℕ := byteAt a pen.trace (screen a)

/-- The byte of a color that a pixel has at some offset. -/
def colorByte (color k : ℕ) : ℕ := (color >>> (8 * k)) % 256

/-- The pointer lays a strip on the framebuffer. -/
def PenLays (screen : ℕ → ℕ) : ℕ → (ℕ → Option ℕ) → Pen → Pen → Prop :=
  Lays Pen.pixels (Pen.contents screen)

/-- The same for a loop that carries a word along. -/
def WordLays (screen : ℕ → ℕ) : ℕ → (ℕ → Option ℕ) → Pen × ℕ → Pen × ℕ → Prop :=
  Lays (fun s => s.1.pixels) (fun s => s.1.contents screen)

variable (screen : ℕ → ℕ)

/-- The word that is carried along does not touch the framebuffer. -/
theorem wordLays_iff {screen : ℕ → ℕ} {n : ℕ} {w : ℕ → Option ℕ} {s s' : Pen × ℕ} :
    WordLays screen n w s s' ↔ PenLays screen n w s.1 s'.1 :=
  ⟨fun h => ⟨h.pos_eq, h.mem_eq⟩, fun h => ⟨h.pos_eq, h.mem_eq⟩⟩

/-! ### The loops of the background -/

/-- One byte. -/
theorem paintByte_lays (s : Pen × ℕ) :
    WordLays screen 1 (fun _ => some (s.2 % 256)) s (paintByte s) where
  pos_eq := rfl
  mem_eq a := by
    change byteAt a (s.1.trace ++ [.store s.1.pixels (s.2 % 256)]) (screen a) = _
    rw [byteAt_append]
    change (if s.1.pixels = a then s.2 % 256 else s.1.contents screen a) = _
    exact if_ctx_congr (by omega) (fun _ => rfl) fun _ => rfl

/-- Skipping lays nothing. -/
theorem skip_lays (n : ℕ) (pen : Pen) : PenLays screen n (fun _ => none) pen (skip n pen) where
  pos_eq := rfl
  mem_eq a := by
    split
    · rfl
    · rfl

/-- One pixel. -/
theorem paintPixel_lays (bpp color : ℕ) (pen : Pen) :
    PenLays screen bpp (fun k => some (colorByte color k)) pen (paintPixel bpp color pen) := by
  have hbyte : ∀ (k : ℕ) (s : Pen × ℕ), s.2 = color >>> (8 * k) →
      WordLays screen 1 (fun _ => some (colorByte color k)) s (paintByte s) ∧
        (paintByte s).2 = color >>> (8 * (k + 1)) := by
    intro k s hs
    refine ⟨?_, ?_⟩
    · rw [colorByte, ← hs]
      exact paintByte_lays screen s
    · rw [Nat.mul_succ, Nat.shiftRight_add, ← hs]
      rfl
  have hbytes := (Lays.iterate hbyte (s := (pen, color)) rfl bpp).1
  rw [Nat.mul_one] at hbytes
  exact wordLays_iff.mp (hbytes.congr fun i _ => by rw [Nat.div_one])

/-- The pixels of a column. -/
theorem paintColumn_lays (bpp scale color : ℕ) (pen : Pen) :
    PenLays screen (scale * bpp) (fun i => some (colorByte color (i % bpp))) pen
      ((paintPixel bpp color)^[scale] pen) :=
  Lays.iterate_same (paintPixel_lays screen bpp color) scale pen

/-- The pixels of a column that is not painted. -/
theorem skipColumn_lays (bpp scale : ℕ) (pen : Pen) :
    PenLays screen (scale * bpp) (fun _ => none) pen ((skip bpp)^[scale] pen) :=
  Lays.iterate_same (skip_lays screen bpp) scale pen

/-- **The framebuffer after `ResetFb`**: every byte is one of a black pixel, whatever was painted
before. -/
theorem resetFb_contents (fb : FrameBuffer) (trace : List Event) (a v : ℕ) :
    byteAt a (resetFb fb trace) v =
      if fb.base ≤ a ∧ a < fb.base + fb.size then
        colorByte fbBgra8888Black ((a - fb.base) % (fb.bpp / 8))
      else byteAt a trace v := by
  have hcolumn := Lays.iterate_same
    (paintPixel_lays (fun _ => v) (fb.bpp / 8) fbBgra8888Black) fb.height
  have hpage := (Lays.iterate_same hcolumn fb.width ⟨fb.base, trace⟩).mem_eq a
  rw [← Nat.mul_assoc] at hpage
  refine hpage.trans (if_ctx_congr Iff.rfl (fun _ => ?_) fun _ => rfl)
  rw [Option.getD_some, Nat.mod_mul_left_mod]

/-- The number of bytes from one row of the cell to the next. -/
def rowExtent (bpp lineSkip scale : ℕ) : ℕ := fontWidth * (scale * bpp) + lineSkip

/-- What the background loops lay on a half of the cell. -/
def backgroundStrip (bpp lineSkip scale color i : ℕ) : Option ℕ :=
  if i % rowExtent bpp lineSkip scale < fontWidth * (scale * bpp) then
    some (colorByte color (i % rowExtent bpp lineSkip scale % bpp))
  else none

/-- A background loop over half of the cell. -/
theorem backgroundHalf_lays (bpp lineSkip scale color : ℕ) (pen : Pen) :
    PenLays screen (halfExtent bpp lineSkip scale) (backgroundStrip bpp lineSkip scale color) pen
      (backgroundHalf bpp lineSkip scale color pen) := by
  have hcolumns := Lays.iterate_same (paintColumn_lays screen bpp scale color)
    fontWidth
  have hrow : ∀ pen, PenLays screen (rowExtent bpp lineSkip scale)
      (backgroundStrip bpp lineSkip scale color) pen
      (skip lineSkip ((fun pen => (paintPixel bpp color)^[scale] pen)^[fontWidth] pen)) := by
    intro pen
    refine ((hcolumns pen).append (skip_lays screen lineSkip _)).congr fun i hi => ?_
    have hplace : i % rowExtent bpp lineSkip scale = i := Nat.mod_eq_of_lt hi
    rw [backgroundStrip, hplace, Nat.mod_mul_left_mod]
  refine (Lays.iterate_same (Lays.iterate_same hrow scale) (fontHeight / 2) pen).congr
    fun i _ => ?_
  rw [backgroundStrip, backgroundStrip, Nat.mod_mod, Nat.mod_mul_left_mod]

/-! ### The loops of the foreground -/

/-- What a foreground loop lays on a row of pixels, for the bits of `temp`. -/
def rowStrip (bpp scale color temp i : ℕ) : Option ℕ :=
  if i < fontWidth * (scale * bpp) ∧ temp.testBit (i / (scale * bpp)) = true then
    some (colorByte color (i % bpp))
  else none

/-- What it lays on a half of the cell, for the bits of `data`. -/
def foregroundStrip (bpp lineSkip scale color data i : ℕ) : Option ℕ :=
  rowStrip bpp scale color
    (data >>> (fontWidth * (i / (scale * rowExtent bpp lineSkip scale))))
    (i % rowExtent bpp lineSkip scale)

/-- A column of a glyph line, which is painted if the lowest bit is set. -/
theorem foregroundColumn_lays (bpp scale color data : ℕ) (j : ℕ) (s : Pen × ℕ)
    (hs : s.2 = data >>> j) :
    WordLays screen (scale * bpp)
        (fun i => if data.testBit j then some (colorByte color (i % bpp)) else none) s
        (foregroundColumn bpp scale color s) ∧
      (foregroundColumn bpp scale color s).2 = data >>> (j + 1) := by
  have hbit : s.2 &&& 1 ≠ 0 ↔ data.testBit j = true := by
    rw [hs, Nat.testBit, Nat.and_comm, bne_iff_ne]
  refine ⟨wordLays_iff.mpr ?_, ?_⟩
  · rw [foregroundColumn]
    by_cases hset : data.testBit j = true
    · simp only [if_pos (hbit.mpr hset), if_pos hset]
      exact paintColumn_lays screen bpp scale color s.1
    · simp only [if_neg (mt hbit.mp hset), if_neg hset]
      exact skipColumn_lays screen bpp scale s.1
  · rw [Nat.shiftRight_add, ← hs]
    rfl

/-- A pixel row of a glyph line, whatever is left of the bits by the row before. -/
theorem foregroundRow_lays (bpp lineSkip scale color temp : ℕ) (s : Pen × ℕ) :
    WordLays screen (rowExtent bpp lineSkip scale) (rowStrip bpp scale color temp) s
        (foregroundRow bpp lineSkip scale color temp s) ∧
      (foregroundRow bpp lineSkip scale color temp s).2 = temp >>> fontWidth := by
  obtain ⟨hcolumns, hbits⟩ := Lays.iterate
    (foregroundColumn_lays screen bpp scale color temp) (s := (s.1, temp)) rfl
    fontWidth
  refine ⟨wordLays_iff.mpr ?_, hbits⟩
  refine ((wordLays_iff.mp hcolumns).append (skip_lays screen lineSkip _)).congr fun i _ => ?_
  simp only [rowStrip, Nat.mod_mul_left_mod, ite_and]

/-- The rows of a glyph line. They all start at the same bits, and leave the next ones. -/
theorem foregroundLine_lays (bpp lineSkip color data : ℕ) {scale : ℕ} (hscale : 1 ≤ scale)
    (j : ℕ) (s : Pen × ℕ) (hs : s.2 = data >>> (fontWidth * j)) :
    WordLays screen (scale * rowExtent bpp lineSkip scale)
        (fun i => rowStrip bpp scale color (data >>> (fontWidth * j))
          (i % rowExtent bpp lineSkip scale)) s
        ((foregroundRow bpp lineSkip scale color s.2)^[scale] s) ∧
      ((foregroundRow bpp lineSkip scale color s.2)^[scale] s).2 =
        data >>> (fontWidth * (j + 1)) := by
  rw [Nat.mul_succ, Nat.shiftRight_add, ← hs]
  have hrow : ∀ (i : ℕ) (t : Pen × ℕ), (0 < i → t.2 = s.2 >>> fontWidth) →
      WordLays screen (rowExtent bpp lineSkip scale) (rowStrip bpp scale color s.2) t
          (foregroundRow bpp lineSkip scale color s.2 t) ∧
        (0 < i + 1 → (foregroundRow bpp lineSkip scale color s.2 t).2 = s.2 >>> fontWidth) := by
    intro i t _
    obtain ⟨hlays, hbits⟩ := foregroundRow_lays screen bpp lineSkip scale color s.2 t
    exact ⟨hlays, fun _ => hbits⟩
  obtain ⟨hrows, hbits⟩ := Lays.iterate hrow (s := s) nofun scale
  exact ⟨hrows, hbits hscale⟩

/-- A foreground loop over half of the cell. -/
theorem foregroundHalf_lays (bpp lineSkip color data : ℕ) {scale : ℕ} (hscale : 1 ≤ scale)
    (pen : Pen) :
    PenLays screen (halfExtent bpp lineSkip scale) (foregroundStrip bpp lineSkip scale color data)
      pen (foregroundHalf bpp lineSkip scale color data pen) := by
  have hlines := (Lays.iterate
    (foregroundLine_lays screen bpp lineSkip color data hscale) (s := (pen, data)) rfl
    (fontHeight / 2)).1
  refine (wordLays_iff.mp hlines).congr fun i _ => ?_
  rw [foregroundStrip, Nat.mod_mul_left_mod]

/-! ### The whole glyph -/

/-- The bit of a glyph for a pixel of the cell: each word has six lines of five bits. -/
def glyphBit (words : ℕ × ℕ) (scale r c : ℕ) : Bool :=
  (if r / scale < 6 then words.1 else words.2).testBit (5 * (r / scale % 6) + c / scale)

/-- The bits of the upper six lines are those of the first word. -/
theorem glyphBit_first (words : ℕ × ℕ) {scale r : ℕ} (h : r / scale < 6) (c : ℕ) :
    glyphBit words scale r c = words.1.testBit (fontWidth * (r / scale) + c / scale) := by
  rw [glyphBit, if_pos h, Nat.mod_eq_of_lt h]
  rfl

/-- Those of the lower six lines are in the second word. -/
theorem glyphBit_second (words : ℕ × ℕ) {scale r : ℕ} (h : ¬ r / scale < 6)
    (hr : r / scale < 12) (c : ℕ) :
    glyphBit words scale r c = words.2.testBit (fontWidth * (r / scale - 6) + c / scale) := by
  have hmod : r / scale % 6 = r / scale - 6 := by omega
  rw [glyphBit, if_neg h, hmod]
  rfl

/-- The color of a pixel of the cell. -/
def glyphColor (words : ℕ × ℕ) (scale : ℕ) (color : FbconColor) (r c : ℕ) : ℕ :=
  if glyphBit words scale r c then color.foreground % 2 ^ 32 else color.background % 2 ^ 32

/-- What is laid on the whole cell. -/
def glyphStrip (bpp lineSkip scale : ℕ) (words : ℕ × ℕ) (color : FbconColor) (i : ℕ) :
    Option ℕ :=
  let r := i / rowExtent bpp lineSkip scale
  let p := i % rowExtent bpp lineSkip scale
  if p < fontWidth * (scale * bpp) then
    some (colorByte (glyphColor words scale color r (p / bpp)) (p % bpp))
  else none

/-- The strips of the two kinds of loop over each other, on a half of the cell. -/
theorem foregroundStrip_or (bpp lineSkip scale foreground background data i : ℕ) :
    (foregroundStrip bpp lineSkip scale foreground data i).or
        (backgroundStrip bpp lineSkip scale background i) =
      if i % rowExtent bpp lineSkip scale < fontWidth * (scale * bpp) then
        some (colorByte (if data.testBit (fontWidth * (i / rowExtent bpp lineSkip scale / scale) +
            i % rowExtent bpp lineSkip scale / bpp / scale) then foreground else background)
          (i % rowExtent bpp lineSkip scale % bpp))
      else none := by
  rw [foregroundStrip, backgroundStrip, rowStrip, Nat.testBit_shiftRight,
    Nat.div_div_eq_div_mul i, Nat.div_div_eq_div_mul _ bpp, Nat.mul_comm bpp scale,
    Nat.mul_comm _ scale]
  generalize i % rowExtent bpp lineSkip scale = p
  generalize i / (scale * rowExtent bpp lineSkip scale) = y
  by_cases hp : p < fontWidth * (scale * bpp)
  · by_cases hbit : data.testBit (fontWidth * y + p / (scale * bpp)) = true
    · rw [if_pos ⟨hp, hbit⟩, if_pos hp, if_pos hp, if_pos hbit, Option.some_or]
    · rw [if_neg fun h => hbit h.2, if_pos hp, if_pos hp, if_neg hbit, Option.none_or]
  · rw [if_neg fun h => hp h.1, if_neg hp, if_neg hp, Option.none_or]

/-- The strips of the four loops are together the strip of the cell. -/
theorem strips_eq {bpp lineSkip scale : ℕ} (words : ℕ × ℕ) (color : FbconColor) {i : ℕ}
    (hi : i < halfExtent bpp lineSkip scale + halfExtent bpp lineSkip scale) :
    (if i < halfExtent bpp lineSkip scale then
        foregroundStrip bpp lineSkip scale (color.foreground % 2 ^ 32) words.1 i
      else foregroundStrip bpp lineSkip scale (color.foreground % 2 ^ 32) words.2
        (i - halfExtent bpp lineSkip scale)).or
      (if i < halfExtent bpp lineSkip scale then
        backgroundStrip bpp lineSkip scale (color.background % 2 ^ 32) i
      else backgroundStrip bpp lineSkip scale (color.background % 2 ^ 32)
        (i - halfExtent bpp lineSkip scale)) =
      glyphStrip bpp lineSkip scale words color i := by
  have hextent : halfExtent bpp lineSkip scale = rowExtent bpp lineSkip scale * (scale * 6) := by
    rw [← Nat.mul_assoc, Nat.mul_comm]
    exact congrArg (6 * ·) (Nat.mul_comm _ _)
  have hhalf : i < halfExtent bpp lineSkip scale ↔
      i / rowExtent bpp lineSkip scale / scale < 6 := by
    rw [hextent, ← Nat.mul_assoc, Nat.div_div_eq_div_mul, Nat.mul_comm _ 6]
    refine (Nat.div_lt_iff_lt_mul (Nat.pos_of_ne_zero fun h0 => ?_)).symm
    rw [hextent, ← Nat.mul_assoc, h0, Nat.zero_mul] at hi
    exact absurd hi (Nat.not_lt_zero _)
  have hline : i / rowExtent bpp lineSkip scale / scale < 12 := by
    rw [Nat.div_div_eq_div_mul]
    refine Nat.div_lt_of_lt_mul ?_
    rw [hextent, ← Nat.mul_assoc] at hi
    omega
  rw [glyphStrip, glyphColor]
  by_cases hfirst : i < halfExtent bpp lineSkip scale
  · rw [if_pos hfirst, if_pos hfirst, foregroundStrip_or, glyphBit_first _ (hhalf.mp hfirst)]
  · have hsecond := mt hhalf.mpr hfirst
    rw [if_neg hfirst, if_neg hfirst, foregroundStrip_or, glyphBit_second _ hsecond hline,
      hextent, Nat.sub_mul_mod (by omega), Nat.sub_mul_div, Nat.sub_mul_div]

/-- Reading the font stores nothing. -/
theorem contents_glyphRead (pixels pixels' glyph : ℕ) (trace : List Event) :
    Pen.contents screen ⟨pixels, trace ++ [.glyphRead glyph]⟩ =
      Pen.contents screen ⟨pixels', trace⟩ :=
  funext fun a => byteAt_append a trace [.glyphRead glyph] (screen a)

/-- The number of bytes that the pointer has to skip behind a row of the cell, in the 32 bits
that the source has for it. -/
def rowSkip (stride bpp scale : ℕ) : ℕ := sub32 stride (fontWidth * scale) * bpp % 2 ^ 32

/-- **The framebuffer after `FbConDrawglyph`**: on the way of the pointer the strip of the cell
is laid, and elsewhere nothing has changed. -/
theorem drawglyph_contents (pixels stride bpp glyph : ℕ) (words : ℕ × ℕ) {scale : ℕ}
    (hscale : 1 ≤ scale) (color : FbconColor) (trace : List Event) (a v : ℕ) :
    byteAt a (fbConDrawglyphOf pixels stride bpp glyph words scale color trace) v =
      if pixels ≤ a ∧ a < pixels + (halfExtent bpp (rowSkip stride bpp scale) scale +
          halfExtent bpp (rowSkip stride bpp scale) scale) then
        (glyphStrip bpp (rowSkip stride bpp scale) scale words color (a - pixels)).getD
          (byteAt a trace v)
      else byteAt a trace v := by
  rw [fbConDrawglyphOf, rowSkip]
  generalize sub32 stride (fontWidth * scale) * bpp % 2 ^ 32 = lineSkip
  generalize hbackground : color.background % 2 ^ 32 = background
  generalize hforeground : color.foreground % 2 ^ 32 = foreground
  have h₁ := backgroundHalf_lays (fun _ => v) bpp lineSkip scale background ⟨pixels, trace⟩
  generalize backgroundHalf bpp lineSkip scale background ⟨pixels, trace⟩ = pen₁ at h₁ ⊢
  have h₂ := backgroundHalf_lays (fun _ => v) bpp lineSkip scale background pen₁
  generalize backgroundHalf bpp lineSkip scale background pen₁ = pen₂ at h₂ ⊢
  have h₃ := foregroundHalf_lays (fun _ => v) bpp lineSkip foreground words.1 hscale
    ⟨pixels, pen₂.trace ++ [.glyphRead glyph]⟩
  generalize foregroundHalf bpp lineSkip scale foreground words.1
    ⟨pixels, pen₂.trace ++ [.glyphRead glyph]⟩ = pen₃ at h₃ ⊢
  have h₄ := foregroundHalf_lays (fun _ => v) bpp lineSkip foreground words.2 hscale
    ⟨pen₃.pixels, pen₃.trace ++ [.glyphRead (glyph + 1)]⟩
  generalize foregroundHalf bpp lineSkip scale foreground words.2
    ⟨pen₃.pixels, pen₃.trace ++ [.glyphRead (glyph + 1)]⟩ = pen₄ at h₄ ⊢
  have h₄' : PenLays (fun _ => v) _ _ pen₃ pen₄ :=
    ⟨h₄.pos_eq, fun a => by rw [h₄.mem_eq, contents_glyphRead _ _ pen₃.pixels]⟩
  refine ((h₁.append h₂).onto (h₃.append h₄') rfl (contents_glyphRead _ _ _ _ _) a).trans ?_
  refine if_ctx_congr Iff.rfl (fun ha => ?_) fun _ => rfl
  subst hbackground hforeground
  rw [strips_eq words color (Nat.sub_lt_left_of_lt_add ha.1 ha.2)]
  rfl

/-- What is painted over depends on nothing else. -/
theorem drawglyph_congr (pixels stride bpp glyph : ℕ) (words : ℕ × ℕ) {scale : ℕ}
    (hscale : 1 ≤ scale) (color : FbconColor) {trace trace' : List Event} {a v v' : ℕ}
    (h : byteAt a trace v = byteAt a trace' v') :
    byteAt a (fbConDrawglyphOf pixels stride bpp glyph words scale color trace) v =
      byteAt a (fbConDrawglyphOf pixels stride bpp glyph words scale color trace') v' := by
  rw [drawglyph_contents _ _ _ _ _ hscale, drawglyph_contents _ _ _ _ _ hscale, h]

/-! ### Painting exactly the glyph -/

/-- **The glyph is painted**: whatever the framebuffer held, every byte of the cell is the one
of the color that the glyph asks for, and every other byte is as before. -/
structure PaintsGlyph (pixels stride bpp scale : ℕ) (words : ℕ × ℕ) (color : FbconColor)
    (draw : List Event → List Event) : Prop where
  inside : ∀ trace v r c k, r < 12 * scale → c < 5 * scale → k < bpp →
    byteAt (pixels + (r * stride + c) * bpp + k) (draw trace) v =
      colorByte (glyphColor words scale color r c) k
  outside : ∀ trace v a,
    (∀ r c k, r < 12 * scale → c < 5 * scale → k < bpp →
      a ≠ pixels + (r * stride + c) * bpp + k) →
    byteAt a (draw trace) v = byteAt a trace v

/-- The skip that the source means, when it fits. -/
theorem rowSkip_eq {stride bpp scale : ℕ} (hcell : 5 * scale ≤ stride)
    (hstride : stride < 2 ^ 32) :
    rowSkip stride bpp scale = (stride - 5 * scale) * bpp % 2 ^ 32 := by
  have hsub : sub32 stride (fontWidth * scale) = stride - 5 * scale := by
    rw [sub32, fontWidth]
    omega
  rw [rowSkip, hsub]

/-- The digits of a number that is given by them. -/
theorem div_mod_of_digits {r p extent : ℕ} (hp : p < extent) :
    (r * extent + p) / extent = r ∧ (r * extent + p) % extent = p :=
  (Nat.div_mod_unique (Nat.zero_lt_of_lt hp)).mpr ⟨by rw [Nat.mul_comm, Nat.add_comm], hp⟩

/-- A number that is given by its digits is below that with the next leading digit. -/
theorem digits_lt {c k n extent : ℕ} (hc : c < n) (hk : k < extent) :
    c * extent + k < n * extent := by
  calc c * extent + k < (c + 1) * extent := by rw [Nat.succ_mul]; omega
    _ ≤ n * extent := Nat.mul_le_mul_right extent hc

/-- A place of the strip of the cell, by its row and what is left of it. -/
theorem glyphStrip_place (bpp lineSkip scale : ℕ) (words : ℕ × ℕ) (color : FbconColor)
    {r c k : ℕ} (hc : c < 5 * scale) (hk : k < bpp) :
    glyphStrip bpp lineSkip scale words color (r * rowExtent bpp lineSkip scale + (c * bpp + k)) =
      some (colorByte (glyphColor words scale color r c) k) := by
  have hpixel : c * bpp + k < fontWidth * (scale * bpp) := by
    rw [← Nat.mul_assoc]
    exact digits_lt hc hk
  have hrow : c * bpp + k < rowExtent bpp lineSkip scale := Nat.lt_add_right lineSkip hpixel
  obtain ⟨hdiv, hmod⟩ := div_mod_of_digits (r := r) hrow
  obtain ⟨hdiv', hmod'⟩ := div_mod_of_digits (r := c) hk
  rw [glyphStrip, hdiv, hmod, if_pos hpixel, hdiv', hmod']

/-- The rows are a stride apart when the skip fits its 32 bits. -/
theorem rowExtent_eq {stride bpp scale : ℕ} (hcell : 5 * scale ≤ stride)
    (hstride : stride < 2 ^ 32) (hfits : (stride - 5 * scale) * bpp < 2 ^ 32) :
    rowExtent bpp (rowSkip stride bpp scale) scale = stride * bpp := by
  rw [rowExtent, rowSkip_eq hcell hstride, Nat.mod_eq_of_lt hfits, fontWidth, ← Nat.mul_assoc,
    ← Nat.add_mul, Nat.add_sub_cancel' hcell]

/-- If the skip fits its 32 bits, the glyph is painted and nothing else. -/
theorem paintsGlyph_of_fits {stride bpp scale : ℕ} (hscale : 1 ≤ scale)
    (hcell : 5 * scale ≤ stride) (hstride : stride < 2 ^ 32)
    (hfits : (stride - 5 * scale) * bpp < 2 ^ 32) (pixels glyph : ℕ) (words : ℕ × ℕ)
    (color : FbconColor) :
    PaintsGlyph pixels stride bpp scale words color
      (fbConDrawglyphOf pixels stride bpp glyph words scale color) := by
  have hrow := rowExtent_eq hcell hstride hfits
  have hextent : halfExtent bpp (rowSkip stride bpp scale) scale +
      halfExtent bpp (rowSkip stride bpp scale) scale = 12 * scale * (stride * bpp) := by
    rw [← hrow, Nat.mul_assoc]
    change 6 * (scale * rowExtent bpp _ scale) + 6 * (scale * rowExtent bpp _ scale) = _
    omega
  constructor
  · intro trace v r c k hr hc hk
    have hplace : (r * stride + c) * bpp + k =
        r * rowExtent bpp (rowSkip stride bpp scale) scale + (c * bpp + k) := by
      rw [hrow, Nat.add_mul, Nat.mul_assoc, Nat.add_assoc]
    have hlt : (r * stride + c) * bpp + k < 12 * scale * (stride * bpp) := by
      rw [← Nat.mul_assoc]
      exact digits_lt (digits_lt hr (by omega)) hk
    rw [drawglyph_contents _ _ _ _ _ hscale, hextent, Nat.add_assoc, if_pos (by omega),
      Nat.add_sub_cancel_left, hplace, glyphStrip_place _ _ _ _ _ hc hk, Option.getD_some]
  · intro trace v a ha
    rw [drawglyph_contents _ _ _ _ _ hscale, hextent]
    split
    · next hin =>
        obtain ⟨i, rfl⟩ := Nat.exists_eq_add_of_le hin.1
        rw [Nat.add_sub_cancel_left, glyphStrip, hrow]
        split
        · next hpixel =>
            have hbpp : 0 < bpp := Nat.pos_of_ne_zero fun h0 => by simp [h0] at hpixel
            refine absurd ?_ (ha (i / (stride * bpp)) (i % (stride * bpp) / bpp)
              (i % (stride * bpp) % bpp) ?_ ?_ (Nat.mod_lt _ hbpp))
            · rw [Nat.add_mul, Nat.add_assoc, Nat.add_assoc, Nat.div_add_mod', Nat.mul_assoc,
                Nat.div_add_mod']
            · exact Nat.div_lt_of_lt_mul (by rw [Nat.mul_comm]; omega)
            · rw [← Nat.mul_assoc] at hpixel
              exact (Nat.div_lt_iff_lt_mul hbpp).mpr hpixel
        · rfl
    · rfl

/-- If the skip does not fit, the second row starts behind the pixels of the first one, but in
front of the place that is a stride away. -/
theorem rowExtent_lt {stride bpp scale : ℕ} (hcell : 5 * scale ≤ stride)
    (hstride : stride < 2 ^ 32) (hwide : ¬ (stride - 5 * scale) * bpp < 2 ^ 32) :
    5 * scale * bpp ≤ rowExtent bpp (rowSkip stride bpp scale) scale ∧
      rowExtent bpp (rowSkip stride bpp scale) scale < stride * bpp := by
  have hskip : rowSkip stride bpp scale < (stride - 5 * scale) * bpp := by
    rw [rowSkip_eq hcell hstride]
    omega
  have hextent : rowExtent bpp (rowSkip stride bpp scale) scale =
      5 * scale * bpp + rowSkip stride bpp scale := by
    rw [Nat.mul_assoc]
    rfl
  rw [hextent]
  refine ⟨Nat.le_add_right _ _, ?_⟩
  calc 5 * scale * bpp + rowSkip stride bpp scale
      < 5 * scale * bpp + (stride - 5 * scale) * bpp := Nat.add_lt_add_left hskip _
    _ = stride * bpp := by rw [← Nat.add_mul, Nat.add_sub_cancel' hcell]

/-- So a glyph is painted only if the skip fits: else the first byte of the second row is one
outside of the cell, which has changed. -/
theorem fits_of_paintsGlyph {stride bpp scale : ℕ} (hscale : 1 ≤ scale)
    (hcell : 5 * scale ≤ stride) (hstride : stride < 2 ^ 32) {pixels glyph : ℕ}
    {words : ℕ × ℕ} {color : FbconColor}
    (h : PaintsGlyph pixels stride bpp scale words color
      (fbConDrawglyphOf pixels stride bpp glyph words scale color)) :
    (stride - 5 * scale) * bpp < 2 ^ 32 := by
  by_contra hwide
  have hbpp : 0 < bpp := Nat.pos_of_ne_zero fun h0 => hwide (by rw [h0, Nat.mul_zero]; decide)
  obtain ⟨hbehind, hbefore⟩ := rowExtent_lt hcell hstride hwide
  have hstart := glyphStrip_place bpp (rowSkip stride bpp scale) scale words color
    (r := 1) (c := 0) (by omega) hbpp
  rw [Nat.one_mul, Nat.zero_mul, Nat.add_zero] at hstart
  have hin : rowExtent bpp (rowSkip stride bpp scale) scale <
      halfExtent bpp (rowSkip stride bpp scale) scale := by
    change _ < 6 * (scale * rowExtent bpp (rowSkip stride bpp scale) scale)
    have hscaled := Nat.le_mul_of_pos_left (rowExtent bpp (rowSkip stride bpp scale) scale) hscale
    have hpos : 0 < 5 * scale * bpp := Nat.mul_pos (by omega) hbpp
    omega
  generalize rowExtent bpp (rowSkip stride bpp scale) scale = extent at *
  have houtside : ∀ r c k, r < 12 * scale → c < 5 * scale → k < bpp →
      pixels + extent ≠ pixels + (r * stride + c) * bpp + k := by
    intro r c k _ hc hk heq
    rcases r with _ | r
    · have hpixel := digits_lt hc hk
      rw [Nat.zero_mul, Nat.zero_add] at heq
      omega
    · have hrow : stride * bpp ≤ ((r + 1) * stride + c) * bpp :=
        Nat.mul_le_mul_right bpp (by rw [Nat.succ_mul]; omega)
      omega
  have hunchanged := h.outside [] (colorByte (glyphColor words scale color 1 0) 0 + 1)
    (pixels + extent) houtside
  rw [drawglyph_contents _ _ _ _ _ hscale, if_pos (by omega), Nat.add_sub_cancel_left, hstart,
    Option.getD_some] at hunchanged
  exact absurd hunchanged (Nat.lt_succ_self _).ne

/-- **When the glyph is painted**: when the bytes between two rows of the cell are counted in
32 bits without a wrap. -/
theorem paintsGlyph_iff {stride bpp scale : ℕ} (hscale : 1 ≤ scale) (hcell : 5 * scale ≤ stride)
    (hstride : stride < 2 ^ 32) (pixels glyph : ℕ) (words : ℕ × ℕ) (color : FbconColor) :
    PaintsGlyph pixels stride bpp scale words color
        (fbConDrawglyphOf pixels stride bpp glyph words scale color) ↔
      (stride - 5 * scale) * bpp < 2 ^ 32 :=
  ⟨fits_of_paintsGlyph hscale hcell hstride,
    fun hfits => paintsGlyph_of_fits hscale hcell hstride hfits pixels glyph words color⟩

/-- A letter of the font, four times as large, on a screen of 1080 pixels with 32 bits each. -/
theorem paintsGlyph_large : PaintsGlyph 0x9D400000 1080 4 4 (0x2318a880, 0x0008c63f)
    ⟨fbBgra8888White, fbBgra8888Black⟩ (fbConDrawglyphOf 0x9D400000 1080 4 66
      (0x2318a880, 0x0008c63f) 4 ⟨fbBgra8888White, fbBgra8888Black⟩) :=
  (paintsGlyph_iff (by decide) (by decide) (by decide) _ _ _ _).mpr (by decide)

/-- On rows of a little over four GiB all rows of the cell are painted without a gap. -/
theorem not_paintsGlyph_wide : ¬ PaintsGlyph 0x9D400000 0x80000005 2 1 (0x2318a880, 0x0008c63f)
    ⟨fbBgra8888White, fbBgra8888Black⟩ (fbConDrawglyphOf 0x9D400000 0x80000005 2 66
      (0x2318a880, 0x0008c63f) 1 ⟨fbBgra8888White, fbBgra8888Black⟩) :=
  fun h => absurd (fits_of_paintsGlyph (by decide) (by decide) (by decide) h) (by decide)

end Msm8998
