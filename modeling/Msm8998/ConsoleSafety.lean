import Msm8998.ConsoleSteps
import Mathlib.Tactic.Linarith
import Mathlib.Tactic.Ring

/-!
# Memory Safety of the Console

On a framebuffer of at least 12 by 61 pixels every call into the console returns, stores
inside the framebuffer, and reads inside the font, over any sequence of calls from power
on. The cell of a glyph at a position of the grid ends before the framebuffer does
(`drawnAt_safe`); the row pitch that `FbConDrawglyph` computes in 32 bits can only be
smaller than the true one, which keeps the cell inside.

## Main results

* `runCalls_safe`: every sequence of calls returns, and every event of its trace is safe.
-/

namespace Msm8998

/-- A store inside the framebuffer, a read inside the font, or an interrupt call. -/
def Event.Safe (fb : FrameBuffer) : Event → Prop
  | .store address _ => fb.base ≤ address ∧ address < fb.base + fb.size
  | .glyphRead index => index < font5x12.length
  | .disableInterrupts | .enableInterrupts => True

/-- The size of the framebuffer that the grid is computed for. -/
structure Roomy (fb : FrameBuffer) : Prop where
  width : 12 ≤ fb.width
  height : 61 ≤ fb.height

variable {fb : FrameBuffer} {junk : ℕ → Bool} {c : UInt8} {st st' : FbCon} {fuel : ℕ}

/-- The text rows of a roomy framebuffer. -/
theorem Roomy.textRows_eq (h : Roomy fb) : textRows fb = (fb.height - 1) / 12 := by
  have hlt := fb.height_lt
  have hge := h.height
  rw [textRows, sub64_eq (by omega) (by omega), fontHeight]

/-- A roomy framebuffer has five text rows. -/
theorem Roomy.five_le (h : Roomy fb) : 5 ≤ textRows fb := by
  have hge := h.height
  rw [h.textRows_eq]
  omega

/-- A store in a part of the framebuffer is safe. -/
theorem StoreIn.safe {lo hi : ℕ} {e : Event} (h : StoreIn lo hi e) (hlo : fb.base ≤ lo)
    (hhi : hi ≤ fb.base + fb.size) : e.Safe fb := by
  obtain ⟨a, b, rfl, ha, ha'⟩ := h
  exact ⟨le_trans hlo ha, lt_of_lt_of_le ha' hhi⟩

/-- The pitch of a glyph half is at most twelve pixel rows. -/
theorem halfExtent_le (h : Roomy fb) :
    halfExtent (fb.bpp / 8 % 2 ^ 32)
        (sub32 (fb.width % 2 ^ 32) (fontWidth * scaleFactor) * (fb.bpp / 8 % 2 ^ 32) % 2 ^ 32)
        scaleFactor ≤ 12 * (fb.width * (fb.bpp / 8)) := by
  have hwidth : fb.width % 2 ^ 32 = fb.width := Nat.mod_eq_of_lt fb.width_lt
  have hsub : sub32 fb.width (fontWidth * scaleFactor) = fb.width - 10 := by
    have hge := h.width
    have hlt := fb.width_lt
    have hten : fontWidth * scaleFactor = 10 := rfl
    rw [sub32, hten]
    omega
  rw [hwidth, hsub, halfExtent, fontHeight, fontWidth, scaleFactor]
  have hbpp : fb.bpp / 8 % 2 ^ 32 ≤ fb.bpp / 8 := Nat.mod_le _ _
  have hskip : (fb.width - 10) * (fb.bpp / 8 % 2 ^ 32) % 2 ^ 32 ≤
      (fb.width - 10) * (fb.bpp / 8) :=
    le_trans (Nat.mod_le _ _) (Nat.mul_le_mul_left _ hbpp)
  have hsplit : fb.width * (fb.bpp / 8) =
      10 * (fb.bpp / 8) + (fb.width - 10) * (fb.bpp / 8) := by
    rw [← Nat.add_mul, Nat.add_sub_cancel' (le_trans (by omega) h.width)]
  omega

/-- The start of a cell is at most its offset in rows and columns away from the base. -/
theorem glyphAddress_le (fb : FrameBuffer) {position : FbconPosition} {x y : ℕ}
    (hx : position.x = x) (hy : position.y = y) :
    fb.base ≤ glyphAddress fb scaleFactor position ∧
      glyphAddress fb scaleFactor position ≤
        fb.base + y * (fb.bpp / 8 * 12 * fb.width) + x * 2 * (fb.bpp / 8 * 6) := by
  have hmod : ∀ n : ℕ, ((n : ℤ) % 2 ^ 64).toNat ≤ n := by
    intro n
    omega
  have hrow := hmod (y * (fb.bpp / 8 * 12 * fb.width))
  have hcol := hmod (x * 2 * (fb.bpp / 8 * 6))
  rw [glyphAddress, hx, hy, fontHeight, fontWidth, scaleFactor]
  push_cast at hrow hcol ⊢
  omega

/-- A cell that has another pixel row below it ends within the framebuffer. -/
theorem cellOffset_le (fb : FrameBuffer) {x y : ℕ} (hx : x * 12 ≤ fb.width)
    (hy : 12 * y + 25 ≤ fb.height) :
    y * (fb.bpp / 8 * 12 * fb.width) + x * 2 * (fb.bpp / 8 * 6) +
      2 * (12 * (fb.width * (fb.bpp / 8))) ≤ fb.size := by
  calc y * (fb.bpp / 8 * 12 * fb.width) + x * 2 * (fb.bpp / 8 * 6) +
        2 * (12 * (fb.width * (fb.bpp / 8)))
      = (12 * y + 24) * (fb.width * (fb.bpp / 8)) + x * 12 * (fb.bpp / 8) := by ring
    _ ≤ (12 * y + 24) * (fb.width * (fb.bpp / 8)) + fb.width * (fb.bpp / 8) :=
        Nat.add_le_add_left (Nat.mul_le_mul_right _ hx) _
    _ = (12 * y + 25) * (fb.width * (fb.bpp / 8)) := by ring
    _ ≤ fb.height * (fb.width * (fb.bpp / 8)) := Nat.mul_le_mul_right _ hy
    _ = fb.size := by
        rw [FrameBuffer.size]
        ring

/-- **The cell of a glyph** at a position of the grid lies in the framebuffer, and its two
words lie in the font. -/
theorem drawnAt_safe (h : Roomy fb) {position : FbconPosition} {e : Event}
    (hgrid : OnGrid fb position) {c : ℕ} (hlo : 32 ≤ c) (hhi : c ≤ 127)
    (he : DrawnAt fb position c e) : e.Safe fb := by
  have hfont : font5x12.length = 192 := rfl
  rcases he with hstore | rfl | rfl
  · obtain ⟨x, hx⟩ := Int.eq_ofNat_of_zero_le hgrid.x_nonneg
    obtain ⟨y, hy⟩ := Int.eq_ofNat_of_zero_le hgrid.y_nonneg
    obtain ⟨hbase, haddr⟩ := glyphAddress_le fb hx hy
    have hextent := halfExtent_le h
    have hx12 : x * 12 ≤ fb.width := by
      have hcols : columns fb = fb.width / 6 / 2 := rfl
      have hwidth := h.width
      rcases hgrid.x_lt with hlt | hzero
      · omega
      · omega
    have hy12 : 12 * y + 25 ≤ fb.height := by
      have hrows := h.textRows_eq
      have hheight := h.height
      have hscale : (scaleFactor : ℤ) = 2 := rfl
      rcases hgrid.y_lt with hlt | hzero
      · omega
      · omega
    refine hstore.safe hbase ?_
    have hcell := cellOffset_le fb hx12 hy12
    omega
  · show (c - 32) * 2 < font5x12.length
    omega
  · show (c - 32) * 2 + 1 < font5x12.length
    omega

/-- Painting is safe. -/
theorem Emitted.safe (h : Roomy fb) {e : Event} (he : Emitted fb e) : e.Safe fb := by
  rcases he with ⟨position, c, hgrid, hlo, hhi, hdrawn⟩ | hstore | rfl
  · exact drawnAt_safe h hgrid hlo hhi hdrawn
  · exact hstore.safe le_rfl le_rfl
  · exact trivial

/-! ### Whole runs -/

/-- The state of a console whose calls have been safe so far. -/
structure Sound (fb : FrameBuffer) (st : FbCon) : Prop where
  ready : st.initialized = true → Ready fb st
  safe : ∀ e ∈ st.trace, e.Safe fb

/-- Switching interrupts off or back on is safe. -/
theorem Sound.armDisableInterrupts (h : Sound fb st) : Sound fb (armDisableInterrupts st) where
  ready hinit := ⟨(h.ready hinit).maxPosition, (h.ready hinit).onGrid⟩
  safe := (Extends.concat _ trivial).forall_mem h.safe

/-- The state of the interrupts does not matter for what is painted next. -/
theorem Sound.restoreInterrupts (h : Sound fb st) (i : Bool) :
    Sound fb (restoreInterrupts i st) where
  ready hinit := by
    rw [restoreInterrupts_initialized] at hinit
    refine ⟨?_, ?_⟩
    · rw [restoreInterrupts_maxPosition]
      exact (h.ready hinit).maxPosition
    · rw [restoreInterrupts_position]
      exact (h.ready hinit).onGrid
  safe := by
    refine Extends.forall_mem ((restoreInterrupts_extends i st).mono fun e he => ?_) h.safe
    rw [he.1]
    exact trivial

/-- The colors do not matter. -/
theorem Sound.withColor (h : Sound fb st) (color : FbconColor) :
    Sound fb { st with color := color } where
  ready hinit := ⟨(h.ready hinit).maxPosition, (h.ready hinit).onGrid⟩
  safe := h.safe

/-- Putting a character returns and is safe. -/
theorem fbConPutCharWithFactor_sound (hroomy : Roomy fb) (hst : Sound fb st)
    (hfuel : 2 ≤ fuel) : ∃ st',
      fbConPutCharWithFactor fb junk fuel c .common scaleFactor st = some st' ∧
        Sound fb st' := by
  obtain ⟨fuel, rfl⟩ : ∃ f, fuel = f + 2 := ⟨fuel - 2, by omega⟩
  rw [fbConPutCharWithFactor]
  split
  · rename_i hinit
    obtain ⟨st', hloop, hpaint⟩ := @paintLoop_spec fb junk c st (hst.ready hinit)
      (Or.inl hroomy.five_le) fuel
    refine ⟨st', hloop, fun _ => hpaint.ready, ?_⟩
    refine Extends.forall_mem (hpaint.trace.mono fun e he => ?_) hst.safe
    rcases he with he | ⟨rfl, -⟩
    · exact he.safe hroomy
    · exact trivial
  · exact ⟨st, rfl, hst⟩

/-- Painting a buffer returns and is safe. -/
theorem writeBytes_sound (hroomy : Roomy fb) (hfuel : 2 ≤ fuel) {buffer : List UInt8}
    (hst : Sound fb st) : ∃ st', writeBytes fb junk fuel buffer st = some st' ∧ Sound fb st' :=
  writeBytes_invariant (fun _ _ _ h => fbConPutCharWithFactor_sound hroomy h hfuel) hst

/-- Every call returns and is safe. -/
theorem runCall_sound (hroomy : Roomy fb) (hfuel : 2 ≤ fuel) (hst : Sound fb st)
    (call : Call) : ∃ st', runCall fb junk fuel st call = some st' ∧ Sound fb st' := by
  cases call with
  | init =>
      refine ⟨serialPortInitialize fb st, rfl, ?_⟩
      rw [serialPortInitialize]
      split
      · exact hst
      · refine Sound.restoreInterrupts ⟨fun _ => ⟨rfl, onGrid_home fb⟩, ?_⟩ st.interrupts
        exact hst.armDisableInterrupts.safe
  | write buffer =>
      obtain ⟨st', hrun, hst'⟩ :=
        @writeBytes_sound fb junk _ fuel hroomy hfuel buffer hst.armDisableInterrupts
      rw [runCall, serialPortWrite, hrun]
      exact ⟨_, rfl, hst'.restoreInterrupts st.interrupts⟩
  | writeCritical buffer =>
      obtain ⟨st', hrun, hst'⟩ := @writeBytes_sound fb junk _ fuel hroomy hfuel buffer
        (hst.armDisableInterrupts.withColor ⟨fbBgra8888Yellow, st.color.background⟩)
      rw [runCall, serialPortWriteCritical]
      dsimp only
      have hcolor : (armDisableInterrupts st).color.background = st.color.background := rfl
      rw [hcolor, hrun]
      exact ⟨_, rfl, (hst'.withColor _).restoreInterrupts st.interrupts⟩

/-- **Memory safety over whole runs**: on a framebuffer of at least 12 by 61 pixels, every
sequence of calls from power on returns; everything it stores lies in the framebuffer, and
every word of a glyph that it reads lies in the font. -/
theorem runCalls_safe (hroomy : Roomy fb) (hfuel : 2 ≤ fuel) (interrupts : Bool)
    (calls : List Call) : ∃ st',
      runCalls fb junk fuel calls (powerOn interrupts) = some st' ∧
        ∀ e ∈ st'.trace, e.Safe fb := by
  have hstart : Sound fb (powerOn interrupts) :=
    ⟨fun h => absurd h (by simp [powerOn]), fun e he => absurd he List.not_mem_nil⟩
  have hrun : ∀ {st}, Sound fb st →
      ∃ st', runCalls fb junk fuel calls st = some st' ∧ Sound fb st' := by
    induction calls with
    | nil => exact fun {st} hst => ⟨st, rfl, hst⟩
    | cons call calls ih =>
        intro st hst
        obtain ⟨st₁, hcall, hst₁⟩ := @runCall_sound fb junk st fuel hroomy hfuel hst call
        obtain ⟨st₂, hrest, hst₂⟩ := ih hst₁
        refine ⟨st₂, ?_, hst₂⟩
        rw [runCalls, hcall, Option.bind_some, hrest]
  obtain ⟨st', hcalls, hst'⟩ := hrun hstart
  exact ⟨st', hcalls, hst'.safe⟩

/-- The framebuffer of the Nokia 8. -/
def nb1FrameBuffer : FrameBuffer :=
  ⟨0x9d400000, 1440, 2560, 32, by omega, by omega, by omega, by omega, by omega⟩

/-- A page of output on the Nokia 8, with every kind of byte in it. -/
theorem nb1FrameBuffer_safe : ∃ st',
    runCalls nb1FrameBuffer (fun _ => true) 2
        [.init, .write ((List.range 256).map UInt8.ofNat), .writeCritical [72, 105, 10]]
        (powerOn true) = some st' ∧
      ∀ e ∈ st'.trace, e.Safe nb1FrameBuffer :=
  runCalls_safe ⟨by decide, by decide⟩ le_rfl true _

end Msm8998
