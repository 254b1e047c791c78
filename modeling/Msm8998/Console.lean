import Mathlib.Logic.Function.Iterate
import Msm8998.PageDescriptor

/-!
# The Framebuffer Console

This module models `FrameBufferSerialPortLib`: the console that paints the debug output
of the firmware into the framebuffer. The library keeps a cursor, two colors and a flag
in globals, changes the interrupt state of the processor, and has no other effect than
the bytes it stores into the framebuffer.

Every effect outside the globals is an `Event` of a trace: a byte stored, a word of the
font read, an interrupt call. Loops that run a fixed number of times are iterates of
their body. The only loop whose length depends on the state is `goto paint`, which
carries fuel.

A jump into the block of a local variable leaves that variable unset, so what is read
from it is the next value of an arbitrary stream `junk`.

Arithmetic of type `unsigned` is modulo `2 ^ 32` and of type `UINTN` modulo `2 ^ 64`. The
cursor is a pair of `INTN` values that stay far below `2 ^ 63`, taken as integers. The
flush of the data cache is left out.
-/

namespace Msm8998

/-- Subtraction of `unsigned` values. -/
def sub32 (a b : ℕ) : ℕ := (a + 2 ^ 32 - b) % 2 ^ 32

/-- The framebuffer that the platform configures: `PcdMipiFrameBufferAddress`, `gWidth`,
`gHeight` and `gBpp`, all read from `UINT32` settings, and the framebuffer lies in the
address space. -/
structure FrameBuffer where
  base : ℕ
  width : ℕ
  height : ℕ
  bpp : ℕ
  base_lt : base < 2 ^ 32
  width_lt : width < 2 ^ 32
  height_lt : height < 2 ^ 32
  bpp_lt : bpp < 2 ^ 32
  fits : base + width * height * (bpp / 8) ≤ 2 ^ 64

/-- The number of bytes of the framebuffer. -/
def FrameBuffer.size (fb : FrameBuffer) : ℕ := fb.width * fb.height * (fb.bpp / 8)

def fontWidth : ℕ := 5
def fontHeight : ℕ := 12
def scaleFactor : ℕ := 2

/-- The font: two words for each character from space on. -/
def font5x12 : List ℕ :=
  [0x00000000, 0x00000000, 0x08421080, 0x00020084, 0x00052940, 0x00000000,
   0x15f52800, 0x0000295f, 0x1c52f880, 0x00023e94, 0x08855640, 0x0004d542,
   0x04528800, 0x000b2725, 0x00021080, 0x00000000, 0x04211088, 0x00821042,
   0x10841082, 0x00221108, 0x09575480, 0x00000000, 0x3e420000, 0x00000084,
   0x00000000, 0x00223000, 0x3e000000, 0x00000000, 0x00000000, 0x00471000,
   0x08844200, 0x00008442, 0x2318a880, 0x00022a31, 0x08429880, 0x000f9084,
   0x1108c5c0, 0x000f8444, 0x1c4443e0, 0x00074610, 0x14a62100, 0x000423e9,
   0x26d087e0, 0x00074610, 0x1e10c5c0, 0x00074631, 0x088443e0, 0x00010844,
   0x1d18c5c0, 0x00074631, 0x3d18c5c0, 0x00074610, 0x08e20000, 0x00471000,
   0x08e20000, 0x00223000, 0x02222200, 0x00082082, 0x01f00000, 0x000003e0,
   0x20820820, 0x00008888, 0x1108c5c0, 0x00020084, 0x2b98c5c0, 0x000f05b5,
   0x2318a880, 0x0008c63f, 0x1d2949e0, 0x0007ca52, 0x0210c5c0, 0x00074421,
   0x252949e0, 0x0007ca52, 0x1e1087e0, 0x000f8421, 0x1e1087e0, 0x00008421,
   0x0210c5c0, 0x00074639, 0x3f18c620, 0x0008c631, 0x084211c0, 0x00071084,
   0x10842380, 0x00032508, 0x0654c620, 0x0008c525, 0x02108420, 0x000f8421,
   0x2b5dc620, 0x0008c631, 0x2b59ce20, 0x0008c739, 0x2318c5c0, 0x00074631,
   0x1f18c5e0, 0x00008421, 0x2318c5c0, 0x01075631, 0x1f18c5e0, 0x0008c525,
   0x1c10c5c0, 0x00074610, 0x084213e0, 0x00021084, 0x2318c620, 0x00074631,
   0x1518c620, 0x0002114a, 0x2b18c620, 0x000556b5, 0x08a54620, 0x0008c54a,
   0x08a54620, 0x00021084, 0x088443e0, 0x000f8442, 0x0421084e, 0x00e10842,
   0x08210420, 0x00084108, 0x1084210e, 0x00e42108, 0x0008a880, 0x00000000,
   0x00000000, 0x01f00000, 0x00000104, 0x00000000, 0x20e00000, 0x000b663e,
   0x22f08420, 0x0007c631, 0x22e00000, 0x00074421, 0x23e84200, 0x000f4631,
   0x22e00000, 0x0007443f, 0x1e214980, 0x00010842, 0x22e00000, 0x1d187a31,
   0x26d08420, 0x0008c631, 0x08601000, 0x00071084, 0x10c02000, 0x0c94a108,
   0x0a908420, 0x0008a4a3, 0x084210c0, 0x00071084, 0x2ab00000, 0x0008d6b5,
   0x26d00000, 0x0008c631, 0x22e00000, 0x00074631, 0x22f00000, 0x0210be31,
   0x23e00000, 0x21087a31, 0x26d00000, 0x00008421, 0x22e00000, 0x00074506,
   0x04f10800, 0x00064842, 0x23100000, 0x000b6631, 0x23100000, 0x00022951,
   0x23100000, 0x000556b5, 0x15100000, 0x0008a884, 0x23100000, 0x1d185b31,
   0x11f00000, 0x000f8444, 0x06421098, 0x01821084, 0x08421080, 0x00021084,
   0x30421083, 0x00321084, 0x0004d640, 0x00000000, 0x00000000, 0x00000000]

def fbBgra8888Black : ℕ := 0xff000000
def fbBgra8888White : ℕ := 0xffffffff
def fbBgra8888Yellow : ℕ := 0xffffff00

/-- `FbConMsgType`: the three kinds of message the console distinguishes. -/
inductive FbConMsgType
  | common | title | subtitle
deriving Repr, DecidableEq

/-- What the console does outside its globals. -/
inductive Event
  | store (address byte : ℕ)
  | glyphRead (index : ℕ)
  | disableInterrupts
  | enableInterrupts
deriving Repr, DecidableEq

/-! ### Painting -/

/-- A pointer into the framebuffer and the trace so far. -/
structure Pen where
  pixels : ℕ
  trace : List Event

/-- Store the low byte of a color, and shift it. -/
def paintByte (s : Pen × ℕ) : Pen × ℕ :=
  (⟨s.1.pixels + 1, s.1.trace ++ [.store s.1.pixels (s.2 % 256)]⟩, s.2 >>> 8)

/-- Paint one pixel of `bpp` bytes. -/
def paintPixel (bpp color : ℕ) (pen : Pen) : Pen := (paintByte^[bpp] (pen, color)).1

/-- Move the pointer without painting. -/
def skip (bytes : ℕ) (pen : Pen) : Pen := { pen with pixels := pen.pixels + bytes }

/-- `ResetFb`: paint the whole framebuffer black. -/
def resetFb (fb : FrameBuffer) (trace : List Event) : List Event :=
  ((fun pen => (paintPixel (fb.bpp / 8) fbBgra8888Black)^[fb.height] pen)^[fb.width]
    ⟨fb.base, trace⟩).trace

/-- One of the two background loops of `FbConDrawglyph`. -/
def backgroundHalf (bpp lineSkip scale color : ℕ) (pen : Pen) : Pen :=
  (fun pen =>
    (fun pen =>
      skip lineSkip
        ((fun pen => (paintPixel bpp color)^[scale] pen)^[fontWidth] pen))^[scale]
      pen)^[fontHeight / 2]
    pen

/-- One column of a glyph line: paint or skip it, and go to the next bit of `data`. -/
def foregroundColumn (bpp scale color : ℕ) (s : Pen × ℕ) : Pen × ℕ :=
  (if s.2 &&& 1 ≠ 0 then (paintPixel bpp color)^[scale] s.1 else (skip bpp)^[scale] s.1,
    s.2 >>> 1)

/-- One pixel row of a glyph line, which starts again at the bits of `temp`. -/
def foregroundRow (bpp lineSkip scale color temp : ℕ) (s : Pen × ℕ) : Pen × ℕ :=
  let s := (foregroundColumn bpp scale color)^[fontWidth] (s.1, temp)
  (skip lineSkip s.1, s.2)

/-- One of the two foreground loops of `FbConDrawglyph`. -/
def foregroundHalf (bpp lineSkip scale color data : ℕ) (pen : Pen) : Pen :=
  ((fun s => (foregroundRow bpp lineSkip scale color s.2)^[scale] s)^[fontHeight / 2]
    (pen, data)).1

/-- The console colors. -/
structure FbconColor where
  foreground : ℕ
  background : ℕ
deriving Repr, DecidableEq

/-- `FbConDrawglyph` for any two words at the pointer `glyph`. -/
def fbConDrawglyphOf (pixels stride bpp glyph : ℕ) (words : ℕ × ℕ) (scale : ℕ)
    (color : FbconColor) (trace : List Event) : List Event :=
  let lineSkip := sub32 stride (fontWidth * scale) * bpp % 2 ^ 32
  let background := color.background % 2 ^ 32
  let foreground := color.foreground % 2 ^ 32
  let pen : Pen := ⟨pixels, trace⟩
  let pen := backgroundHalf bpp lineSkip scale background pen
  let pen := backgroundHalf bpp lineSkip scale background pen
  let pen : Pen := ⟨pixels, pen.trace ++ [.glyphRead glyph]⟩
  let pen := foregroundHalf bpp lineSkip scale foreground words.1 pen
  let pen : Pen := ⟨pen.pixels, pen.trace ++ [.glyphRead (glyph + 1)]⟩
  (foregroundHalf bpp lineSkip scale foreground words.2 pen).trace

/-- The two words of the font at an index. -/
def glyphWords (glyph : ℕ) : ℕ × ℕ := (font5x12.getD glyph 0, font5x12.getD (glyph + 1) 0)

/-- `FbConDrawglyph` as the console calls it; the glyph is an index into the font. -/
def fbConDrawglyph (pixels stride bpp glyph scale : ℕ) (color : FbconColor)
    (trace : List Event) : List Event :=
  fbConDrawglyphOf pixels stride bpp glyph (glyphWords glyph) scale color trace

/-! ### The console state -/

/-- A position on the character grid. -/
structure FbconPosition where
  x : ℤ
  y : ℤ
deriving Repr, DecidableEq

/-- The globals of the library, the interrupt state of the processor, the number of values
taken from unset variables, and the trace. -/
structure FbCon where
  position : FbconPosition
  maxPosition : FbconPosition
  color : FbconColor
  initialized : Bool
  interrupts : Bool
  junkReads : ℕ
  trace : List Event

/-- The library before its first call. -/
def powerOn (interrupts : Bool) : FbCon :=
  ⟨⟨0, 0⟩, ⟨0, 0⟩, ⟨0, 0⟩, false, interrupts, 0, []⟩

/-- `ArmDisableInterrupts`. -/
def armDisableInterrupts (st : FbCon) : FbCon :=
  { st with interrupts := false, trace := st.trace ++ [.disableInterrupts] }

/-- `if (InterruptState) ArmEnableInterrupts ();` -/
def restoreInterrupts (interruptState : Bool) (st : FbCon) : FbCon :=
  if interruptState then
    { st with interrupts := true, trace := st.trace ++ [.enableInterrupts] }
  else st

@[simp] theorem restoreInterrupts_position (i : Bool) (st : FbCon) :
    (restoreInterrupts i st).position = st.position := by cases i <;> rfl

@[simp] theorem restoreInterrupts_maxPosition (i : Bool) (st : FbCon) :
    (restoreInterrupts i st).maxPosition = st.maxPosition := by cases i <;> rfl

@[simp] theorem restoreInterrupts_color (i : Bool) (st : FbCon) :
    (restoreInterrupts i st).color = st.color := by cases i <;> rfl

@[simp] theorem restoreInterrupts_initialized (i : Bool) (st : FbCon) :
    (restoreInterrupts i st).initialized = st.initialized := by cases i <;> rfl

@[simp] theorem restoreInterrupts_interrupts (i : Bool) (st : FbCon) :
    (restoreInterrupts i st).interrupts = (i || st.interrupts) := by cases i <;> rfl

/-- `m_MaxPosition` as `FbConReset` computes it. -/
def maxPositionOf (fb : FrameBuffer) : FbconPosition :=
  ⟨(fb.width / (fontWidth + 1) : ℕ), (sub64 fb.height 1 / fontHeight : ℕ)⟩

/-- `FbConReset`. -/
def fbConReset (fb : FrameBuffer) (st : FbCon) : FbCon :=
  { st with
    position := ⟨0, 0⟩
    maxPosition := maxPositionOf fb
    color := ⟨fbBgra8888White, fbBgra8888Black⟩ }

/-- `SerialPortInitialize`. -/
def serialPortInitialize (fb : FrameBuffer) (st : FbCon) : FbCon :=
  if st.initialized then st
  else
    let interruptState := st.interrupts
    let st := armDisableInterrupts st
    let st := fbConReset fb st
    restoreInterrupts interruptState { st with initialized := true }

/-! ### Putting a character -/

/-- How one pass from the label `paint` ends: by returning, or by jumping back to it. -/
inductive Pass
  | done (st : FbCon)
  | again (st : FbCon)

/-- The code from the label `newline` on, for a value of `intstate`. -/
def newline (fb : FrameBuffer) (intstate : Bool) (scale : ℕ) (st : FbCon) : Pass :=
  let st := { st with position := ⟨0, st.position.y + (scale : ℤ)⟩ }
  if st.position.y ≥ st.maxPosition.y - (scale : ℤ) then
    let st := { st with trace := resetFb fb st.trace, position := ⟨st.position.x, 0⟩ }
    .again (restoreInterrupts intstate st)
  else
    .done (restoreInterrupts intstate st)

/-- The address at which the glyph at the cursor is drawn. -/
def glyphAddress (fb : FrameBuffer) (scale : ℕ) (position : FbconPosition) : ℕ :=
  fb.base
    + (position.y * (fb.bpp / 8 * fontHeight * fb.width : ℕ) % 2 ^ 64).toNat
    + (position.x * (scale : ℤ) * (fb.bpp / 8 * (fontWidth + 1) : ℕ) % 2 ^ 64).toNat

/-- One pass of `FbConPutCharWithFactor` from the label `paint` on. -/
def paintPass (fb : FrameBuffer) (junk : ℕ → Bool) (c : UInt8) (type : FbConMsgType)
    (scale : ℕ) (st : FbCon) : Pass :=
  if c.toNat > 127 then .done st
  else if c.toNat < 32 then
    if c.toNat = 10 then
      -- the declaration of `intstate` is jumped over
      newline fb (junk st.junkReads) scale { st with junkReads := st.junkReads + 1 }
    else if c.toNat = 13 then .done { st with position := ⟨0, st.position.y⟩ }
    else .done st
  else if st.position.x = 0 ∧ c.toNat = 32 ∧ type ≠ .subtitle ∧ type ≠ .title then .done st
  else
    let intstate := st.interrupts
    let st := armDisableInterrupts st
    let st := { st with
      trace := fbConDrawglyph (glyphAddress fb scale st.position) (fb.width % 2 ^ 32)
        (fb.bpp / 8 % 2 ^ 32) ((c.toNat - 32) * 2) scale st.color st.trace }
    let st := { st with position := ⟨st.position.x + 1, st.position.y⟩ }
    if st.position.x ≥ st.maxPosition.x / (scale : ℤ) then newline fb intstate scale st
    else .done (restoreInterrupts intstate st)

/-- The `goto paint` loop. -/
def paintLoop (fb : FrameBuffer) (junk : ℕ → Bool) (c : UInt8) (type : FbConMsgType)
    (scale : ℕ) : ℕ → FbCon → Option FbCon
  | 0, _ => none
  | fuel + 1, st =>
      match paintPass fb junk c type scale st with
      | .done st => some st
      | .again st => paintLoop fb junk c type scale fuel st

/-- `FbConPutCharWithFactor`. -/
def fbConPutCharWithFactor (fb : FrameBuffer) (junk : ℕ → Bool) (fuel : ℕ) (c : UInt8)
    (type : FbConMsgType) (scale : ℕ) (st : FbCon) : Option FbCon :=
  if st.initialized then paintLoop fb junk c type scale fuel st else some st

/-! ### Writing a buffer -/

/-- The `while` loop of `SerialPortWrite` and `SerialPortWriteCritical`. -/
def writeBytes (fb : FrameBuffer) (junk : ℕ → Bool) (fuel : ℕ) :
    List UInt8 → FbCon → Option FbCon
  | [], st => some st
  | c :: buffer, st =>
      (fbConPutCharWithFactor fb junk fuel c .common scaleFactor st).bind
        (writeBytes fb junk fuel buffer)

/-- `SerialPortWrite`. -/
def serialPortWrite (fb : FrameBuffer) (junk : ℕ → Bool) (fuel : ℕ) (buffer : List UInt8)
    (st : FbCon) : Option (ℕ × FbCon) :=
  let interruptState := st.interrupts
  let st := armDisableInterrupts st
  (writeBytes fb junk fuel buffer st).map fun st =>
    (buffer.length, restoreInterrupts interruptState st)

/-- `SerialPortWriteCritical`. -/
def serialPortWriteCritical (fb : FrameBuffer) (junk : ℕ → Bool) (fuel : ℕ)
    (buffer : List UInt8) (st : FbCon) : Option (ℕ × FbCon) :=
  let currentForeground := st.color.foreground
  let interruptState := st.interrupts
  let st := armDisableInterrupts st
  let st := { st with color := ⟨fbBgra8888Yellow, st.color.background⟩ }
  (writeBytes fb junk fuel buffer st).map fun st =>
    let st := { st with color := ⟨currentForeground, st.color.background⟩ }
    (buffer.length, restoreInterrupts interruptState st)

/-- The calls a client can make. -/
inductive Call
  | init
  | write (buffer : List UInt8)
  | writeCritical (buffer : List UInt8)
deriving Repr, DecidableEq

/-- The state after a call, if it returns. -/
def runCall (fb : FrameBuffer) (junk : ℕ → Bool) (fuel : ℕ) (st : FbCon) : Call → Option FbCon
  | .init => some (serialPortInitialize fb st)
  | .write buffer => (serialPortWrite fb junk fuel buffer st).map (·.2)
  | .writeCritical buffer => (serialPortWriteCritical fb junk fuel buffer st).map (·.2)

/-- The state after a sequence of calls, if all of them return. -/
def runCalls (fb : FrameBuffer) (junk : ℕ → Bool) (fuel : ℕ) : List Call → FbCon → Option FbCon
  | [], st => some st
  | call :: calls, st => (runCall fb junk fuel st call).bind (runCalls fb junk fuel calls)

end Msm8998
