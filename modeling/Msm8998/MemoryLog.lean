import Msm8998.AttributeRuns
import Msm8998.CircularLog

/-!
# The Log in Memory and the Mapping of Its Window

`InMemorySerialPortLib` writes what is printed into a window of memory, round and round, and
`InitPeripherals` of `msm8998Dxe` maps this window, and the framebuffer, with types of their own.

The CPU driver whose protocol `InitPeripherals` calls is not part of the platform. It is a
parameter, of which is assumed that it changes a region only through `ArmSetMemoryAttributes`
(`CpuDriver`). The cache maintenance of `mem_putchar` does not change the memory.

## Main results

* `serialPortWrite_log`: what any sequence of writes leaves in memory;
* `initPeripherals_maps`: how the two windows are mapped before and after `InitPeripherals`.
-/

namespace Msm8998

namespace MemoryLog

/-! ### The log -/

/-- `base` and `size` of `mem_putchar`. -/
def base : ℕ := 0xa1a10000
def size : ℕ := 0x200000

/-- `mem_putchar`, with its static `offset`. -/
def memPutchar (l : CircularLog UInt8) (c : UInt8) : CircularLog UInt8 := l.put base size c

/-- `SerialPortWrite`: the number of bytes it returns, and the memory after it. -/
def serialPortWrite (l : CircularLog UInt8) (buffer : List UInt8) : ℕ × CircularLog UInt8 :=
  (buffer.length, buffer.foldl memPutchar l)

/-- A sequence of writes. -/
def serialPortWrites (l : CircularLog UInt8) (buffers : List (List UInt8)) : CircularLog UInt8 :=
  buffers.foldl (fun l buffer => (serialPortWrite l buffer).2) l

/-- Writes one after the other store all their bytes one after the other. -/
theorem serialPortWrites_eq (l : CircularLog UInt8) (buffers : List (List UInt8)) :
    serialPortWrites l buffers = l.putAll base size buffers.flatten := by
  rw [serialPortWrites, CircularLog.putAll, List.foldl_flatten]
  rfl

/-- **What any sequence of writes leaves in memory.** The offset stays in the window and nothing
outside of it changes. Of all the bytes that were written, the last ones, as many as the window
has cells, stand in their order; a cell that no byte has reached is as before. -/
theorem serialPortWrite_log {l : CircularLog UInt8} (h : l.offset < size)
    (buffers : List (List UInt8)) :
    (serialPortWrites l buffers).offset < size ∧
      (∀ x, ¬ (base ≤ x ∧ x < base + size) →
        (serialPortWrites l buffers).memory x = l.memory x) ∧
      (∀ i, ∀ hi : i < buffers.flatten.length, buffers.flatten.length ≤ i + size →
        (serialPortWrites l buffers).memory (base + (l.offset + i) % size) =
          buffers.flatten[i]) ∧
      ∀ j < size, (∀ i < buffers.flatten.length, (l.offset + i) % size ≠ j) →
        (serialPortWrites l buffers).memory (base + j) = l.memory (base + j) := by
  rw [serialPortWrites_eq]
  refine ⟨?_, fun x hx => CircularLog.putAll_outside h _ hx, fun i hi hrecent => ?_,
    fun j _ hj => CircularLog.putAll_untouched h hj⟩
  · rw [CircularLog.putAll_offset h]
    exact Nat.mod_lt _ (by omega)
  · exact CircularLog.putAll_recent h hi hrecent

/-- The second byte of a first message. -/
theorem serialPortWrite_log_boot :
    (serialPortWrites ⟨fun _ => 0, 0⟩ [[72, 105], [10]]).memory (base + 1) = 105 :=
  (serialPortWrite_log (by decide) [[72, 105], [10]]).2.2.1 1 (by decide) (by decide)

/-! ### The windows -/

/-- The window of the log, and the one of the framebuffer. -/
def logSpan : Span := ⟨base, size⟩
def displaySpan : Span := ⟨0x9d400000, 0x2400000⟩

theorem log_typed : (efiMemoryUc ||| efiMemoryXp) &&& efiMemoryCachetypeMask ≠ 0 := by decide
theorem display_typed : (efiMemoryWc ||| efiMemoryXp) &&& efiMemoryCachetypeMask ≠ 0 := by decide

/-- `SetMemoryAttributes` of a CPU protocol: base address, length and attributes. -/
abbrev SetMemoryAttributes := ℕ → ℕ → ℕ → MmuState → Except Halt EfiStatus × MmuState

/-- `InitPeripherals`, with what the two calls return. An assertion that fails only prints:
`PcdDebugPropertyMask` enables neither its breakpoint nor its dead loop. -/
def initPeripherals (setMemoryAttributes : SetMemoryAttributes) (st : MmuState) :
    Except Halt (EfiStatus × EfiStatus) × MmuState :=
  match setMemoryAttributes 0xa1a10000 0x200000 (efiMemoryUc ||| efiMemoryXp) st with
  | (.error e, st) => (.error e, st)
  | (.ok log, st) =>
      match setMemoryAttributes 0x9d400000 0x2400000 (efiMemoryWc ||| efiMemoryXp) st with
      | (.error e, st) => (.error e, st)
      | (.ok display, st) => (.ok (log, display), st)

/-- **What is assumed of the CPU driver.** A call runs `ArmSetMemoryAttributes` on the region, or
it leaves everything as it is. It does the latter with success only where the whole region has
the attributes already. -/
structure CpuDriver (alloc : ℕ → Option ℕ) (fuel : ℕ) (el : ExceptionLevel)
    (setMemoryAttributes : SetMemoryAttributes) : Prop where
  call : ∀ baseAddress length attributes st,
    setMemoryAttributes baseAddress length attributes st =
        armSetMemoryAttributes alloc fuel el baseAddress length st attributes ∨
      ∃ status, setMemoryAttributes baseAddress length attributes st = (.ok status, st) ∧
        (status = .success → ∀ x, baseAddress ≤ x → x < baseAddress + length →
          st.walk x = some ⟨x, gcdAttributeToPageAttribute el attributes⟩)

/-- The execute-never bits of an exception level. -/
def neverExecute (el : ExceptionLevel) : ℕ :=
  if el = .el2 then ttXnMask else ttUxnMask ||| ttPxnMask

/-- The attributes of the log. -/
theorem log_pageAttribute (el : ExceptionLevel) :
    gcdAttributeToPageAttribute el (efiMemoryUc ||| efiMemoryXp) =
      ttAttrIndxDeviceMemory ||| neverExecute el ||| ttAf := by
  cases el <;> decide

/-- The attributes of the display memory. -/
theorem display_pageAttribute (el : ExceptionLevel) :
    gcdAttributeToPageAttribute el (efiMemoryWc ||| efiMemoryXp) =
      ttAttrIndxMemoryNonCacheable ||| neverExecute el ||| ttAf := by
  cases el <;> decide

/-- In every build and with every size of memory, the last row that meets the window of the log
is a RAM Partition. -/
theorem log_lastMeeting : ∀ lg nb, ∀ mem ∈ memSizes,
    ∃ ram ∈ (peimRun ⟨lg, nb⟩ mem).memoryTable,
      ram.attributes = .writeBack ∧ logSpan.Subset ram.span ∧
        Span.lastMeeting ArmMemoryRegionDescriptor.span (peimRun ⟨lg, nb⟩ mem).memoryTable
          ram.span = some ram := by
  decide +kernel

/-- In every build the display memory lies in one row, which no later row meets. -/
theorem display_lastMeeting : ∀ lg nb, ∀ mem ∈ memSizes,
    ∃ row ∈ (peimRun ⟨lg, nb⟩ mem).memoryTable,
      row.attributes = .writeThrough ∧ displaySpan.Subset row.span ∧
        Span.lastMeeting ArmMemoryRegionDescriptor.span (peimRun ⟨lg, nb⟩ mem).memoryTable
          row.span = some row := by
  decide +kernel

/-- A window in the last row that meets it is mapped as this row says. -/
theorem mappedBy_window {el : ExceptionLevel} {table : List ArmMemoryRegionDescriptor}
    {window : Span} {attributes : ArmMemoryRegionAttributes}
    (h : ∃ row ∈ table, row.attributes = attributes ∧ window.Subset row.span ∧
      Span.lastMeeting ArmMemoryRegionDescriptor.span table row.span = some row) {x : ℕ}
    (hx : window.Mem x) : mappedBy el table x = some ⟨x, pageAttributes el attributes⟩ := by
  obtain ⟨row, -, hattr, hsub, hlast⟩ := h
  rw [mappedBy, Span.lastCovering_of_lastMeeting hlast (hsub.mem hx), Option.map_some, hattr]

section Mapping

variable {alloc : ℕ → Option ℕ} {fuel bits : ℕ} {el : ExceptionLevel} {flags : BuildFlags}
  {banks : List FdtBank} {r : PeimResult} {st₀ st : MmuState}
  {setMemoryAttributes : SetMemoryAttributes}

/-- **One call of the driver** with a memory type returns. It changes nothing outside of its
window, and it maps the window as asked for when it succeeds. -/
theorem CpuDriver.call_spec (hcpu : CpuDriver alloc fuel el setMemoryAttributes)
    (hfresh : FreshAlloc alloc) (hfuel : 2 ^ 36 < fuel) (htable : SecureTable alloc st)
    {attributes : ℕ} (typed : attributes &&& efiMemoryCachetypeMask ≠ 0) (window : Span)
    (hend : window.base + window.length ≤ 2 ^ st.config.width) (hbase : window.base ≠ 0) :
    ∃ status st', setMemoryAttributes window.base window.length attributes st =
        (.ok status, st') ∧
      SecureTable alloc st' ∧ st'.config = st.config ∧
      (status = .success → ∀ x, window.Mem x →
        st'.walk x = some ⟨x, gcdAttributeToPageAttribute el attributes⟩) ∧
      ∀ x, ¬ window.Mem x → st'.walk x = st.walk x := by
  rcases hcpu.call window.base window.length attributes st with hcall | ⟨status, hcall, hkept⟩
  · have hrange : RegionCall.InRange st.config.width
        ⟨.memoryAttributes attributes typed, window.base, window.length⟩ :=
      ⟨hend, fun h => absurd h hbase⟩
    obtain ⟨status, st', hrun, htable', hconfig, hstep⟩ :=
      RegionCall.run_spec el hfresh hfuel htable hrange
    refine ⟨status, st', hcall.trans hrun, htable', hconfig, fun hok x hx => ?_, fun x hx => ?_⟩
    · subst hok
      rw [htable'.walk_eq, hstep.memoryAttributes hx.1 hx.2]
      rfl
    · rw [htable'.walk_eq, hstep.untouched hx, ← htable.walk_eq]
  · exact ⟨status, st, hcall, htable, rfl, fun hok x hx => hkept hok x hx.1 hx.2, fun _ _ => rfl⟩

/-- **The two calls** on a live table, one after the other. -/
theorem initPeripherals_spec (hcpu : CpuDriver alloc fuel el setMemoryAttributes)
    (hfresh : FreshAlloc alloc) (hfuel : 2 ^ 36 < fuel) (htable : SecureTable alloc st)
    (hwidth : 32 ≤ st.config.width) :
    ∃ log display st', initPeripherals setMemoryAttributes st = (.ok (log, display), st') ∧
      (log = .success → ∀ x, logSpan.Mem x →
        st'.walk x = some ⟨x, ttAttrIndxDeviceMemory ||| neverExecute el ||| ttAf⟩) ∧
      (display = .success → ∀ x, displaySpan.Mem x →
        st'.walk x = some ⟨x, ttAttrIndxMemoryNonCacheable ||| neverExecute el ||| ttAf⟩) ∧
      ∀ x, ¬ logSpan.Mem x → ¬ displaySpan.Mem x → st'.walk x = st.walk x := by
  have hwide : 2 ^ 32 ≤ 2 ^ st.config.width := Nat.pow_le_pow_right (by omega) hwidth
  obtain ⟨log, st₁, hlogrun, htable₁, hconfig, hlog, hlogother⟩ :=
    hcpu.call_spec hfresh hfuel htable log_typed logSpan (le_trans (by decide) hwide) (by decide)
  obtain ⟨display, st₂, hdisplayrun, -, -, hdisplay, hdisplayother⟩ :=
    hcpu.call_spec hfresh hfuel htable₁ display_typed displaySpan
      (hconfig ▸ le_trans (by decide) hwide) (by decide)
  refine ⟨log, display, st₂, ?_, fun hok x hx => ?_, fun hok x hx => ?_, fun x hlogx hx => ?_⟩
  · rw [logSpan, base, size] at hlogrun
    rw [displaySpan] at hdisplayrun
    rw [initPeripherals, hlogrun]
    dsimp only
    rw [hdisplayrun]
  · -- the second call is on another window
    have hother : ¬ displaySpan.Mem x := by
      rintro ⟨-, hlt⟩
      have hge : 0xa1a10000 ≤ x := hx.1
      exact absurd (lt_of_le_of_lt hge hlt) (by decide)
    rw [hdisplayother x hother, hlog hok x hx, log_pageAttribute]
  · rw [hdisplay hok x hx, display_pageAttribute]
  · rw [hdisplayother x hx, hlogother x hlogx]

/-- **How the windows are mapped.** Before `InitPeripherals` the window of the log is write-back
memory and the framebuffer is write-through. Each of the two calls that succeeds makes its window
device memory and memory without a cache, never to be executed from, and nothing else changes,
whatever allocations fail. The CPU driver is any that is a `CpuDriver`. -/
theorem initPeripherals_maps (hbits : 34 ≤ bits) (hel : el ≠ .el3) (hfresh : FreshAlloc alloc)
    (hfuel : 2 ^ 36 < fuel) (hr : memoryPeim (getPlatformMemoryMap flags) banks = some r)
    (hcpu : CpuDriver alloc fuel el setMemoryAttributes) :
    ∃ res st, armConfigureMmu alloc fuel el bits r.memoryTable st₀ = (res, st) ∧
      (¬ AllocFailed alloc st₀ st → res = .ok .success) ∧
      (res = .ok .success →
        (∀ x, logSpan.Mem x → st.walk x = some ⟨x, pageAttributes el .writeBack⟩) ∧
        (∀ x, displaySpan.Mem x → st.walk x = some ⟨x, pageAttributes el .writeThrough⟩) ∧
        ∃ log display st',
          initPeripherals setMemoryAttributes st = (.ok (log, display), st') ∧
          (log = .success → ∀ x, logSpan.Mem x →
            st'.walk x = some ⟨x, ttAttrIndxDeviceMemory ||| neverExecute el ||| ttAf⟩) ∧
          (display = .success → ∀ x, displaySpan.Mem x →
            st'.walk x = some ⟨x, ttAttrIndxMemoryNonCacheable ||| neverExecute el ||| ttAf⟩) ∧
          ∀ x, ¬ logSpan.Mem x → ¬ displaySpan.Mem x → st'.walk x = st.walk x) := by
  refine ⟨_, _, (Prod.eta (armConfigureMmu alloc fuel el bits r.memoryTable st₀)).symm,
    fun hok => ?_, fun hres => ?_⟩
  · obtain ⟨st', hrun, -⟩ := memoryPeim_maps hbits hel hfresh hfuel hr hok
    rw [hrun]
  obtain ⟨hsecure, hwidth, hwalk⟩ :=
    memoryPeim_configured hbits hel hfresh hfuel hr (Prod.ext hres rfl)
  have hwide : 32 ≤ addressWidth bits := le_min (by omega) (by omega)
  have hcalls := initPeripherals_spec hcpu hfresh hfuel hsecure (hwidth ▸ hwide)
  have hmem := selectMem_mem_memSizes (memoryTotal banks)
  rw [memoryPeim_platformMap] at hr
  obtain rfl := Option.some.inj hr
  refine ⟨fun x hx => ?_, fun x hx => ?_, hcalls⟩
  · rw [hwalk]
    exact mappedBy_window (log_lastMeeting flags.lgPilFixed flags.nb1Fixed _ hmem) hx
  · rw [hwalk]
    exact mappedBy_window (display_lastMeeting flags.lgPilFixed flags.nb1Fixed _ hmem) hx

end Mapping

/-- A phone whose memory is not described, with a CPU driver that makes the call. -/
theorem initPeripherals_maps_empty : ∃ res st,
    armConfigureMmu manyPages (2 ^ 36 + 1) .el1 36
        (peimRun ⟨false, false⟩ (selectMem (memoryTotal []))).memoryTable blankState = (res, st) ∧
      (¬ AllocFailed manyPages blankState st → res = .ok .success) ∧
      (res = .ok .success →
        (∀ x, logSpan.Mem x → st.walk x = some ⟨x, pageAttributes .el1 .writeBack⟩) ∧
        (∀ x, displaySpan.Mem x → st.walk x = some ⟨x, pageAttributes .el1 .writeThrough⟩) ∧
        ∃ log display st',
          initPeripherals (fun baseAddress length attributes st =>
            armSetMemoryAttributes manyPages (2 ^ 36 + 1) .el1 baseAddress length st attributes)
            st = (.ok (log, display), st') ∧
          (log = .success → ∀ x, logSpan.Mem x →
            st'.walk x = some ⟨x, ttAttrIndxDeviceMemory ||| neverExecute .el1 ||| ttAf⟩) ∧
          (display = .success → ∀ x, displaySpan.Mem x →
            st'.walk x = some ⟨x, ttAttrIndxMemoryNonCacheable ||| neverExecute .el1 ||| ttAf⟩) ∧
          ∀ x, ¬ logSpan.Mem x → ¬ displaySpan.Mem x → st'.walk x = st.walk x) :=
  initPeripherals_maps (by decide : 34 ≤ 36) (by decide) freshAlloc_manyPages
    (Nat.lt_succ_self (2 ^ 36)) (memoryPeim_platformMap ⟨false, false⟩ [])
    ⟨fun _ _ _ _ => .inl rfl⟩

end MemoryLog

end Msm8998
