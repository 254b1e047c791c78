import Msm8998.TouchDriver

/-!
# When the Touch Driver Goes Live

The probe loop ends in one of four ways, and the code after it tells them apart by the
loop variables alone. Reading a blank entry at the top of a page (the end of the page
list) leaves these as they are when an entry with function `F12` is found, so such a
controller is driven as if it had one, with page `0` and data address `0`.

## Main results

* `probeStep_spec`: what one pass does, from a state that has read `n` entries.
* `probeLoop_spec`: how the loop ends, together with what that says of the controller.
* `bindingStart_liveOnF12_iff`: a driver that goes live has found its `F12` entry, its page
  and its data address, except on a controller whose page list ends before any `F12`.
-/

namespace Msm8998

namespace Touch

/-! ### What the controller answers -/

/-- The `n`-th read gives an entry without a function. -/
def Blank (env : Env) (n : ℕ) : Prop := (env.read n).map (·.function) = some 0

instance (env : Env) : DecidablePred (Blank env) :=
  fun n => inferInstanceAs (Decidable ((env.read n).map (·.function) = some 0))

/-- The `n`-th read is the first of its page. -/
def FirstOnPage (env : Env) (n : ℕ) : Prop := n = 0 ∨ Blank env (n - 1)

instance (env : Env) (n : ℕ) : Decidable (FirstOnPage env n) :=
  inferInstanceAs (Decidable (n = 0 ∨ Blank env (n - 1)))

/-- Page switches made before the `n`-th read. -/
def pagesLeft (env : Env) (n : ℕ) : ℕ := Nat.count (Blank env) n

/-- Functions passed over before the `n`-th read. -/
def functionsSeen (env : Env) (n : ℕ) : ℕ := Nat.count (fun k => ¬ Blank env k) n

/-- The first `n` reads keep the driver looking: each gives an entry other than `F12`, none
ends the page list, every page switch between them works, and fewer than ten functions have
been passed over. -/
structure Walked (env : Env) (n : ℕ) : Prop where
  described : ∀ k < n, ∃ d, env.read k = some d ∧ d.function ≠ touchRmiF12Function ∧
    ¬ (Blank env k ∧ FirstOnPage env k)
  switched : ∀ w < pagesLeft env n, env.write w = true
  room : functionsSeen env n < 10

/-- The page list ends at the `n`-th read, before any `F12` entry. -/
structure EndsAt (env : Env) (n : ℕ) : Prop where
  walked : Walked env n
  blank : Blank env n
  first : FirstOnPage env n

/-- Before the first read. -/
theorem Walked.zero (env : Env) : Walked env 0 where
  described k hk := absurd hk (Nat.not_lt_zero k)
  switched w hw := by simp only [pagesLeft, Nat.count_zero, Nat.not_lt_zero] at hw
  room := by simp [functionsSeen]

/-- A walk of some reads is one of fewer. -/
theorem Walked.mono {env : Env} {m n : ℕ} (h : Walked env n) (hmn : m ≤ n) :
    Walked env m where
  described k hk := h.described k (lt_of_lt_of_le hk hmn)
  switched w hw := h.switched w (lt_of_lt_of_le hw (Nat.count_monotone _ hmn))
  room := lt_of_le_of_lt (Nat.count_monotone _ hmn) h.room

/-- Where the walk stops for another reason, no page list ends. -/
theorem Walked.no_end {env : Env} {m : ℕ} (h : Walked env m) (hstop : ¬ Walked env (m + 1))
    (hnot : ¬ EndsAt env m) (n : ℕ) : ¬ EndsAt env n := by
  intro hn
  rcases Nat.lt_trichotomy n m with hlt | rfl | hgt
  · obtain ⟨d, -, -, hd⟩ := h.described n hlt
    exact hd ⟨hn.blank, hn.first⟩
  · exact hnot hn
  · exact hstop (hn.walked.mono hgt)

/-- A blank entry that was read. -/
theorem blank_iff {env : Env} {n : ℕ} {d : InfoData} (h : env.read n = some d) :
    Blank env n ↔ d.function = 0 := by
  simp only [Blank, h, Option.map_some, Option.some.injEq]

/-! ### The invariant of the loop -/

/-- The page the controller has selected after `trace`, starting from its reset value. -/
def selectedPage (trace : List Event) : UInt8 :=
  trace.foldl (fun page e => match e with
    | .i2cWrite address data true => if address = rmiChangePageAddress then data else page
    | _ => page) 0

/-- No entry with function `F12` was read. -/
def NoF12 (trace : List Event) : Prop :=
  ∀ a d, .i2cRead a (some d) ∈ trace → d.function ≠ touchRmiF12Function

/-- The loop variables after `n` passes that read one entry each. -/
structure Looking (env : Env) (inst : Instance) (n : ℕ) (p : Probe) : Prop where
  walked : Walked env n
  inst_eq : p.inst = inst
  reads_eq : p.bus.reads = n
  writes_eq : p.bus.writes = pagesLeft env n
  function_eq : p.function.toNat = functionsSeen env n
  page_eq : p.page = selectedPage p.bus.trace
  noF12 : NoF12 p.bus.trace
  offset : ∃ j ≤ functionsSeen env n, p.address.toNat = 233 - 6 * j ∧
    (j = 0 ↔ FirstOnPage env n)

/-- The ways a pass ends, with what each says of the controller. -/
inductive StepOutcome (env : Env) (inst : Instance) (n : ℕ) : Flow → Prop
  | failed (p : Probe) (herr : efiError p.status = true) (hinst : p.inst = inst)
      (hend : ∀ k, ¬ EndsAt env k) : StepOutcome env inst n (.exit p)
  | found (p : Probe) (before : List Event) (address : UInt8) (entry : InfoData)
      (htrace : p.bus.trace = before ++ [.i2cRead address (some entry)])
      (hentry : entry.function = touchRmiF12Function)
      (hinst : p.inst = { inst with
        pageF12 := selectedPage before, touchDataAddress := entry.dataBase.toUInt32 })
      (hend : ∀ k, ¬ EndsAt env k) : StepOutcome env inst n (.leave p)
  | ended (p : Probe) (hinst : p.inst = inst) (hno : NoF12 p.bus.trace)
      (hfunction : p.function < touchRmiMaxFunctions) (haddress : 0 < p.address)
      (hend : EndsAt env n) : StepOutcome env inst n (.leave p)
  | full (p : Probe) (hinst : p.inst = inst) (hfull : touchRmiMaxFunctions ≤ p.function)
      (hend : ∀ k, ¬ EndsAt env k) : StepOutcome env inst n (.condition p)
  | again (p : Probe) (hlook : Looking env inst (n + 1) p) :
      StepOutcome env inst n (.condition p)

/-! ### Steps of the counters -/

/-- An empty entry ends its page. -/
theorem pagesLeft_succ {env : Env} {n : ℕ} (h : Blank env n) :
    pagesLeft env (n + 1) = pagesLeft env n + 1 :=
  Nat.count_succ_eq_succ_count_iff.mpr h

/-- Any other leaves the page as it is. -/
theorem pagesLeft_succ_of_not {env : Env} {n : ℕ} (h : ¬ Blank env n) :
    pagesLeft env (n + 1) = pagesLeft env n :=
  Nat.count_succ_eq_count_iff.mpr h

/-- An entry that is not empty is a function. -/
theorem functionsSeen_succ {env : Env} {n : ℕ} (h : ¬ Blank env n) :
    functionsSeen env (n + 1) = functionsSeen env n + 1 :=
  Nat.count_succ_eq_succ_count_iff.mpr h

/-- An empty one is none. -/
theorem functionsSeen_succ_of_blank {env : Env} {n : ℕ} (h : Blank env n) :
    functionsSeen env (n + 1) = functionsSeen env n :=
  Nat.count_succ_eq_count_iff.mpr (not_not_intro h)

/-- One more entry that keeps the driver looking. -/
theorem Walked.succ {env : Env} {n : ℕ} {d : InfoData} (h : Walked env n)
    (hread : env.read n = some d) (hF12 : d.function ≠ touchRmiF12Function)
    (hend : ¬ (Blank env n ∧ FirstOnPage env n))
    (hwrite : Blank env n → env.write (pagesLeft env n) = true)
    (hroom : functionsSeen env (n + 1) < 10) : Walked env (n + 1) where
  described k hk := by
    rcases Nat.lt_succ_iff_lt_or_eq.mp hk with hlt | rfl
    · exact h.described k hlt
    · exact ⟨d, hread, hF12, hend⟩
  switched w hw := by
    by_cases hblank : Blank env n
    · rw [pagesLeft_succ hblank] at hw
      rcases Nat.lt_succ_iff_lt_or_eq.mp hw with hlt | rfl
      · exact h.switched w hlt
      · exact hwrite hblank
    · rw [pagesLeft_succ_of_not hblank] at hw
      exact h.switched w hw
  room := hroom

/-- A read changes no page, and `F12` stays unseen if the entry read is another one. -/
theorem NoF12.read {trace : List Event} (h : NoF12 trace) {d : InfoData}
    (hF12 : d.function ≠ touchRmiF12Function) (address : UInt8) :
    NoF12 (trace ++ [.i2cRead address (some d)]) := by
  intro a d' hmem
  rcases List.mem_append.mp hmem with hmem | hmem
  · exact h a d' hmem
  · simp only [List.mem_singleton, Event.i2cRead.injEq, Option.some.injEq] at hmem
    rw [hmem.2]
    exact hF12

/-- A write finds no function. -/
theorem NoF12.write {trace : List Event} (h : NoF12 trace) (address data : UInt8) (ok : Bool) :
    NoF12 (trace ++ [.i2cWrite address data ok]) := by
  intro a d hmem
  rcases List.mem_append.mp hmem with hmem | hmem
  · exact h a d hmem
  · simp only [List.mem_singleton, reduceCtorEq] at hmem

/-- The bus after a read that works. -/
def Bus.afterRead (bus : Bus) (address : UInt8) (d : InfoData) : Bus :=
  { bus with reads := bus.reads + 1 }.log (.i2cRead address (some d))

/-- The bus after a page switch. -/
def Bus.afterSwitch (bus : Bus) (page : UInt8) (ok : Bool) : Bus :=
  { bus with writes := bus.writes + 1 }.log (.i2cWrite rmiChangePageAddress page ok)

/-- A read selects no page. -/
theorem selectedPage_read (trace : List Event) (address : UInt8) (d : Option InfoData) :
    selectedPage (trace ++ [.i2cRead address d]) = selectedPage trace := by
  simp only [selectedPage, List.foldl_append, List.foldl_cons, List.foldl_nil]

/-- A write to the page register selects its page. -/
theorem selectedPage_switch (trace : List Event) (page : UInt8) :
    selectedPage (trace ++ [.i2cWrite rmiChangePageAddress page true]) = page := by
  simp only [selectedPage, List.foldl_append, List.foldl_cons, List.foldl_nil, if_true]

/-! ### One pass -/

/-- The read at the top of the address range is the first of its page. -/
theorem Looking.address_iff {env : Env} {inst : Instance} {n : ℕ} {p : Probe}
    (h : Looking env inst n p) : p.address = touchRmiPageInfoAddress ↔ FirstOnPage env n := by
  obtain ⟨j, hj, haddress, hfirst⟩ := h.offset
  have hroom := h.walked.room
  rw [← hfirst, ← UInt8.toNat_inj, haddress]
  have htop : touchRmiPageInfoAddress.toNat = 233 := rfl
  omega

/-- The loop condition holds while the driver is looking. -/
theorem Looking.condition {env : Env} {inst : Instance} {n : ℕ} {p : Probe}
    (h : Looking env inst n p) : 0 < p.address ∧ p.function < touchRmiMaxFunctions := by
  obtain ⟨j, hj, haddress, -⟩ := h.offset
  have hroom := h.walked.room
  have hfunction := h.function_eq
  have hzero : (0 : UInt8).toNat = 0 := rfl
  have hmax : touchRmiMaxFunctions.toNat = 10 := rfl
  rw [UInt8.lt_iff_toNat_lt, UInt8.lt_iff_toNat_lt]
  omega

/-- The read fails. -/
theorem Looking.step_none {env : Env} {inst : Instance} {n : ℕ} {p : Probe}
    (hnull : inst.i2cController ≠ 0) (h : Looking env inst n p) (hread : env.read n = none) :
    StepOutcome env inst n (probeStep env p) := by
  have hstep : probeStep env p = .exit { p with
      status := efiDeviceError,
      bus := { p.bus with reads := p.bus.reads + 1 }.log (.i2cRead p.address none) } := by
    simp only [probeStep, synaI2cRead, h.inst_eq, hnull, h.reads_eq, hread, if_false,
      efiError_efiDeviceError, if_true]
  rw [hstep]
  refine .failed _ rfl h.inst_eq (h.walked.no_end ?_ ?_)
  · intro hw
    obtain ⟨d, hd, -⟩ := hw.described n (Nat.lt_succ_self n)
    rw [hread] at hd
    cases hd
  · intro hend
    have hblank := hend.blank
    simp only [Blank, hread, Option.map_none, reduceCtorEq] at hblank

/-- The entry read is the one looked for. -/
theorem Looking.step_found {env : Env} {inst : Instance} {n : ℕ} {p : Probe} {d : InfoData}
    (hnull : inst.i2cController ≠ 0) (h : Looking env inst n p) (hread : env.read n = some d)
    (hF12 : d.function = touchRmiF12Function) : StepOutcome env inst n (probeStep env p) := by
  have hstep : probeStep env p = .leave { p with
      status := efiSuccess, infoData := d, bus := p.bus.afterRead p.address d,
      inst := { inst with pageF12 := p.page, touchDataAddress := d.dataBase.toUInt32 } } := by
    simp only [probeStep, synaI2cRead, h.inst_eq, hnull, h.reads_eq, hread, if_false,
      efiError_efiSuccess, Bool.false_eq_true, hF12, if_true, Bus.afterRead]
  rw [hstep]
  refine .found _ p.bus.trace p.address d rfl hF12 ?_ (h.walked.no_end ?_ ?_)
  · rw [h.page_eq]
  · intro hw
    obtain ⟨d', hd', hne, -⟩ := hw.described n (Nat.lt_succ_self n)
    rw [hread, Option.some.injEq] at hd'
    exact hne (hd' ▸ hF12)
  · intro hend
    have hzero := (blank_iff hread).mp hend.blank
    rw [hF12] at hzero
    exact absurd hzero (by decide)

/-- The entry read is blank: the page list ends, or the next page is selected. -/
theorem Looking.step_blank {env : Env} {inst : Instance} {n : ℕ} {p : Probe} {d : InfoData}
    (hnull : inst.i2cController ≠ 0) (h : Looking env inst n p) (hread : env.read n = some d)
    (hF12 : d.function ≠ touchRmiF12Function) (hblank : Blank env n) :
    StepOutcome env inst n (probeStep env p) := by
  have hzero := (blank_iff hread).mp hblank
  have hother : (0 : UInt8) ≠ touchRmiF12Function := by decide
  have hnoF12 := h.noF12.read hF12 p.address
  by_cases hfirst : FirstOnPage env n
  · have haddress := h.address_iff.mpr hfirst
    have hstep : probeStep env p = .leave { p with
        status := efiSuccess, infoData := d, bus := p.bus.afterRead p.address d } := by
      simp only [probeStep, synaI2cRead, h.inst_eq, hnull, h.reads_eq, hread, if_false,
        efiError_efiSuccess, Bool.false_eq_true, hother, hzero, haddress, and_self, if_true,
        Bus.afterRead]
    rw [hstep]
    exact .ended _ h.inst_eq hnoF12 h.condition.2 h.condition.1 ⟨h.walked, hblank, hfirst⟩
  have haddress : p.address ≠ touchRmiPageInfoAddress := fun he => hfirst (h.address_iff.mp he)
  have hstep : probeStep env p =
      let ok := env.write (pagesLeft env n)
      let p' : Probe := { p with
        status := if ok then efiSuccess else efiDeviceError
        infoData := d
        page := p.page + 1
        address := touchRmiPageInfoAddress
        bus := (p.bus.afterRead p.address d).afterSwitch (p.page + 1) ok }
      if ok then .condition p' else .exit p' := by
    cases hwrite : env.write (pagesLeft env n) <;>
      simp only [probeStep, synaI2cRead, synaI2cWrite, h.inst_eq, hnull, h.reads_eq,
        h.writes_eq, hread, hwrite, if_false, efiError_efiSuccess, Bool.false_eq_true,
        hother, hzero, haddress, and_false, if_true, ne_eq, not_false_eq_true, and_self,
        efiError_efiDeviceError, Bus.afterRead, Bus.afterSwitch, Bus.log_writes]
  rw [hstep]
  cases hwrite : env.write (pagesLeft env n) with
  | false =>
      refine .failed _ rfl h.inst_eq (h.walked.no_end ?_ ?_)
      · intro hw
        have hlast : pagesLeft env n < pagesLeft env (n + 1) := by
          rw [pagesLeft_succ hblank]
          exact Nat.lt_succ_self _
        have hok := hw.switched (pagesLeft env n) hlast
        rw [hwrite] at hok
        cases hok
      · exact fun hend => hfirst hend.first
  | true =>
      have hroom : functionsSeen env (n + 1) < 10 := by
        rw [functionsSeen_succ_of_blank hblank]
        exact h.walked.room
      refine .again _
        { walked := h.walked.succ hread hF12 (fun hc => hfirst hc.2) (fun _ => hwrite) hroom
          inst_eq := h.inst_eq
          reads_eq := congrArg (· + 1) h.reads_eq
          writes_eq := ?_
          function_eq := ?_
          page_eq := (selectedPage_switch _ _).symm
          noF12 := hnoF12.write _ _ _
          offset := ⟨0, Nat.zero_le _, rfl, ?_⟩ }
      · rw [pagesLeft_succ hblank, ← h.writes_eq]
        rfl
      · rw [functionsSeen_succ_of_blank hblank]
        exact h.function_eq
      · simp only [FirstOnPage, Nat.add_sub_cancel, hblank, or_true]

/-- The entry read describes another function. -/
theorem Looking.step_function {env : Env} {inst : Instance} {n : ℕ} {p : Probe} {d : InfoData}
    (hnull : inst.i2cController ≠ 0) (h : Looking env inst n p) (hread : env.read n = some d)
    (hF12 : d.function ≠ touchRmiF12Function) (hblank : ¬ Blank env n) :
    StepOutcome env inst n (probeStep env p) := by
  have hzero : d.function ≠ 0 := fun he => hblank ((blank_iff hread).mpr he)
  have hstep : probeStep env p = .condition { p with
      status := efiSuccess, infoData := d, bus := p.bus.afterRead p.address d,
      function := p.function + 1, address := p.address - touchRmiPageInfoBytes } := by
    simp only [probeStep, synaI2cRead, h.inst_eq, hnull, h.reads_eq, hread, if_false,
      efiError_efiSuccess, Bool.false_eq_true, hF12, hzero, false_and, Bus.afterRead]
  have hseen := functionsSeen_succ hblank
  have hroom := h.walked.room
  have hfunction : (p.function + 1).toNat = functionsSeen env (n + 1) := by
    rw [hseen, UInt8.toNat_add, UInt8.toNat_one, h.function_eq]
    omega
  rw [hstep]
  by_cases hnext : functionsSeen env (n + 1) < 10
  · refine .again _
      { walked := h.walked.succ hread hF12 (fun hc => hblank hc.1) (fun hc => absurd hc hblank)
          hnext
        inst_eq := h.inst_eq
        reads_eq := congrArg (· + 1) h.reads_eq
        writes_eq := ?_
        function_eq := hfunction
        page_eq := ?_
        noF12 := h.noF12.read hF12 p.address
        offset := ?_ }
    · rw [pagesLeft_succ_of_not hblank]
      exact h.writes_eq
    · rw [h.page_eq]
      exact (selectedPage_read _ _ _).symm
    · obtain ⟨j, hj, haddress, -⟩ := h.offset
      have hbytes : touchRmiPageInfoBytes.toNat = 6 := rfl
      refine ⟨j + 1, by omega, ?_, ?_⟩
      · rw [UInt8.toNat_sub_of_le _ _ (UInt8.le_iff_toNat_le.mpr (by omega)), haddress, hbytes]
        omega
      · simp only [FirstOnPage, Nat.add_sub_cancel, hblank, Nat.add_eq_zero_iff, one_ne_zero,
          and_false, or_self]
  · refine .full _ h.inst_eq ?_ (h.walked.no_end ?_ ?_)
    · have hmax : touchRmiMaxFunctions.toNat = 10 := rfl
      rw [UInt8.le_iff_toNat_le, hmax, hfunction]
      omega
    · exact fun hw => hnext hw.room
    · exact fun hend => hblank hend.blank

/-- **One pass of the probe.** -/
theorem probeStep_spec {env : Env} {inst : Instance} {n : ℕ} {p : Probe}
    (hnull : inst.i2cController ≠ 0) (h : Looking env inst n p) :
    StepOutcome env inst n (probeStep env p) := by
  cases hread : env.read n with
  | none => exact h.step_none hnull hread
  | some d =>
      by_cases hF12 : d.function = touchRmiF12Function
      · exact h.step_found hnull hread hF12
      by_cases hblank : Blank env n
      · exact h.step_blank hnull hread hF12 hblank
      · exact h.step_function hnull hread hF12 hblank

/-! ### The whole loop -/

/-- Every read passes over a function or leaves a page. -/
theorem pagesLeft_add_functionsSeen (env : Env) (n : ℕ) :
    pagesLeft env n + functionsSeen env n = n := by
  induction n with
  | zero => simp [pagesLeft, functionsSeen]
  | succ n ih =>
      by_cases hblank : Blank env n
      · rw [pagesLeft_succ hblank, functionsSeen_succ_of_blank hblank]
        omega
      · rw [pagesLeft_succ_of_not hblank, functionsSeen_succ hblank]
        omega

/-- A page is left only after a function was passed over on it. -/
theorem Walked.pagesLeft_le {env : Env} {n : ℕ} (h : Walked env n) :
    pagesLeft env n ≤ functionsSeen env n ∧
      (¬ FirstOnPage env n → pagesLeft env n < functionsSeen env n) := by
  induction n with
  | zero => exact ⟨by simp [pagesLeft], fun hfirst => absurd (Or.inl rfl) hfirst⟩
  | succ n ih =>
      obtain ⟨hle, hlt⟩ := ih (h.mono (Nat.le_succ n))
      obtain ⟨d, -, -, hend⟩ := h.described n (Nat.lt_succ_self n)
      by_cases hblank : Blank env n
      · have hstrict := hlt fun hfirst => hend ⟨hblank, hfirst⟩
        rw [pagesLeft_succ hblank, functionsSeen_succ_of_blank hblank]
        refine ⟨hstrict, fun hfirst => absurd (Or.inr ?_) hfirst⟩
        rwa [Nat.add_sub_cancel]
      · rw [pagesLeft_succ_of_not hblank, functionsSeen_succ hblank]
        exact ⟨Nat.le_succ_of_le hle, fun _ => Nat.lt_succ_of_le hle⟩

/-- The driver stops looking within nineteen reads. -/
theorem Walked.lt {env : Env} {n : ℕ} (h : Walked env n) : n < 19 := by
  have hsum := pagesLeft_add_functionsSeen env n
  have hle := h.pagesLeft_le.1
  have hroom := h.room
  omega

/-- The ways the loop ends, with what each says of the controller. -/
inductive LoopOutcome (env : Env) (inst : Instance) : Option Flow → Prop
  | failed (p : Probe) (herr : efiError p.status = true) (hinst : p.inst = inst)
      (hend : ∀ k, ¬ EndsAt env k) : LoopOutcome env inst (some (.exit p))
  | found (p : Probe) (before : List Event) (address : UInt8) (entry : InfoData)
      (htrace : p.bus.trace = before ++ [.i2cRead address (some entry)])
      (hentry : entry.function = touchRmiF12Function)
      (hinst : p.inst = { inst with
        pageF12 := selectedPage before, touchDataAddress := entry.dataBase.toUInt32 })
      (hend : ∀ k, ¬ EndsAt env k) : LoopOutcome env inst (some (.leave p))
  | ended (p : Probe) (n : ℕ) (hinst : p.inst = inst) (hno : NoF12 p.bus.trace)
      (hfunction : p.function < touchRmiMaxFunctions) (haddress : 0 < p.address)
      (hend : EndsAt env n) : LoopOutcome env inst (some (.leave p))
  | full (p : Probe) (hinst : p.inst = inst) (hfull : touchRmiMaxFunctions ≤ p.function)
      (hend : ∀ k, ¬ EndsAt env k) : LoopOutcome env inst (some (.leave p))

/-- **The probe loop ends**, in one of four ways. -/
theorem probeLoop_spec {env : Env} {inst : Instance} (hnull : inst.i2cController ≠ 0)
    (fuel n : ℕ) (p : Probe) (h : Looking env inst n p) (hfuel : probeFuel ≤ fuel + n) :
    LoopOutcome env inst (probeLoop env fuel p) := by
  induction fuel generalizing n p with
  | zero =>
      have hlt := h.walked.lt
      simp only [probeFuel] at hfuel
      omega
  | succ fuel ih =>
      have hspec := probeStep_spec hnull h
      simp only [probeLoop]
      generalize probeStep env p = flow at hspec
      cases hspec with
      | failed p' herr hinst hend => exact .failed p' herr hinst hend
      | found p' before address entry htrace hentry hinst hend =>
          exact .found p' before address entry htrace hentry hinst hend
      | ended p' hinst hno hfunction haddress hend =>
          exact .ended p' n hinst hno hfunction haddress hend
      | full p' hinst hfull hend =>
          have hstop : ¬ (p'.address > 0 ∧ p'.function < touchRmiMaxFunctions) :=
            fun hc => absurd hc.2 (UInt8.not_lt.mpr hfull)
          dsimp only
          rw [if_neg hstop]
          exact .full p' hinst hfull hend
      | again p' hlook =>
          dsimp only
          rw [if_pos hlook.condition]
          exact ih (n + 1) p' hlook (by omega)

/-! ### Before the loop -/

/-- The bus carries no transfer. -/
def Event.isTransfer : Event → Bool
  | .i2cRead _ _ | .i2cWrite _ _ _ => true
  | _ => false

/-- No transfer was made yet. -/
structure Untouched (bus : Bus) : Prop where
  reads_eq : bus.reads = 0
  writes_eq : bus.writes = 0
  silent : ∀ e ∈ bus.trace, e.isTransfer = false

/-- Events that are no transfer leave the controller untouched. -/
theorem Untouched.log {bus : Bus} (h : Untouched bus) {e : Event}
    (he : e.isTransfer = false) : Untouched (bus.log e) where
  reads_eq := h.reads_eq
  writes_eq := h.writes_eq
  silent e' hmem := by
    rcases List.mem_append.mp hmem with hmem | hmem
    · exact h.silent e' hmem
    · rw [List.mem_singleton.mp hmem]
      exact he

/-- Switching a supply does so. -/
theorem Untouched.supplyOn {bus : Bus} (h : Untouched bus) (pin : UInt32) (activeLow : Bool) :
    Untouched (supplyOn pin activeLow bus) := by
  rw [Touch.supplyOn]
  split
  · exact (h.log rfl).log rfl
  · exact h

/-- Powering up does, too. -/
theorem Untouched.powerUp {bus : Bus} (h : Untouched bus) (inst : Instance) :
    Untouched (synaPowerUpController inst bus).2 := by
  simp only [synaPowerUpController]
  split
  · exact h
  split
  · exact h
  · exact ((((h.supplyOn _ _).supplyOn _ _).log rfl).log rfl).log rfl

/-- An untouched controller is at its first page. -/
theorem Untouched.selectedPage {bus : Bus} (h : Untouched bus) : selectedPage bus.trace = 0 := by
  have hsilent := h.silent
  rw [Touch.selectedPage]
  generalize bus.trace = trace at hsilent
  induction trace with
  | nil => rfl
  | cons e t ih =>
      have he := hsilent e List.mem_cons_self
      have ht := ih fun e' hmem => hsilent e' (List.mem_cons_of_mem _ hmem)
      cases e with
      | i2cRead a d => cases he
      | i2cWrite a d ok => cases he
      | i2cOpen device handle => exact ht
      | i2cClose handle => exact ht
      | configGpio pin => exact ht
      | gpioOut pin high => exact ht

/-- The loop starts out looking. -/
theorem Untouched.looking {bus : Bus} (h : Untouched bus) (env : Env) (inst : Instance) :
    Looking env inst 0 (startProbe inst bus) where
  walked := Walked.zero env
  inst_eq := rfl
  reads_eq := h.reads_eq
  writes_eq := h.writes_eq
  function_eq := by simp [functionsSeen, startProbe]
  page_eq := h.selectedPage.symm
  noF12 a d hmem := by cases h.silent _ hmem
  offset := ⟨0, Nat.zero_le _, rfl, ⟨fun _ => Or.inl rfl, fun _ => rfl⟩⟩

/-- The power-up sequence fails only on its two checks. -/
theorem powerUp_error_iff (inst : Instance) (bus : Bus) :
    efiError (synaPowerUpController inst bus).1 = false ↔
      inst.rmi4Device.gpioTlmmProtocol = true ∧ inst.rmi4Device.controllerResetPin ≠ 0 := by
  simp only [synaPowerUpController]
  cases hgpio : inst.rmi4Device.gpioTlmmProtocol with
  | false => simp
  | true =>
      by_cases hreset : inst.rmi4Device.controllerResetPin = 0
      · simp [hreset]
      · have hpos : ¬ inst.rmi4Device.controllerResetPin ≤ 0 := by
          rw [UInt32.le_iff_toNat_le, Nat.not_le]
          exact Nat.pos_of_ne_zero fun he => hreset (UInt32.toNat_inj.mp he)
        simp [hreset, hpos]

/-- A null handle stops the first pass. -/
theorem probeLoop_null {inst : Instance} (hnull : inst.i2cController = 0) (env : Env)
    (bus : Bus) : ∃ p, probeLoop env probeFuel (startProbe inst bus) = some (.exit p) ∧
      p.inst = inst := by
  have hstep : probeStep env (startProbe inst bus) =
      .exit { startProbe inst bus with status := efiInvalidParameter } := by
    simp only [probeStep, synaI2cRead, startProbe, hnull, if_true,
      efiError_efiInvalidParameter]
  refine ⟨{ startProbe inst bus with status := efiInvalidParameter }, ?_, rfl⟩
  rw [probeFuel, probeLoop, hstep]

/-! ### Going live -/

/-- Once live, the driver uses an `F12` entry it read, the page selected then, and its
data base. -/
def LiveOnF12 (run : StartRun) : Prop :=
  ∀ inst, run.inst = some inst → inst.initialized = true → run.installed = true →
    ∃ before address entry after,
      run.bus.trace = before ++ .i2cRead address (some entry) :: after ∧
      entry.function = touchRmiF12Function ∧ inst.pageF12 = selectedPage before ∧
      inst.touchDataAddress = entry.dataBase.toUInt32

/-- Everything around the probe works: the device protocol and a non-null I2C handle are
obtained, the reset line can be driven, and the new protocol is accepted. -/
structure ComesUp (env : Env) : Prop where
  opened : efiError env.openStatus = false
  handle : ∃ handle, env.openI2c = some handle ∧ handle ≠ 0
  gpio : env.device.gpioTlmmProtocol = true
  reset : env.device.controllerResetPin ≠ 0
  installed : efiError env.installStatus = false

/-- A start that installs nothing is not live. -/
theorem liveOnF12_of_not_installed {run : StartRun} (h : run.installed = false) :
    LiveOnF12 run := by
  intro inst _ _ hinstalled
  rw [h] at hinstalled
  cases hinstalled

/-- What the bus shows at the label `exit`. -/
theorem exitStart_trace (status : StatusCode) (inst : Instance) (installed : Bool) (bus : Bus) :
    ∃ after, (exitStart status inst installed bus).bus.trace = bus.trace ++ after ∧
      NoF12 after := by
  simp only [exitStart]
  split
  · refine ⟨[.i2cClose inst.i2cController], rfl, ?_⟩
    intro a d hmem
    simp only [List.mem_singleton, reduceCtorEq] at hmem
  · refine ⟨[], (List.append_nil _).symm, ?_⟩
    intro a d hmem
    cases hmem

/-- After a probe that found its entry, the driver is live on that entry or not at all. -/
theorem finishProbe_found {env : Env} {p : Probe} {before : List Event} {address : UInt8}
    {entry : InfoData} (htrace : p.bus.trace = before ++ [.i2cRead address (some entry)])
    (hentry : entry.function = touchRmiF12Function) (hpage : p.inst.pageF12 = selectedPage before)
    (hdata : p.inst.touchDataAddress = entry.dataBase.toUInt32) :
    LiveOnF12 (finishProbe env p) := by
  rw [finishProbe]
  split
  · exact liveOnF12_of_not_installed rfl
  split
  · exact liveOnF12_of_not_installed rfl
  · intro inst hinst _ _
    obtain rfl := Option.some.inj hinst
    obtain ⟨after, hafter, -⟩ := exitStart_trace env.installStatus
      { p.inst with initialized := true } (!efiError env.installStatus) p.bus
    refine ⟨before, address, entry, after, ?_, hentry, hpage, hdata⟩
    rw [hafter, htrace, List.append_assoc, List.singleton_append]

/-- Without the protocol the driver is not live. -/
theorem finishProbe_not_installed {env : Env} (h : efiError env.installStatus = true)
    (p : Probe) : LiveOnF12 (finishProbe env p) := by
  rw [finishProbe]
  split
  · exact liveOnF12_of_not_installed rfl
  split
  · exact liveOnF12_of_not_installed rfl
  · exact liveOnF12_of_not_installed (by simp [exitStart, h])

/-- After a probe that ran into the end of the page list, the driver is live all the same. -/
theorem finishProbe_ended {env : Env} {p : Probe} (hno : NoF12 p.bus.trace)
    (hfunction : p.function < touchRmiMaxFunctions) (haddress : 0 < p.address)
    (hinstalled : efiError env.installStatus = false) : ¬ LiveOnF12 (finishProbe env p) := by
  have hfinish : finishProbe env p = exitStart env.installStatus
      { p.inst with initialized := true } (!efiError env.installStatus) p.bus := by
    rw [finishProbe, if_neg (UInt8.not_le.mpr hfunction), if_neg (UInt8.not_le.mpr haddress)]
  rw [hfinish]
  intro hlive
  obtain ⟨before, address, entry, after, htrace, hentry, -⟩ :=
    hlive _ rfl rfl (by simp [exitStart, hinstalled])
  obtain ⟨rest, hrest, hclosed⟩ := exitStart_trace env.installStatus
    { p.inst with initialized := true } (!efiError env.installStatus) p.bus
  have hmem : Event.i2cRead address (some entry) ∈ p.bus.trace ++ rest := by
    rw [← hrest, htrace]
    exact List.mem_append_right _ List.mem_cons_self
  rcases List.mem_append.mp hmem with hmem | hmem
  · exact hno address entry hmem hentry
  · exact hclosed address entry hmem hentry

/-- What a start that reaches the probe comes to. -/
theorem afterLoop_liveOnF12_iff (env : Env) {inst : Instance} {bus : Bus}
    (hnull : inst.i2cController ≠ 0) (hbus : Untouched bus) :
    ∃ run, (probeLoop env probeFuel (startProbe inst bus)).map (afterLoop env) = some run ∧
      (LiveOnF12 run ↔ ¬ (efiError env.installStatus = false ∧ ∃ n, EndsAt env n)) := by
  have hspec := probeLoop_spec hnull probeFuel 0 _ (hbus.looking env inst) le_rfl
  generalize probeLoop env probeFuel (startProbe inst bus) = result at hspec
  cases hspec with
  | failed p herr hinst hend =>
      refine ⟨_, rfl, iff_of_true (liveOnF12_of_not_installed rfl) ?_⟩
      rintro ⟨-, n, hn⟩
      exact hend n hn
  | found p before address entry htrace hentry hinst hend =>
      refine ⟨_, rfl, iff_of_true (finishProbe_found htrace hentry ?_ ?_) ?_⟩
      · rw [hinst]
      · rw [hinst]
      · rintro ⟨-, n, hn⟩
        exact hend n hn
  | ended p n hinst hno hfunction haddress hend =>
      refine ⟨_, rfl, ?_⟩
      cases hinstall : efiError env.installStatus with
      | false =>
          refine iff_of_false (finishProbe_ended hno hfunction haddress hinstall) ?_
          exact not_not_intro ⟨rfl, n, hend⟩
      | true =>
          refine iff_of_true (finishProbe_not_installed hinstall p) ?_
          rintro ⟨hok, -⟩
          cases hok
  | full p hinst hfull hend =>
      refine ⟨_, rfl, iff_of_true ?_ ?_⟩
      · rw [afterLoop, finishProbe, if_pos hfull]
        exact liveOnF12_of_not_installed rfl
      · rintro ⟨-, n, hn⟩
        exact hend n hn

/-- **When going live means that `F12` was found.** `Start` always returns, and a driver
that goes live uses an `F12` entry it read exactly when the controller does not end its
page list before such an entry. -/
theorem bindingStart_liveOnF12_iff (env : Env) (globals : Globals) :
    ∃ run, rmi4AbsolutePointerDriverBindingStart env globals = some run ∧
      (LiveOnF12 run ↔ ¬ (ComesUp env ∧ ∃ n, EndsAt env n)) := by
  -- a start that stops before the probe installs nothing and does not come up
  have hdown : ∀ run, run.installed = false → ¬ ComesUp env →
      ∃ run', some run = some run' ∧
        (LiveOnF12 run' ↔ ¬ (ComesUp env ∧ ∃ n, EndsAt env n)) :=
    fun run hrun hup => ⟨run, rfl, iff_of_true (liveOnF12_of_not_installed hrun) fun h => hup h.1⟩
  simp only [rmi4AbsolutePointerDriverBindingStart]
  cases hopen : efiError env.openStatus with
  | true =>
      rw [if_pos rfl]
      refine hdown _ rfl fun hup => ?_
      rw [hup.opened] at hopen
      cases hopen
  | false =>
      rw [if_neg Bool.false_ne_true]
      cases hhandle : env.openI2c with
      | none =>
          refine hdown _ rfl fun hup => ?_
          obtain ⟨handle, hsome, -⟩ := hup.handle
          rw [hhandle] at hsome
          cases hsome
      | some handle =>
          dsimp only
          have hclean : Untouched (Bus.log ⟨0, 0, []⟩
              (.i2cOpen env.device.controllerI2cDevice handle)) :=
            Untouched.log ⟨rfl, rfl, by simp⟩ rfl
          generalize hinst : { newInstance env.device with i2cController := handle } = inst
          have hdevice : inst.rmi4Device = env.device := by rw [← hinst]; rfl
          have hcontroller : inst.i2cController = handle := by rw [← hinst]
          have hpower := powerUp_error_iff inst (Bus.log ⟨0, 0, []⟩
            (.i2cOpen env.device.controllerI2cDevice handle))
          have hbus := hclean.powerUp inst
          rw [hdevice] at hpower
          generalize synaPowerUpController inst (Bus.log ⟨0, 0, []⟩
            (.i2cOpen env.device.controllerI2cDevice handle)) = powered at hpower hbus
          cases hstatus : efiError powered.1 with
          | true =>
              rw [if_pos rfl]
              refine hdown _ rfl fun hup => ?_
              rw [hpower.mpr ⟨hup.gpio, hup.reset⟩] at hstatus
              cases hstatus
          | false =>
              rw [if_neg Bool.false_ne_true]
              obtain ⟨hgpio, hreset⟩ := hpower.mp hstatus
              by_cases hnull : handle = 0
              · obtain ⟨p, hloop, -⟩ := probeLoop_null (hcontroller.trans hnull) env powered.2
                rw [hloop]
                refine hdown _ rfl fun hup => ?_
                obtain ⟨handle', hsome, hne⟩ := hup.handle
                rw [hhandle] at hsome
                exact hne (Option.some.inj hsome ▸ hnull)
              · obtain ⟨run, hrun, hiff⟩ :=
                  afterLoop_liveOnF12_iff env (hcontroller.trans_ne hnull) hbus
                refine ⟨run, hrun, hiff.trans (not_congr (and_congr_left fun _ => ?_))⟩
                exact ⟨fun h => ⟨hopen, ⟨handle, hhandle, hnull⟩, hgpio, hreset, h⟩,
                  fun h => h.installed⟩

/-- A controller that answers every read with a blank entry, on a board where all else
works. -/
def blankController : Env where
  openStatus := efiSuccess
  device :=
    { xMax := 1080, yMax := 1920, xMin := 0, yMin := 0, controllerResetPin := 89,
      controllerVddPin := 0, controllerVddIoPin := 0, controllerVddCtlActiveLow := false,
      controllerI2cDevice := 5, gpioTlmmProtocol := true }
  openI2c := some 1
  read _ := some (Vector.replicate 6 0)
  write _ := true
  installStatus := efiSuccess

/-- It goes live, with an instance that names no page and no address. -/
theorem blankController_live :
    ∃ run inst, rmi4AbsolutePointerDriverBindingStart blankController ⟨none, none⟩ = some run ∧
      run.status = efiSuccess ∧ run.inst = some inst ∧ inst.initialized = true ∧
      run.installed = true ∧ inst.pageF12 = 0 ∧ inst.touchDataAddress = 0 ∧
      ¬ LiveOnF12 run := by
  refine ⟨_, _, rfl, rfl, rfl, rfl, rfl, rfl, rfl, ?_⟩
  intro hlive
  obtain ⟨before, address, entry, after, htrace, hentry, -⟩ := hlive _ rfl rfl rfl
  have hmem : Event.i2cRead address (some entry) ∈
      before ++ .i2cRead address (some entry) :: after :=
    List.mem_append_right _ List.mem_cons_self
  rw [← htrace] at hmem
  change _ ∈ [Event.i2cOpen 5 1, .configGpio 89, .gpioOut 89 false, .gpioOut 89 true,
    .i2cRead 0xE9 (some (Vector.replicate 6 0))] at hmem
  simp only [List.mem_cons, reduceCtorEq, Event.i2cRead.injEq, Option.some.injEq, false_or,
    List.not_mem_nil, or_false] at hmem
  rw [hmem.2] at hentry
  exact absurd hentry (by decide)

end Touch

end Msm8998
