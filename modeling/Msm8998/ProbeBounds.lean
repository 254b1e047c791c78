import Msm8998.TouchHandles

/-!
# The Probe Loop Ends

Neither condition of the probe loop is a measure by itself: a page switch sets `Address` back
to the top and leaves `Function` as it is, and an 8-bit address that goes down by six need not
meet zero. What bounds the loop is that a page is only left after a function was passed over
on it, so that there are never more page switches than functions, and at most ten of these.

This holds whatever the controller answers and whether its transfers work or not.

## Main results

* `Probe.InRange.step`: one pass keeps the loop variables in range;
* `probeLoop_bounded`: the loop ends within nineteen reads, all at the addresses of page
  description entries, and none of its 8-bit variables wraps on the way.
-/

namespace Msm8998

namespace Touch

/-- The passes of the probe loop: the loop variables at the start of each. -/
inductive Probe.Pass (env : Env) (start : Probe) : Probe → Prop
  | first : Pass env start start
  | next {p p' : Probe} (h : Pass env start p) (hstep : probeStep env p = .condition p')
      (hcond : p'.address > 0 ∧ p'.function < touchRmiMaxFunctions) : Pass env start p'

/-- Where the entries of a page description table are. -/
def EntryAddress (address : UInt8) : Prop := ∃ k < 10, address.toNat = 0xE9 - 6 * k

/-- The reads among the events. -/
def Event.isRead : Event → Bool
  | .i2cRead _ _ => true
  | _ => false

/-- The trace grew by at most `n` reads, each of a page description entry. -/
structure Bus.ReadsEntries (n : ℕ) (bus bus' : Bus) : Prop where
  grows : ∃ new, bus'.trace = bus.trace ++ new ∧ new.countP Event.isRead ≤ n ∧
    ∀ a d, .i2cRead a d ∈ new → EntryAddress a

/-- The loop variables in range: `k` functions were passed over on this page, the address is
that many entries below the top, and every page left before had a function, too. -/
structure Probe.InRange (p start : Probe) : Prop where
  address : ∃ k, p.address.toNat + 6 * k = 0xE9 ∧ k ≤ p.function.toNat ∧
    (0 < k → p.page.toNat < p.function.toNat)
  function_lt : p.function.toNat < 10
  page_le : p.page.toNat ≤ p.function.toNat
  reads : start.bus.ReadsEntries (p.function.toNat + p.page.toNat) p.bus

/-- No reads. -/
theorem Bus.ReadsEntries.refl (bus : Bus) : bus.ReadsEntries 0 bus :=
  ⟨[], (List.append_nil _).symm, Nat.le_refl 0, fun _ _ h => by cases h⟩

/-- Reads after reads. -/
theorem Bus.ReadsEntries.trans {m n : ℕ} {a b c : Bus} (h : a.ReadsEntries m b)
    (h' : b.ReadsEntries n c) : a.ReadsEntries (m + n) c := by
  obtain ⟨new, hnew, hcount, haddress⟩ := h.grows
  obtain ⟨new', hnew', hcount', haddress'⟩ := h'.grows
  refine ⟨new ++ new', by rw [hnew', hnew, List.append_assoc], ?_, fun x d hmem => ?_⟩
  · rw [List.countP_append]
    exact Nat.add_le_add hcount hcount'
  · rcases List.mem_append.mp hmem with hmem | hmem
    · exact haddress x d hmem
    · exact haddress' x d hmem

/-- At most some reads are at most more. -/
theorem Bus.ReadsEntries.mono {m n : ℕ} {a b : Bus} (h : a.ReadsEntries m b) (hmn : m ≤ n) :
    a.ReadsEntries n b := by
  obtain ⟨new, hnew, hcount, haddress⟩ := h.grows
  exact ⟨new, hnew, Nat.le_trans hcount hmn, haddress⟩

/-! ### One pass -/

/-- One pass makes at most one read, at the current address. -/
theorem probeStep_reads (env : Env) {p : Probe} (h : EntryAddress p.address) :
    p.bus.ReadsEntries 1 (probeStep env p).probe.bus := by
  have hread : ∀ d, p.bus.ReadsEntries 1
      ({ p.bus with reads := p.bus.reads + 1 }.log (.i2cRead p.address d)) := by
    refine fun d => ⟨[.i2cRead p.address d], rfl, Nat.le_refl 1, fun a d' hmem => ?_⟩
    cases List.mem_singleton.mp hmem
    exact h
  have hwrite : ∀ (bus : Bus) x y ok, bus.ReadsEntries 0
      ({ bus with writes := bus.writes + 1 }.log (.i2cWrite x y ok)) := by
    refine fun bus x y ok => ⟨[.i2cWrite x y ok], rfl, Nat.le_refl 0, fun a d hmem => ?_⟩
    cases List.mem_singleton.mp hmem
  simp only [probeStep, synaI2cRead, synaI2cWrite]
  by_cases hnull : p.inst.i2cController = 0
  · simp only [hnull, if_true, efiError_efiInvalidParameter]
    exact (Bus.ReadsEntries.refl _).mono (Nat.zero_le 1)
  simp only [hnull, if_false]
  cases env.read p.bus.reads with
  | none => exact hread none
  | some d =>
      simp only [efiError_efiSuccess, Bool.false_eq_true, if_false]
      split
      · exact hread _
      split
      · exact hread _
      split
      · split
        · exact (hread _).trans (hwrite _ _ _ _)
        · exact (hread _).trans (hwrite _ _ _ _)
      · exact hread _

/-- **What a pass can do** when the loop goes on: switch to the next page, below the top of
the last, or pass over a function. -/
theorem probeStep_condition {env : Env} {p p' : Probe} (h : probeStep env p = .condition p') :
    (p.address ≠ touchRmiPageInfoAddress ∧ p'.address = touchRmiPageInfoAddress ∧
        p'.page = p.page + 1 ∧ p'.function = p.function) ∨
      (p'.address = p.address - touchRmiPageInfoBytes ∧ p'.page = p.page ∧
        p'.function = p.function + 1) := by
  rw [probeStep] at h
  dsimp only at h
  split at h
  · cases h
  split at h
  · cases h
  split at h
  · cases h
  split at h
  · rename_i hswitch
    split at h
    · cases h
    · cases h
      exact .inl ⟨hswitch.2, rfl, rfl, rfl⟩
  · cases h
    exact .inr ⟨rfl, rfl, rfl⟩

/-! ### The loop variables -/

/-- In range, the address is that of an entry. -/
theorem Probe.InRange.entryAddress {start p : Probe} (h : p.InRange start) :
    EntryAddress p.address := by
  obtain ⟨k, haddress, hk, -⟩ := h.address
  have hlt := h.function_lt
  exact ⟨k, by omega, by omega⟩

/-- No 8-bit variable wraps in a pass: neither `Address` below zero nor `Page` or `Function`
above the top. -/
structure Probe.NoWrap (p : Probe) : Prop where
  address : (p.address - touchRmiPageInfoBytes).toNat + 6 = p.address.toNat
  page : (p.page + 1).toNat = p.page.toNat + 1
  function : (p.function + 1).toNat = p.function.toNat + 1

/-- A probe in range does not wrap its counters. -/
theorem Probe.InRange.noWrap {start p : Probe} (h : p.InRange start) : p.NoWrap where
  address := by
    obtain ⟨k, hk, heq⟩ := h.entryAddress
    have hbytes : touchRmiPageInfoBytes.toNat = 6 := rfl
    rw [UInt8.toNat_sub_of_le _ _ (UInt8.le_iff_toNat_le.mpr (by omega)), hbytes]
    omega
  page := by
    have hpage := h.page_le
    have hlt := h.function_lt
    rw [UInt8.toNat_add, UInt8.toNat_one]
    omega
  function := by
    have hlt := h.function_lt
    rw [UInt8.toNat_add, UInt8.toNat_one]
    omega

/-- **One pass keeps the loop variables in range.** -/
theorem Probe.InRange.step {env : Env} {start p p' : Probe} (h : p.InRange start)
    (hstep : probeStep env p = .condition p') (hcond : p'.function < touchRmiMaxFunctions) :
    p'.InRange start ∧
      p'.function.toNat + p'.page.toNat = p.function.toNat + p.page.toNat + 1 := by
  have hreads := h.reads.trans (probeStep_reads env h.entryAddress)
  rw [hstep] at hreads
  have hmax : p'.function.toNat < 10 := UInt8.lt_iff_toNat_lt.mp hcond
  obtain ⟨k, haddress, hk, hpage⟩ := h.address
  have hle := h.page_le
  have hwrap := h.noWrap
  rcases probeStep_condition hstep with ⟨hne, ha, hp, hf⟩ | ⟨ha, hp, hf⟩
  · -- the address is not at the top, so this page had a function
    have hpos : 0 < k := by
      by_contra hzero
      refine hne (UInt8.toNat_inj.mp ?_)
      have htop : touchRmiPageInfoAddress.toNat = 0xE9 := rfl
      omega
    have hpage := hpage hpos
    have hp' : p'.page.toNat = p.page.toNat + 1 := by rw [hp, hwrap.page]
    have hf' : p'.function.toNat = p.function.toNat := by rw [hf]
    refine ⟨⟨⟨0, by rw [ha]; rfl, Nat.zero_le _, nofun⟩, hmax, by omega, ?_⟩, by omega⟩
    exact hreads.mono (by omega)
  · have ha' := hwrap.address
    rw [← ha] at ha'
    have hp' : p'.page.toNat = p.page.toNat := by rw [hp]
    have hf' : p'.function.toNat = p.function.toNat + 1 := by rw [hf, hwrap.function]
    refine ⟨⟨⟨k + 1, by omega, by omega, fun _ => by omega⟩, hmax, by omega, ?_⟩, by omega⟩
    exact hreads.mono (by omega)

/-- The probe starts in range. -/
theorem startProbe_inRange (inst : Instance) (bus : Bus) :
    (startProbe inst bus).InRange (startProbe inst bus) where
  address := ⟨0, rfl, Nat.le_refl 0, nofun⟩
  function_lt := show (0 : UInt8).toNat < 10 by decide
  page_le := Nat.le_refl 0
  reads := .refl bus

/-- The loop variables are in range at the start of every pass. -/
theorem Probe.Pass.inRange {env : Env} {inst : Instance} {bus : Bus} {p : Probe}
    (h : Probe.Pass env (startProbe inst bus) p) : p.InRange (startProbe inst bus) := by
  induction h with
  | first => exact startProbe_inRange inst bus
  | next _ hstep hcond ih => exact (ih.step hstep hcond.2).1

/-! ### The whole loop -/

/-- Every pass brings the loop nearer to its end, functions and pages counted together. -/
theorem Probe.InRange.loop (env : Env) {start p : Probe} (h : p.InRange start) {fuel : ℕ}
    (hfuel : 19 ≤ fuel + (p.function.toNat + p.page.toNat)) :
    ∃ flow, probeLoop env fuel p = some flow ∧ start.bus.ReadsEntries 19 flow.probe.bus := by
  have hlt := h.function_lt
  have hle := h.page_le
  induction fuel generalizing p with
  | zero => omega
  | succ fuel ih =>
      have hreads := (h.reads.trans (probeStep_reads env h.entryAddress)).mono
        (show _ ≤ 19 by omega)
      rw [probeLoop]
      cases hstep : probeStep env p with
      | condition p' =>
          rw [hstep] at hreads
          dsimp only
          split
          · rename_i hcond
            obtain ⟨hrange, hsum⟩ := h.step hstep hcond.2
            exact ih hrange (by omega) hrange.function_lt hrange.page_le
          · exact ⟨_, rfl, hreads⟩
      | leave p' =>
          rw [hstep] at hreads
          exact ⟨_, rfl, hreads⟩
      | exit p' =>
          rw [hstep] at hreads
          exact ⟨_, rfl, hreads⟩

/-- **The probe loop ends.** Whatever the controller answers, the loop ends within nineteen
reads, each of them at the address of a page description entry, and at the start of every
pass its 8-bit variables are too far from their bounds to wrap. -/
theorem probeLoop_bounded (env : Env) (inst : Instance) (bus : Bus) :
    (∃ flow, probeLoop env probeFuel (startProbe inst bus) = some flow ∧
        bus.ReadsEntries 19 flow.probe.bus) ∧
      ∀ p, Probe.Pass env (startProbe inst bus) p → EntryAddress p.address ∧ p.NoWrap := by
  refine ⟨?_, fun p hp => ⟨hp.inRange.entryAddress, hp.inRange.noWrap⟩⟩
  exact (startProbe_inRange inst bus).loop env (Nat.le_add_right_of_le (by decide))

end Touch

end Msm8998
