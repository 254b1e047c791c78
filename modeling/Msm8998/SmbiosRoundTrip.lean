import Msm8998.Smbios

/-!
# Which SMBIOS Records Read Back

A reader of a record finds the strings behind the fixed part and takes the first two NULs in
a row for the end. An empty string puts two NULs in a row by itself, so a pack reads back only
when none but its first string is empty; the pack of one empty string reads as no string.

## Main results

* `roundTrips_iff`: which packs read back from the record of `LogSmbiosData`;
* `platformSmbiosDriverEntryPoint_calls`: the entry point never leaves its records;
* `logSmbiosData_roundTrips`: both of them, with what the entry point passes: it never fills
  the chassis asset tag, so two of its records do not read back.
-/

open Fallible

namespace Msm8998

namespace Smbios

/-- A reader finds the template, its strings, and the end of the record where the first two
NULs in a row are. -/
structure ReadsBack (template : Template) (strings : List CString) (record : List UInt8) :
    Prop where
  fixed : record.take template.length = template.bytes
  ends : Terminated.firstPair 0 (record.drop template.length) =
    some ((record.drop template.length).length - 2)
  fields : Terminated.fields 0 (record.drop template.length) = some (strings.map (·.bytes))

/-- With the protocol there and memory to be had, the record reads back. -/
def RoundTrips (template : Template) (stringPack : Option (List CString)) : Prop :=
  ∀ services : Services, efiError services.locateProtocol = false →
    (∀ size, services.allocateZeroPool size = true) →
    ∃ logged record, logSmbiosData services template stringPack = .ok logged ∧
      logged.record = some record ∧ ReadsBack template (stringPack.getD []) record

/-- A pack whose strings can be told apart and that a 64-bit size can count. -/
structure Legible (template : Template) (strings : List CString) : Prop where
  tail_ne : ∀ s ∈ strings.tail, s.bytes ≠ []
  ne_blank : strings.map (·.bytes) ≠ [[]]
  fits : template.length + (strings.map asciiStrSize).sum + 1 < 2 ^ 64

/-! ### One record -/

/-- Services at which every call succeeds. -/
def willing : Services := ⟨efiSuccess, fun _ => true, fun _ => (efiSuccess, 1)⟩

/-- A call whose services all answer well. -/
theorem logSmbiosData_eq {services : Services} (template : Template)
    (stringPack : Option (List CString)) (hlocate : efiError services.locateProtocol = false)
    (halloc : ∀ size, services.allocateZeroPool size = true) :
    logSmbiosData services template stringPack =
      fillRecord template stringPack (recordSize template stringPack) >>= fun record =>
        .ok ⟨(services.add record).1, some record,
          if (services.add record).1 = efiSuccess then some (services.add record).2 else none⟩ := by
  rw [logSmbiosData, hlocate, if_neg Bool.false_ne_true]
  simp only [halloc, if_true]

/-- Whether a pack reads back depends on the stores into the record alone. -/
theorem roundTrips_iff_fillRecord {template : Template} {stringPack : Option (List CString)} :
    RoundTrips template stringPack ↔
      ∃ record, fillRecord template stringPack (recordSize template stringPack) = .ok record ∧
        ReadsBack template (stringPack.getD []) record := by
  constructor
  · intro h
    obtain ⟨logged, record, hok, hrecord, hreads⟩ := h willing rfl fun _ => rfl
    rw [logSmbiosData_eq template stringPack rfl fun _ => rfl] at hok
    obtain ⟨record', hfill, hlogged⟩ := bind_eq_ok.mp hok
    cases hlogged
    cases hrecord
    exact ⟨record, hfill, hreads⟩
  · rintro ⟨record, hfill, hreads⟩ services hlocate halloc
    rw [logSmbiosData_eq template stringPack hlocate halloc, hfill]
    exact ⟨_, record, rfl, rfl, hreads⟩

/-- `NULL` in place of a pack is dereferenced. -/
theorem fillRecord_none (template : Template) (size : ℕ) (record : List UInt8) :
    fillRecord template none size ≠ .ok record := by
  intro h
  obtain ⟨first, -, h⟩ := bind_eq_ok.mp h
  cases hlength : lengthField first with
  | none => simp only [hlength, reduceCtorEq] at h
  | some length => simp only [hlength, reduceCtorEq] at h

/-- What a reader makes of the bytes behind the template. -/
theorem readsBack_append_iff {template : Template} {strings : List CString}
    {rest : List UInt8} :
    ReadsBack template strings (template.bytes ++ rest) ↔
      Terminated.firstPair 0 rest = some (rest.length - 2) ∧
        Terminated.fields 0 rest = some (strings.map (·.bytes)) := by
  have hdrop : (template.bytes ++ rest).drop template.length = rest := List.drop_left
  constructor
  · rintro ⟨-, hends, hfields⟩
    rw [hdrop] at hends hfields
    exact ⟨hends, hfields⟩
  · rintro ⟨hends, hfields⟩
    exact ⟨List.take_left, by rw [hdrop]; exact hends, by rw [hdrop]; exact hfields⟩

/-- The empty pack always reads back. -/
theorem roundTrips_nil (template : Template) : RoundTrips template (some []) := by
  have hroom : template.length + (packBytes []).length + 1 ≤ recordSize template (some []) := by
    rw [recordSize_nil]
    exact Nat.le_succ _
  refine roundTrips_iff_fillRecord.mpr ⟨_, fillRecord_eq_ok hroom, ?_⟩
  rw [recordSize_nil, List.append_assoc, readsBack_append_iff]
  have htwo : template.length + 2 - template.length - (packBytes []).length = 2 :=
    Nat.add_sub_cancel_left _ _
  rw [htwo]
  exact ⟨rfl, rfl⟩

/-- The strings of a pack are free of NULs. -/
theorem nul_notMem (strings : List CString) : ∀ t ∈ strings.map (·.bytes), (0 : UInt8) ∉ t := by
  intro t ht
  obtain ⟨s, -, rfl⟩ := List.mem_map.mp ht
  exact s.nul_free

/-- With a size that did not wrap, a pack with a string in it reads back when its strings can
be told apart. -/
theorem readsBack_fillRecord_iff {template : Template} {s : CString} {strings : List CString}
    (h : template.length + (packBytes (s :: strings)).length + 1 < 2 ^ 64) :
    (∃ record, fillRecord template (some (s :: strings))
        (recordSize template (some (s :: strings))) = .ok record ∧
      ReadsBack template (s :: strings) record) ↔
      (∀ t ∈ strings, t.bytes ≠ []) ∧ ¬ (s.bytes = [] ∧ strings = []) := by
  rw [recordSize_cons, Nat.mod_eq_of_lt h, fillRecord_eq_ok (Nat.le_refl _)]
  have hone : template.length + (packBytes (s :: strings)).length + 1 - template.length -
      (packBytes (s :: strings)).length = 1 := by omega
  have hset : packBytes (s :: strings) ++ List.replicate 1 0 =
      Terminated.set 0 (s.bytes :: strings.map (·.bytes)) := rfl
  rw [hone, List.append_assoc, hset]
  have hnul : ∀ t ∈ s.bytes :: strings.map (·.bytes), (0 : UInt8) ∉ t := nul_notMem (s :: strings)
  have hfields := Terminated.fields_set_iff hnul
  rw [List.forall_mem_map, List.map_eq_nil_iff] at hfields
  have hreads : ReadsBack template (s :: strings)
      (template.bytes ++ Terminated.set 0 (s.bytes :: strings.map (·.bytes))) ↔ _ :=
    readsBack_append_iff
  refine Iff.trans ?_ (hreads.trans hfields)
  exact ⟨fun ⟨_, hok, hreads⟩ => Except.ok.inj hok ▸ hreads, fun hreads => ⟨_, rfl, hreads⟩⟩

/-- **Which packs read back.** -/
theorem roundTrips_iff {template : Template} {stringPack : Option (List CString)} :
    RoundTrips template stringPack ↔
      ∃ strings, stringPack = some strings ∧ Legible template strings := by
  cases stringPack with
  | none =>
      rw [roundTrips_iff_fillRecord]
      refine iff_of_false ?_ (by simp)
      rintro ⟨record, hfill, -⟩
      exact fillRecord_none _ _ _ hfill
  | some strings =>
      simp only [Option.some.injEq, exists_eq_left']
      cases strings with
      | nil =>
          have hlt := template.length_lt
          refine iff_of_true (roundTrips_nil template) ⟨by simp, by simp, ?_⟩
          rw [List.map_nil, List.sum_nil]
          omega
      | cons s strings =>
          have hblank : ((s :: strings).map (·.bytes) ≠ [[]]) ↔
              ¬ (s.bytes = [] ∧ strings = []) := by
            rw [List.map_cons, ne_eq, List.cons.injEq, List.map_eq_nil_iff]
          rw [roundTrips_iff_fillRecord]
          by_cases hfits : template.length + (packBytes (s :: strings)).length + 1 < 2 ^ 64
          · refine (readsBack_fillRecord_iff hfits).trans ?_
            rw [packBytes_length] at hfits
            exact ⟨fun ⟨htail, hne⟩ => ⟨htail, hblank.mpr hne, hfits⟩,
              fun h => ⟨h.tail_ne, hblank.mp h.ne_blank⟩⟩
          · -- the size wrapped, so the strings run over the end of the record
            refine iff_of_false ?_ fun h => hfits (packBytes_length _ ▸ h.fits)
            rintro ⟨record, hfill, -⟩
            have hsize := size_le_of_fillRecord hfill
            have hlt : recordSize template (some (s :: strings)) < 2 ^ 64 := by
              rw [recordSize_cons]
              exact Nat.mod_lt _ (Nat.two_pow_pos 64)
            exact hfits (Nat.lt_of_le_of_lt hsize hlt)

/-! ### The calls of the entry point -/

/-- A pack as the entry point passes them. -/
structure Small (strings : List CString) : Prop where
  few : strings.length ≤ 6
  short : ∀ s ∈ strings, s.bytes.length < 128

/-- Strings of bounded length, together. -/
theorem sum_asciiStrSize_le {strings : List CString} {n : ℕ}
    (h : ∀ s ∈ strings, s.bytes.length < n) :
    (strings.map asciiStrSize).sum ≤ n * strings.length := by
  induction strings with
  | nil => exact Nat.zero_le _
  | cons s strings ih =>
      have hs := h s List.mem_cons_self
      have hrest := ih fun t ht => h t (List.mem_cons_of_mem s ht)
      rw [List.map_cons, List.sum_cons, List.length_cons, Nat.mul_succ, asciiStrSize]
      omega

/-- A small pack does not wrap the size of its record. -/
theorem Small.fits {strings : List CString} (h : Small strings) (template : Template) :
    template.length + (packBytes strings).length + 1 < 2 ^ 63 := by
  have hsum := sum_asciiStrSize_le h.short
  have hfew := h.few
  have hlt := template.length_lt
  rw [packBytes_length]
  omega

/-- A small pack is stored inside the record. -/
theorem Small.logSmbiosData_isOk {strings : List CString} (h : Small strings)
    (services : Services) (template : Template) :
    ∃ logged, logSmbiosData services template (some strings) = .ok logged := by
  have hroom : template.length + (packBytes strings).length + 1 ≤
      recordSize template (some strings) := by
    cases strings with
    | nil =>
        rw [recordSize_nil]
        exact Nat.le_succ _
    | cons s strings =>
        have hfits := h.fits template
        rw [recordSize_cons, Nat.mod_eq_of_lt (by omega)]
  simp only [logSmbiosData, fillRecord_eq_ok hroom, ok_bind]
  split_ifs <;> exact ⟨_, rfl⟩

/-- One call goes onto the list, with the strings it was to pass. -/
theorem Run.step_calls {s : Step} (hs : Small s.stringPack) (services : ℕ → Services)
    (run : Run) :
    ∃ run', run.step services s = .ok run' ∧
      run'.calls.map (·.stringPack) = run.calls.map (·.stringPack) ++ [s.stringPack] := by
  obtain ⟨logged, hlogged⟩ := hs.logSmbiosData_isOk (services run.calls.length)
    (s.template run.handles)
  rw [Run.step, hlogged]
  exact ⟨_, rfl, List.map_append⟩

/-- The calls are made with the strings of the steps, in order. -/
theorem foldlM_step_calls {steps : List Step} (hsteps : ∀ s ∈ steps, Small s.stringPack)
    (services : ℕ → Services) (run : Run) :
    ∃ run', steps.foldlM (Run.step services) run = .ok run' ∧
      run'.calls.map (·.stringPack) =
        run.calls.map (·.stringPack) ++ steps.map (·.stringPack) := by
  induction steps generalizing run with
  | nil => exact ⟨run, rfl, (List.append_nil _).symm⟩
  | cons s steps ih =>
      obtain ⟨mid, hmid, hcalls⟩ := Run.step_calls (hsteps s List.mem_cons_self) services run
      obtain ⟨last, hlast, hrest⟩ := ih (fun t ht => hsteps t (List.mem_cons_of_mem s ht)) mid
      refine ⟨last, ?_, ?_⟩
      · rw [List.foldlM_cons, hmid, ok_bind, hlast]
      · rw [hrest, hcalls, List.append_assoc, List.map_cons, List.singleton_append]

/-- The strings of the platform are small. -/
theorem Platform.steps_small (p : Platform) : ∀ s ∈ p.steps, Small s.stringPack := by
  have hbuffer : ∀ b : Buffer 128, b.string.bytes.length < 128 := fun b => b.fits
  have hdate : p.mBiosDate.string.bytes.length < 128 :=
    Nat.lt_trans p.mBiosDate.fits (by decide)
  have htype0 : Small p.mBIOSInfoType0Strings := ⟨Nat.le_add_right 3 3, by
    simp only [mBIOSInfoType0Strings, List.forall_mem_cons, hbuffer, hdate, mBiosVendor]
    decide⟩
  have htype1 : Small p.mSysInfoType1Strings := ⟨Nat.le_refl 6, by
    simp only [mSysInfoType1Strings, List.forall_mem_cons, hbuffer, mSysInfoSerial, mSysInfoSKU]
    decide⟩
  have htype2 : Small p.mBoardInfoType2Strings := ⟨Nat.le_refl 6, by
    simp only [mBoardInfoType2Strings, List.forall_mem_cons, hbuffer, mSysInfoSerial]
    decide⟩
  have htype3 : Small p.mEnclosureInfoType3Strings := ⟨Nat.le_add_right 4 2, by
    simp only [mEnclosureInfoType3Strings, List.forall_mem_cons, hbuffer, mSysInfoSerial]
    decide⟩
  have htype4 : Small mProcessorInfoType4Strings := ⟨by decide, by decide⟩
  have htype7 : Small mCacheInfoType7Strings := ⟨by decide, by decide⟩
  have htype9 : Small mSysSlotInfoType9Strings := ⟨by decide, by decide⟩
  have htype11 : Small mOemStringsType11Strings := ⟨by decide, by decide⟩
  have htype16 : Small mPhyMemArrayInfoType16Strings := ⟨by decide, by decide⟩
  have htype17 : Small mMemDevInfoType17Strings := ⟨by decide, by decide⟩
  have htype19 : Small mMemArrMapInfoType19Strings := ⟨by decide, by decide⟩
  have htype32 : Small mBootInfoType32Strings := ⟨by decide, by decide⟩
  simp only [steps, Step.plain, List.forall_mem_append, List.forall_mem_cons,
    List.forall_mem_map, htype0, htype1, htype2, htype3, htype4, htype7, htype9, htype11, htype16,
    htype17, htype19, htype32, List.not_mem_nil, false_imp_iff, implies_true, and_self]

/-- **The entry point** never leaves its records, and passes its packs in order. -/
theorem platformSmbiosDriverEntryPoint_calls (p : Platform) :
    ∃ calls, platformSmbiosDriverEntryPoint p = .ok calls ∧
      calls.map (·.stringPack) = p.steps.map (·.stringPack) := by
  obtain ⟨run, hrun, hcalls⟩ := foldlM_step_calls p.steps_small p.services ⟨[], p.handles⟩
  rw [platformSmbiosDriverEntryPoint, hrun]
  exact ⟨run.calls, rfl, hcalls⟩

/-- The asset tag is empty and not the first of its strings. -/
theorem not_legible_mEnclosureInfoType3Strings (p : Platform) (template : Template) :
    ¬ Legible template p.mEnclosureInfoType3Strings := by
  intro h
  have htail : Platform.mChassisAssetTag.string ∈ p.mEnclosureInfoType3Strings.tail := by
    simp [Platform.mEnclosureInfoType3Strings]
  exact h.tail_ne _ htail rfl

/-- **String packs.** A pack reads back from its record exactly when it is not `NULL`, its
strings after the first are not empty, it is not one empty string, and the size does not
wrap. The entry point always passes a pack that does not read back. -/
theorem logSmbiosData_roundTrips (template : Template) (stringPack : Option (List CString))
    (p : Platform) :
    (RoundTrips template stringPack ↔
      ∃ strings, stringPack = some strings ∧ Legible template strings) ∧
    ∃ calls, platformSmbiosDriverEntryPoint p = .ok calls ∧
      ¬ ∀ c ∈ calls, RoundTrips c.template (some c.stringPack) := by
  refine ⟨roundTrips_iff, ?_⟩
  obtain ⟨calls, hok, hcalls⟩ := platformSmbiosDriverEntryPoint_calls p
  refine ⟨calls, hok, fun hall => ?_⟩
  have hmem : p.mEnclosureInfoType3Strings ∈ calls.map (·.stringPack) := by
    rw [hcalls]
    simp [Platform.steps]
  obtain ⟨c, hc, hpack⟩ := List.mem_map.mp hmem
  obtain ⟨strings, hstrings, hlegible⟩ := roundTrips_iff.mp (hall c hc)
  rw [Option.some.injEq, hpack] at hstrings
  exact not_legible_mEnclosureInfoType3Strings p c.template (hstrings ▸ hlegible)

/-- The strings of the enclosure record of a Nokia 8 and a fixed part of four bytes. -/
theorem not_roundTrips_enclosure :
    ¬ RoundTrips ⟨[3, 4, 0, 0], rfl⟩
      (some [literal "Nokia", literal "8", literal "Serial Not Set", literal ""]) := by
  rw [roundTrips_iff]
  rintro ⟨strings, hstrings, hlegible⟩
  cases hstrings
  exact hlegible.tail_ne (literal "") (by decide) (by decide)

end Smbios

end Msm8998
