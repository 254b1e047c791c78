import Msm8998.SmbiosCalls
import Msm8998.SmbiosLayout

/-!
# Cross References between SMBIOS Records

`PlatformSmbiosDriverEntryPoint` hands the handle of a record to a later one through the
variable `SmbiosHandle`, which a failed call leaves as it is. So after a failure the field that
should name the missing record holds what the variable held before: a handle of an earlier
record, or, if there was none, what the variable happened to start with.

## Main results

* `reference_call`: what the field of a reference is, under every pattern of outcomes;
* `refersRight_iff`: for which patterns every reference is right.
-/

namespace Msm8998

namespace Smbios

/-- The handle fields that the entry point stores to, by the record they are in. -/
inductive Reference
  | chassis
  | a75L1Cache
  | a75L2Cache
  | a55L1Cache
  | a55L2Cache
  | memoryDevice
  | mappedAddress (bank : ℕ)
deriving Repr, DecidableEq

namespace Reference

/-- The call that publishes the record with the field. -/
def record : Reference → ℕ
  | chassis => 3
  | a75L1Cache | a75L2Cache => 10
  | a55L1Cache | a55L2Cache => 11
  | memoryDevice => 18
  | mappedAddress bank => 19 + bank

/-- The call that publishes the record which the field is to name. -/
def target : Reference → ℕ
  | chassis => 2
  | a75L1Cache => 6
  | a55L1Cache => 7
  | a75L2Cache => 8
  | a55L2Cache => 9
  | memoryDevice | mappedAddress _ => 17

/-- The value of the field in the structures as they are declared. -/
def templateValue (handles : Handles) : Reference → Handle
  | chassis => handles.chassisHandle
  | a75L1Cache => handles.a75L1CacheHandle
  | a75L2Cache => handles.a75L2CacheHandle
  | a55L1Cache => handles.a55L1CacheHandle
  | a55L2Cache => handles.a55L2CacheHandle
  | memoryDevice | mappedAddress _ => handles.memoryArrayHandle

/-- The record is one that the platform has. -/
def Of (p : Platform) : Reference → Prop
  | mappedAddress bank => bank < p.banks.length
  | _ => True

end Reference

/-- Where the handle fields are in the records: functions that read them back from any record
that begins with the structure. -/
structure HandleFields (t : Templates) where
  chassisHandle : List UInt8 → Handle
  l1CacheHandle : List UInt8 → Handle
  l2CacheHandle : List UInt8 → Handle
  deviceArrayHandle : List UInt8 → Handle
  mappedArrayHandle : List UInt8 → Handle
  board : ∀ h rest, chassisHandle ((t.mBoardInfoType2 h).bytes ++ rest) = h
  a75 : ∀ h h' rest,
    l1CacheHandle ((t.mProcessorInfoType4_a75 h h').bytes ++ rest) = h ∧
      l2CacheHandle ((t.mProcessorInfoType4_a75 h h').bytes ++ rest) = h'
  a55 : ∀ h h' rest,
    l1CacheHandle ((t.mProcessorInfoType4_a55 h h').bytes ++ rest) = h ∧
      l2CacheHandle ((t.mProcessorInfoType4_a55 h h').bytes ++ rest) = h'
  device : ∀ h rest, deviceArrayHandle ((t.mMemDevInfoType17 h).bytes ++ rest) = h
  mapped : ∀ h bank rest,
    mappedArrayHandle ((t.mMemArrMapInfoType19 h bank).bytes ++ rest) = h

/-- Read the field of a reference. -/
def Reference.read {t : Templates} (fields : HandleFields t) : Reference → List UInt8 → Handle
  | chassis => fields.chassisHandle
  | a75L1Cache | a55L1Cache => fields.l1CacheHandle
  | a75L2Cache | a55L2Cache => fields.l2CacheHandle
  | memoryDevice => fields.deviceArrayHandle
  | mappedAddress _ => fields.mappedArrayHandle

/-- **The references are right**: in every published record each of them is the handle of the
record it is to name, or the value of the structure as it is declared. -/
def RefersRight (p : Platform) (fields : HandleFields p.templates) (calls : List Call) : Prop :=
  ∀ r : Reference, r.Of p → ∀ call record, calls[r.record]? = some call →
    call.logged.status = efiSuccess → call.logged.record = some record →
    r.read fields record = r.templateValue p.handles ∨
      calls[r.target]?.bind (·.logged.handle) = some (r.read fields record)

/-- The calls that pass `&SmbiosHandle`, in order. -/
def handOvers : List ℕ := [2, 6, 7, 8, 9, 17]

/-- What `SmbiosHandle` holds after the `n`-th call. -/
def held (pattern : ℕ → Outcome) (unassigned : Handle) (n : ℕ) : Handle :=
  (handOvers.takeWhile (· ≤ n)).foldl (fun h k => (pattern k).handle.getD h) unassigned

/-- The condition on a pattern: where a record is published but not the one that it refers to,
the variable holds the value of the structure as it is declared. -/
def HandedOver (p : Platform) (pattern : ℕ → Outcome) : Prop :=
  ∀ r : Reference, r.Of p → (pattern r.record).handle ≠ none →
    (pattern r.target).handle = none →
    held pattern p.handles.smbiosHandle r.target = r.templateValue p.handles

/-! ### One reference -/

variable (pattern : ℕ → Outcome) {p : Platform}

/-- A target that was published is what the variable holds after it. -/
theorem held_of_handle {pattern : ℕ → Outcome} {r : Reference} {h : Handle}
    (hr : (pattern r.target).handle = some h) (unassigned : Handle) :
    held pattern unassigned r.target = h := by
  cases r <;> exact congrArg (Option.getD · _) hr

/-- The calls in front of the memory banks. -/
def Platform.fixedSteps (p : Platform) : List Step := p.steps.take 19

/-- The steps are the fixed ones, one for each bank, and the last. -/
theorem Platform.steps_eq (p : Platform) : p.steps =
    p.fixedSteps ++ (p.banks.map (fun bank =>
      .plain (fun h => p.templates.mMemArrMapInfoType19 h.memoryArrayHandle bank)
        Platform.mMemArrMapInfoType19Strings) ++
      [.plain (fun _ => p.templates.mBootInfoType32) Platform.mBootInfoType32Strings]) := rfl

/-- The call for a memory bank. -/
theorem mappedAddress_call {i : ℕ} {bank : FdtBank} (hbank : p.banks[i]? = some bank) :
    ∃ handle record, (callsFrom pattern 0 p.handles p.steps)[19 + i]? =
        some ⟨p.templates.mMemArrMapInfoType19 handle bank, [],
          (pattern (19 + i)).logged record⟩ ∧
      record = recordBytes (p.templates.mMemArrMapInfoType19 handle bank) [] ∧
      handle = held pattern p.handles.smbiosHandle 17 := by
  have hlen : (callsFrom pattern 0 p.handles p.fixedSteps).length = 19 :=
    length_callsFrom _ _ _
  generalize hhandles : handlesAfter pattern 0 p.handles p.fixedSteps = handles
  have hcall := getElem?_callsFrom_plain pattern 19 handles
    (fun bank h => p.templates.mMemArrMapInfoType19 h.memoryArrayHandle bank)
    Platform.mMemArrMapInfoType19Strings p.banks i
  rw [hbank, Option.map_some] at hcall
  refine ⟨handles.memoryArrayHandle, _, ?_, rfl, ?_⟩
  · rw [p.steps_eq, callsFrom_append, List.getElem?_append_right (by omega), hlen,
      Nat.add_sub_cancel_left, callsFrom_append, hhandles]
    refine (List.getElem?_append_left ?_).trans hcall
    rw [length_callsFrom, List.length_map]
    exact (List.getElem?_eq_some_iff.mp hbank).1
  · rw [← hhandles]
    rfl

/-- **The field of a reference.** It holds what the variable held after the call whose handle
is handed over. -/
theorem reference_call (fields : HandleFields p.templates) {r : Reference} (hr : r.Of p) :
    ∃ call record, (callsFrom pattern 0 p.handles p.steps)[r.record]? = some call ∧
      call.logged = (pattern r.record).logged record ∧
      r.read fields record = held pattern p.handles.smbiosHandle r.target := by
  cases r with
  | chassis => exact ⟨_, _, rfl, rfl, fields.board _ _⟩
  | a75L1Cache => exact ⟨_, _, rfl, rfl, (fields.a75 _ _ _).1⟩
  | a75L2Cache => exact ⟨_, _, rfl, rfl, (fields.a75 _ _ _).2⟩
  | a55L1Cache => exact ⟨_, _, rfl, rfl, (fields.a55 _ _ _).1⟩
  | a55L2Cache => exact ⟨_, _, rfl, rfl, (fields.a55 _ _ _).2⟩
  | memoryDevice => exact ⟨_, _, rfl, rfl, fields.device _ _⟩
  | mappedAddress i =>
      obtain ⟨handle, record, hcall, rfl, hhandle⟩ :=
        mappedAddress_call pattern (List.getElem?_eq_getElem hr)
      exact ⟨_, _, hcall, rfl, (fields.mapped _ _ _).trans hhandle⟩

/-- The call that a reference is to name. -/
theorem target_call (p : Platform) (r : Reference) :
    ∃ call record, (callsFrom pattern 0 p.handles p.steps)[r.target]? = some call ∧
      call.logged = (pattern r.target).logged record := by
  cases r <;> exact ⟨_, _, rfl, rfl⟩

/-- The handle that a call stores is the one it was given. -/
theorem Outcome.logged_handle (outcome : Outcome) (record : List UInt8) :
    (outcome.logged record).handle = outcome.handle := by
  cases outcome <;> rfl

/-- A record is published when a handle was assigned to it. -/
theorem Outcome.published_iff (outcome : Outcome) (record record' : List UInt8) :
    (outcome.logged record).status = efiSuccess ∧ (outcome.logged record).record = some record' ↔
      outcome.handle ≠ none ∧ record' = record := by
  cases outcome with
  | noProtocol status h => simp [Outcome.logged, Outcome.handle]
  | outOfResources => simp [Outcome.logged, Outcome.handle]
  | addFailed status h => simp [Outcome.logged, Outcome.handle, h]
  | added handle => simp [Outcome.logged, Outcome.handle, eq_comm]

/-- **When the references are right.** Under every pattern of outcomes the entry point returns,
and its records refer to the right ones exactly when the pattern meets the condition. -/
theorem refersRight_iff (p : Platform) (fields : HandleFields p.templates)
    (pattern : ℕ → Outcome) :
    ∃ calls, platformSmbiosDriverEntryPoint (p.underPattern pattern) = .ok calls ∧
      (RefersRight p fields calls ↔ HandedOver p pattern) := by
  refine ⟨_, platformSmbiosDriverEntryPoint_eq p pattern, ?_⟩
  constructor
  · intro h r hr hpublished hmissing
    obtain ⟨call, record, hcall, hlogged, hread⟩ := reference_call pattern fields hr
    obtain ⟨target, record', htarget, hlogged'⟩ := target_call pattern p r
    have hpub := ((pattern r.record).published_iff record record).mpr ⟨hpublished, rfl⟩
    rw [← hlogged] at hpub
    rcases h r hr call record hcall hpub.1 hpub.2 with hvalue | hnamed
    · exact hread.symm.trans hvalue
    · rw [htarget, Option.bind_some, hlogged', Outcome.logged_handle, hmissing] at hnamed
      cases hnamed
  · intro h r hr call record hcall hstatus hrecord
    obtain ⟨call', record', hcall', hlogged, hread⟩ := reference_call pattern fields hr
    obtain ⟨target, record'', htarget, hlogged'⟩ := target_call pattern p r
    obtain rfl : call' = call := Option.some.inj (hcall'.symm.trans hcall)
    rw [hlogged] at hstatus hrecord
    obtain ⟨hpublished, rfl⟩ := ((pattern r.record).published_iff _ _).mp ⟨hstatus, hrecord⟩
    rw [hread, htarget, Option.bind_some, hlogged', Outcome.logged_handle]
    cases hmissing : (pattern r.target).handle with
    | none => exact .inl (h r hr hpublished hmissing)
    | some handle => exact .inr (congrArg some (held_of_handle hmissing _).symm)

/-- Read a handle at an offset. -/
def readHandle (offset : ℕ) (record : List UInt8) : Handle :=
  UInt16.ofNat (readField 2 offset record)

/-- A handle reads back from where it is in a packed structure. -/
theorem packed_readHandle {type : UInt8} {b after : List (ℕ × ℕ)} {handle : Handle}
    (h : fieldsSize (b ++ (2, handle.toNat) :: after) < 252) (rest : List UInt8) :
    readHandle (4 + fieldsSize b)
      ((packed type (b ++ (2, handle.toNat) :: after) h).bytes ++ rest) = handle := by
  rw [readHandle, packed_read h (by decide) (by simpa using handle.toNat_lt)]
  exact UInt16.ofNat_toNat

/-- The handle in the record of the board. -/
theorem readHandle_board (h : Handle) (rest : List UInt8) :
    readHandle 11 ((packedTemplates.mBoardInfoType2 h).bytes ++ rest) = h :=
  packed_readHandle (b := [(7, 0)]) (fieldsSize_board h) rest

/-- The handles in the record of the processor. -/
theorem readHandle_processor (h h' : Handle) (rest : List UInt8) :
    readHandle 26 ((packed 4 (processorFields h h') (fieldsSize_processor h h')).bytes ++ rest) =
        h ∧
      readHandle 28 ((packed 4 (processorFields h h') (fieldsSize_processor h h')).bytes ++ rest) =
        h' :=
  ⟨packed_readHandle (b := [(22, 0)]) (fieldsSize_processor h h') rest,
    packed_readHandle (b := [(22, 0), (2, h.toNat)]) (fieldsSize_processor h h') rest⟩

/-- The handle in the record of a memory device. -/
theorem readHandle_device (h : Handle) (rest : List UInt8) :
    readHandle 4 ((packedTemplates.mMemDevInfoType17 h).bytes ++ rest) = h :=
  packed_readHandle (b := []) (fieldsSize_device h) rest

/-- The handle in the record of a mapped bank. -/
theorem readHandle_mapped (h : Handle) (bank : FdtBank) (rest : List UInt8) :
    readHandle 12 ((packedTemplates.mMemArrMapInfoType19 h bank).bytes ++ rest) = h :=
  packed_readHandle (b := [(4, _), (4, _)]) (fieldsSize_type19 _) rest

/-- The fields of packed structures are at the offsets that the specification gives. -/
def packedHandleFields : HandleFields packedTemplates where
  chassisHandle := readHandle 11
  l1CacheHandle := readHandle 26
  l2CacheHandle := readHandle 28
  deviceArrayHandle := readHandle 4
  mappedArrayHandle := readHandle 12
  board := readHandle_board
  a75 := readHandle_processor
  a55 := readHandle_processor
  device := readHandle_device
  mapped := readHandle_mapped

/-- No memory is left for the record of the second L1 data cache; every other record is taken,
with its number for a handle. -/
def cacheRecordLost (n : ℕ) : Outcome :=
  if n = 7 then .outOfResources else .added (UInt16.ofNat n)

/-- The second processor then names the L1 cache of the first. -/
theorem not_refersRight_cacheRecordLost :
    ∃ calls, platformSmbiosDriverEntryPoint ((packedPlatform [] 0xABCD).underPattern
        cacheRecordLost) = .ok calls ∧
      ¬ RefersRight (packedPlatform [] 0xABCD) packedHandleFields calls := by
  refine ⟨_, platformSmbiosDriverEntryPoint_eq _ _, fun h => ?_⟩
  obtain ⟨call, record, hcall, hlogged, hread⟩ := reference_call cacheRecordLost
    (p := packedPlatform [] 0xABCD) packedHandleFields (r := .a55L1Cache) trivial
  obtain ⟨target, record', htarget, hlogged'⟩ :=
    target_call cacheRecordLost (packedPlatform [] 0xABCD) .a55L1Cache
  have hpub := ((cacheRecordLost 11).published_iff record record).mpr ⟨nofun, rfl⟩
  have hheld : held cacheRecordLost 0xABCD 7 = 6 := by decide
  have hright := h .a55L1Cache trivial call record hcall (hlogged ▸ hpub.1) (hlogged ▸ hpub.2)
  rw [hread, htarget, Option.bind_some, hlogged', Outcome.logged_handle] at hright
  rcases hright with hvalue | hnamed
  · exact absurd (hheld.symm.trans hvalue) (by decide)
  · exact absurd hnamed (by decide)

end Smbios

end Msm8998
