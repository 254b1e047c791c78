import Msm8998.MemoryAttributes
import Msm8998.PlatformMmu

/-!
# Runs of Attribute Changes

`ArmConfigureMmu` builds the live table once. What happens to it afterwards is a sequence of
calls of the attribute functions of `ArmMmuLib`, each for a region of its own, any of which can
run out of pages halfway. This module says what such a sequence does.

The specification is an attribute map: the attributes of every mapped address, and nothing for
the others. A call rewrites the attributes of the addresses from the start of its region up to
some address, which is the end of the region when it succeeds (`AttributeMap.Step`). The live
table of any sequence of calls is simulated by such a map.

## Main results

* `runAttributeCalls_spec`: every run of calls is a run of the map, on an identity mapping;
* `runAttributeCalls_simulates`: the same for the table of `ArmConfigureMmu`;
* `AttributeMap.Run.untouched`: an address outside of all regions keeps its attributes;
* `AttributeMap.Run.field`: every field of the attributes is the one of the last call that
  writes it.
-/

namespace Msm8998

open BitMask

/-! ### Calls -/

/-- A call that changes attributes: it changes only permissions, or it sets a memory type too. -/
inductive AttributeCall
  | permission (call : PermissionCall)
  | memoryAttributes (attributes : ℕ) (typed : attributes &&& efiMemoryCachetypeMask ≠ 0)

namespace AttributeCall

/-- Run the function of a call on a region. -/
def run (alloc : ℕ → Option ℕ) (fuel : ℕ) (el : ExceptionLevel) (baseAddress length : ℕ)
    (st : MmuState) : AttributeCall → Except Halt EfiStatus × MmuState
  | permission call => call.run alloc fuel el baseAddress length st
  | memoryAttributes attributes _ =>
      armSetMemoryAttributes alloc fuel el baseAddress length st attributes

/-- The bits that a call takes away first: all of them when it sets a memory type. -/
def cleared : AttributeCall → ℕ
  | permission call => call.cleared
  | memoryAttributes _ _ => 2 ^ 64 - 1

/-- The bits that it then sets. -/
def assigned (el : ExceptionLevel) : AttributeCall → ℕ
  | permission call => call.assigned el
  | memoryAttributes attributes _ => gcdAttributeToPageAttribute el attributes

/-- What a call is to do to the attributes of a page. -/
def apply (el : ExceptionLevel) (call : AttributeCall) (attributes : ℕ) : ℕ :=
  update 64 call.cleared (call.assigned el) attributes

/-- Setting a memory type forgets the attributes from before. -/
theorem apply_memoryAttributes (el : ExceptionLevel) {attributes : ℕ}
    (typed : attributes &&& efiMemoryCachetypeMask ≠ 0) (a : ℕ) :
    (memoryAttributes attributes typed).apply el a = gcdAttributeToPageAttribute el attributes := by
  have hnone : complement 64 (2 ^ 64 - 1) = 0 := by decide
  rw [apply, cleared, assigned, update, hnone, Nat.and_zero, Nat.zero_or]

/-- The attribute fields of a secure leaf. -/
def secureAttributesMask : ℕ := ttAttributesMask &&& not64 ttNs

/-- The attributes of a page that `ArmSetMemoryAttributes` makes up are in the attribute fields
of a secure leaf. -/
theorem gcdAttributeToPageAttribute_within (el : ExceptionLevel) (attributes : ℕ) :
    Within (gcdAttributeToPageAttribute el attributes) secureAttributesMask := by
  have hro : Within ttApRoRo secureAttributesMask := by decide
  have haf : Within ttAf secureAttributesMask := by decide
  have hxn : Within (if el = .el2 then ttXnMask else ttUxnMask ||| ttPxnMask)
      secureAttributesMask := by split <;> decide
  have hor : ∀ {p : Prop} [Decidable p] {a b : ℕ}, Within a secureAttributesMask →
      Within b secureAttributesMask → Within (if p then a ||| b else a) secureAttributesMask := by
    intro p _ a b ha hb
    split
    · exact ha.or hb
    · exact ha
  rw [gcdAttributeToPageAttribute]
  refine Within.or (hor (hor ?_ hxn) hro) haf
  repeat' split
  all_goals decide

/-- Every call is a run of `UpdateRegionMapping` that keeps all but the address and the bits
that the call is to take away. -/
theorem run_eq (alloc : ℕ → Option ℕ) (fuel : ℕ) (el : ExceptionLevel)
    (baseAddress length : ℕ) (st : MmuState) (call : AttributeCall) :
    call.run alloc fuel el baseAddress length st =
      updateRegionMapping alloc fuel st.ttbr0 baseAddress length (call.assigned el)
        (not64 (ttAddressMaskBlockEntry ||| call.cleared)) st := by
  cases call with
  | permission call => exact call.run_eq alloc fuel el baseAddress length st
  | memoryAttributes attributes typed =>
      have hmask : not64 (ttAddressMaskBlockEntry ||| (2 ^ 64 - 1)) = 0 := by decide
      rw [run, armSetMemoryAttributes, if_neg typed, cleared, hmask]
      rfl

/-- What a call does to the translation of an address of its region. The address is mapped to
itself, with the attributes that the call makes of the ones from before; where nothing was
mapped, of whatever is in the entry. -/
def Rewrites (el : ExceptionLevel) (call : AttributeCall) (x : ℕ)
    (old new : Option Translation) : Prop :=
  ∃ w, new = some ⟨x, call.apply el ((old.map Translation.attributes).getD w)⟩

/-- The attributes of an identity leaf, or nothing, are those of its word. -/
theorem translate_attributes_getD {n x w : ℕ} (h : LeafOk True n x w) :
    ((translate x ⟨n, w, 0⟩).map Translation.attributes).getD (w &&& ttAttributesMask) =
      w &&& ttAttributesMask := by
  rcases h.identity with hinv | ⟨hvalid, hself⟩
  · rw [translate_invalid hinv]
    rfl
  · rw [translate_identity hvalid hself, hierarchical_zero]
    rfl

/-- **What a call does to one entry** of a secure table. -/
theorem entryUpdate (el : ExceptionLevel) (call : AttributeCall) :
    EntryUpdate True (call.assigned el) (not64 (ttAddressMaskBlockEntry ||| call.cleared))
      fun _ => call.Rewrites el := by
  cases call with
  | permission call =>
      refine ⟨(call.entryUpdate el).leaf, ?_⟩
      intro n x w t hn hx ht hleaf
      obtain rfl := ht trivial
      obtain ⟨haddr, hattrs, htype⟩ :=
        updatedWord_fields (n := n) (w := w) hx call.cleared_within (call.assigned_within el)
      rw [hleaf.type_or] at htype
      refine ⟨w &&& ttAttributesMask, ?_⟩
      rw [translate_attributes_getD hleaf]
      change translate x ⟨n, updatedWord (call.assigned el)
        (not64 (ttAddressMaskBlockEntry ||| call.cleared)) n x w, 0⟩ = _
      rw [translate_identity (valid_of_leafType hn htype 0) haddr, hattrs, hierarchical_zero]
      rfl
  | memoryAttributes attributes typed =>
      have hmask : not64 (ttAddressMaskBlockEntry ||| (2 ^ 64 - 1)) = 0 := by decide
      have hwithin := gcdAttributeToPageAttribute_within el attributes
      have hfields : Within secureAttributesMask ttAttributesMask ∧
        secureAttributesMask &&& ttNs = 0 := by decide
      have hzero := entryUpdate_zero (hwithin.mono hfields.1) (hwithin.and_eq_zero hfields.2)
      rw [cleared, hmask]
      refine ⟨hzero.leaf, ?_⟩
      intro n x w t hn hx ht hleaf
      refine ⟨0, ?_⟩
      rw [apply_memoryAttributes]
      exact hzero.effect hn hx ht hleaf

end AttributeCall

/-! ### Fields of the attributes -/

/-- The fields of the attributes that calls write as a whole: access permissions, the two
execute-never bits, and the rest with the memory type. -/
def attributeFields : List ℕ := [ttApMask, ttPxnMask, ttUxnMask, keptAttributes]

/-- The fields of an entry lie in its 64 bits. -/
theorem lt_of_mem_attributeFields : ∀ field ∈ attributeFields, field < 2 ^ 64 := by decide

/-- Clearing the bits of `cleared` and setting those of `assigned` writes every field as a whole
or leaves it alone. -/
def WholeFields (cleared assigned : ℕ) : Prop :=
  ∀ field ∈ attributeFields, Within field (cleared ||| assigned) ∨
    field &&& cleared = 0 ∧ assigned &&& field = 0

instance (cleared assigned : ℕ) : Decidable (WholeFields cleared assigned) :=
  inferInstanceAs (Decidable (∀ field ∈ attributeFields, _))

namespace AttributeCall

/-- What a call makes of the value of a field: what it sets, when it writes the field. -/
def fieldStep (el : ExceptionLevel) (field : ℕ) (call : AttributeCall) (value : ℕ) : ℕ :=
  if Within field (call.cleared ||| call.assigned el) then call.assigned el &&& field else value

/-- A call writes a field as a whole, or it leaves it alone. -/
theorem wholeFields (el : ExceptionLevel) (call : AttributeCall) :
    WholeFields call.cleared (call.assigned el) := by
  cases call with
  | permission call =>
      cases call with
      | setMemoryAttributes attributes noType =>
          have hmask : ∀ field ∈ attributeFields,
              Within field permissionMask ∨ permissionMask &&& field = 0 := by decide
          intro field hfield
          rcases hmask field hfield with hwithin | hdisjoint
          · exact Or.inl (hwithin.or_right _)
          · exact Or.inr ⟨Nat.and_comm _ _ ▸ hdisjoint,
              ((PermissionCall.setMemoryAttributes attributes noType).assigned_within
                el).and_eq_zero hdisjoint⟩
      | setMemoryRegionNoExec =>
          cases el with
          | el1 => exact (by decide : WholeFields 0 (ttPxnMask ||| ttUxnMask))
          | el2 | el3 => exact (by decide : WholeFields 0 ttXnMask)
      | clearMemoryRegionNoExec => exact (by decide : WholeFields (ttPxnMask ||| ttUxnMask) 0)
      | setMemoryRegionReadOnly => exact (by decide : WholeFields 0 ttApRoRo)
      | clearMemoryRegionReadOnly => exact (by decide : WholeFields ttApMask ttApRwRw)
  | memoryAttributes attributes typed =>
      have hall : ∀ field ∈ attributeFields, Within field (2 ^ 64 - 1) := by decide
      exact fun field hfield => Or.inl ((hall field hfield).or_right _)

/-- The value of a field after a call. -/
theorem apply_field (el : ExceptionLevel) (call : AttributeCall) {field : ℕ}
    (hfield : field ∈ attributeFields) (a : ℕ) :
    call.apply el a &&& field = call.fieldStep el field (a &&& field) := by
  have hlt := lt_of_mem_attributeFields field hfield
  rw [apply, fieldStep]
  by_cases hwithin : Within field (call.cleared ||| call.assigned el)
  · rw [if_pos hwithin, update_and_of_within hlt hwithin]
  · rw [if_neg hwithin]
    rcases call.wholeFields el field hfield with h | ⟨hcleared, hassigned⟩
    · exact absurd h hwithin
    · exact update_and hlt hcleared hassigned

end AttributeCall

/-! ### Attribute maps -/

/-- The attributes of every mapped address. -/
abbrev AttributeMap := ℕ → Option ℕ

/-- A call with its region. -/
structure RegionCall where
  call : AttributeCall
  baseAddress : ℕ
  length : ℕ

namespace RegionCall

/-- The region of a call holds an address. -/
def Covers (c : RegionCall) (x : ℕ) : Prop :=
  c.baseAddress ≤ x ∧ x < c.baseAddress + c.length

instance (c : RegionCall) (x : ℕ) : Decidable (c.Covers x) :=
  inferInstanceAs (Decidable (_ ∧ _))

/-- The region lies in the address range, and it is not the whole of 48 bits. -/
def InRange (width : ℕ) (c : RegionCall) : Prop :=
  c.baseAddress + c.length ≤ 2 ^ width ∧ (c.baseAddress = 0 → c.length < 2 ^ 48)

/-- The call with its region. -/
def run (alloc : ℕ → Option ℕ) (fuel : ℕ) (el : ExceptionLevel) (c : RegionCall)
    (st : MmuState) : Except Halt EfiStatus × MmuState :=
  c.call.run alloc fuel el c.baseAddress c.length st

/-- The attributes of the region up to an address are rewritten by the call, and no others. -/
structure Rewritten (el : ExceptionLevel) (c : RegionCall) (stop : ℕ)
    (map map' : AttributeMap) : Prop where
  inside : ∀ x, c.baseAddress ≤ x → x < stop →
    ∃ w, map' x = some (c.call.apply el ((map x).getD w))
  outside : ∀ x, ¬ (c.baseAddress ≤ x ∧ x < stop) → map' x = map x

/-- A call maps what it rewrites, so nothing is unmapped. -/
theorem Rewritten.isSome {el : ExceptionLevel} {c : RegionCall} {stop x : ℕ}
    {map map' : AttributeMap} (h : c.Rewritten el stop map map') (hx : (map x).isSome) :
    (map' x).isSome := by
  by_cases hin : c.baseAddress ≤ x ∧ x < stop
  · obtain ⟨w, hw⟩ := h.inside x hin.1 hin.2
    rw [hw]
    rfl
  · rw [h.outside x hin]
    exact hx

end RegionCall

/-- **What a run of calls leaves** in a field of the attributes of an address: every call that
covers the address and writes the field sets it. -/
def fieldAfter (el : ExceptionLevel) (field x : ℕ) (calls : List RegionCall) (value : ℕ) : ℕ :=
  calls.foldl (fun value c => if c.Covers x then c.call.fieldStep el field value else value) value

namespace AttributeMap

/-- **One call**, by what it returns. A length that is not a positive number of pages is
refused. A call that runs out of resources has rewritten the region up to some address. -/
inductive Step (el : ExceptionLevel) (c : RegionCall) :
    EfiStatus → AttributeMap → AttributeMap → Prop
  | refused {map : AttributeMap} (invalid : c.length = 0 ∨ ¬ 4096 ∣ c.length) :
      Step el c .invalidParameter map map
  | stopped {stop : ℕ} {map map' : AttributeMap} (lt : stop < c.baseAddress + c.length)
      (rewritten : c.Rewritten el stop map map') : Step el c .outOfResources map map'
  | done {map map' : AttributeMap}
      (rewritten : c.Rewritten el (c.baseAddress + c.length) map map') :
      Step el c .success map map'

/-- **A run of calls**, with what they return. -/
inductive Run (el : ExceptionLevel) :
    List RegionCall → List EfiStatus → AttributeMap → AttributeMap → Prop
  | nil (map : AttributeMap) : Run el [] [] map map
  | cons {c : RegionCall} {calls : List RegionCall} {status : EfiStatus}
      {statuses : List EfiStatus} {map map₁ map₂ : AttributeMap}
      (step : Step el c status map map₁) (rest : Run el calls statuses map₁ map₂) :
      Run el (c :: calls) (status :: statuses) map map₂

variable {el : ExceptionLevel} {calls : List RegionCall} {statuses : List EfiStatus}
  {map map' : AttributeMap} {x : ℕ}

/-- A call leaves the addresses outside of its region alone. -/
theorem Step.untouched {c : RegionCall} {status : EfiStatus} (h : Step el c status map map')
    (hx : ¬ c.Covers x) : map' x = map x := by
  cases h with
  | refused invalid => rfl
  | stopped lt rewritten =>
      exact rewritten.outside x fun ⟨hlo, hhi⟩ => hx ⟨hlo, by omega⟩
  | done rewritten => exact rewritten.outside x hx

/-- **An address outside of all regions** keeps its attributes, by induction on the run. -/
theorem Run.untouched (h : Run el calls statuses map map') (hx : ∀ c ∈ calls, ¬ c.Covers x) :
    map' x = map x := by
  induction h with
  | nil map => rfl
  | cons step rest ih =>
      rw [ih fun c hc => hx c (List.mem_cons_of_mem _ hc),
        step.untouched (hx _ List.mem_cons_self)]

/-- No call unmaps an address. -/
theorem Step.isSome {c : RegionCall} {status : EfiStatus} (h : Step el c status map map')
    (hx : (map x).isSome) : (map' x).isSome := by
  cases h with
  | refused invalid => exact hx
  | stopped lt rewritten => exact rewritten.isSome hx
  | done rewritten => exact rewritten.isSome hx

/-- **An address that is mapped stays mapped.** -/
theorem Run.isSome (h : Run el calls statuses map map') (hx : (map x).isSome) :
    (map' x).isSome := by
  induction h with
  | nil map => exact hx
  | cons step rest ih => exact ih (step.isSome hx)

/-- An address in the region of a call that sets a memory type and succeeds. -/
theorem Step.memoryAttributes {attributes baseAddress length : ℕ}
    {typed : attributes &&& efiMemoryCachetypeMask ≠ 0}
    (h : Step el ⟨.memoryAttributes attributes typed, baseAddress, length⟩ .success map map')
    (hlo : baseAddress ≤ x) (hhi : x < baseAddress + length) :
    map' x = some (gcdAttributeToPageAttribute el attributes) := by
  cases h with
  | done rewritten =>
      obtain ⟨w, hw⟩ := rewritten.inside x hlo hhi
      rw [hw, AttributeCall.apply_memoryAttributes]

/-- One call on a mapped address that it covers, when it succeeds: the attributes are those that
the call makes. -/
theorem Step.apply {c : RegionCall} {a : ℕ} (h : Step el c .success map map')
    (hx : c.Covers x) (ha : map x = some a) : map' x = some (c.call.apply el a) := by
  cases h with
  | done rewritten =>
      obtain ⟨w, hw⟩ := rewritten.inside x hx.1 hx.2
      rw [hw, ha, Option.getD_some]

/-- **The last writer of a field**, by induction on the run. -/
theorem Run.field {field a : ℕ} (h : Run el calls statuses map map')
    (hfield : field ∈ attributeFields) (ha : map x = some a)
    (hok : ∀ p ∈ calls.zip statuses, p.1.Covers x → p.2 = .success) :
    ∃ a', map' x = some a' ∧ a' &&& field = fieldAfter el field x calls (a &&& field) := by
  induction h generalizing a with
  | nil map => exact ⟨a, ha, rfl⟩
  | @cons c calls status statuses map map₁ map₂ step rest ih =>
      have hrest : ∀ p ∈ calls.zip statuses, p.1.Covers x → p.2 = .success :=
        fun p hp => hok p (List.mem_cons_of_mem _ hp)
      rw [fieldAfter, List.foldl_cons]
      by_cases hx : c.Covers x
      · obtain rfl : status = .success := hok (c, status) List.mem_cons_self hx
        rw [if_pos hx, ← c.call.apply_field el hfield]
        exact ih (step.apply hx ha) hrest
      · rw [if_neg hx]
        exact ih ((step.untouched hx).trans ha) hrest

end AttributeMap

/-! ### The live table -/

/-- The attributes that the live table gives to the addresses. -/
def MmuState.attributeMap (st : MmuState) : AttributeMap := fun x =>
  (st.walk x).map Translation.attributes

/-- A live table without restrictions by table descriptors that maps addresses to themselves. -/
structure SecureTable (alloc : ℕ → Option ℕ) (st : MmuState) : Prop
    extends WellFormed alloc True st where
  identity : ∀ x tr, st.walk x = some tr → tr.outputAddress = x

section Run

variable {alloc : ℕ → Option ℕ} {cfg : WalkConfig} {root fuel : ℕ} {st st' : MmuState}
  {el : ExceptionLevel} {c : RegionCall}

/-- What the update of a region does to the live table, told of its attributes. -/
theorem rewritten_of_updated {stop : ℕ}
    (h : Updated st.config st.ttbr0 (fun _ => c.call.Rewrites el) c.baseAddress stop st st') :
    c.Rewritten el stop st.attributeMap st'.attributeMap := by
  have hwalk : ∀ x, st'.walk x = walk st.config st'.memory st.ttbr0 x := by
    intro x
    rw [st'.walk_eq, MmuState.config, h.tcr_eq, h.ttbr0_eq]
    rfl
  refine ⟨fun x hlo hhi => ?_, fun x hx => ?_⟩
  · obtain ⟨w, hw⟩ := h.inside x hlo hhi
    refine ⟨w, ?_⟩
    rw [MmuState.attributeMap, hwalk, hw]
    rfl
  · rw [MmuState.attributeMap, hwalk, h.outside x hx]
    rfl

/-- An update of a region leaves a table that maps addresses to themselves. -/
theorem SecureTable.of_updated {stop : ℕ} {shape : Shape} (htable : SecureTable alloc st)
    (hinv : TableInv alloc st.config True st.ttbr0 shape st')
    (h : Updated st.config st.ttbr0 (fun _ => c.call.Rewrites el) c.baseAddress stop st st') :
    SecureTable alloc st' ∧ st'.config = st.config := by
  have hconfig : st'.config = st.config := by rw [MmuState.config, MmuState.config, h.tcr_eq]
  refine ⟨⟨⟨h.tcr_eq ▸ htable.le_t0sz, h.tcr_eq ▸ htable.t0sz_lt, shape, ?_⟩, ?_⟩, hconfig⟩
  · rw [hconfig, h.ttbr0_eq]
    exact hinv
  · intro x tr htr
    rw [st'.walk_eq, hconfig, h.ttbr0_eq] at htr
    by_cases hx : c.baseAddress ≤ x ∧ x < stop
    · obtain ⟨w, hw⟩ := h.inside x hx.1 hx.2
      rw [hw] at htr
      obtain rfl := Option.some.inj htr
      rfl
    · rw [h.outside x hx] at htr
      exact htable.identity x tr htr

/-- A region that does not start at a page is not mapped at all. -/
theorem updateRegionMapping_unaligned {x len attributes mask : ℕ} (hfuel : 0 < fuel)
    (hx : ¬ 4096 ∣ x) (hlen : ¬ (len = 0 ∨ len % 4096 ≠ 0)) :
    updateRegionMapping alloc fuel root x len attributes mask st = (.ok .outOfResources, st) := by
  obtain ⟨fuel, rfl⟩ := Nat.exists_eq_succ_of_ne_zero (Nat.ne_of_gt hfuel)
  have hbad : x % 4096 ≠ 0 ∨ len % 4096 ≠ 0 ∨ len = 0 := by omega
  rw [updateRegionMapping, if_neg hlen, updateLoop, getBlockEntryListFromAddress, if_pos hbad]

/-- **One call** on the live table is one step of its attribute map. -/
theorem RegionCall.run_spec (el : ExceptionLevel) (hfresh : FreshAlloc alloc)
    (hfuel : 2 ^ 36 < fuel) (htable : SecureTable alloc st) (hrange : c.InRange st.config.width) :
    ∃ status st', c.run alloc fuel el st = (.ok status, st') ∧ SecureTable alloc st' ∧
      st'.config = st.config ∧
      AttributeMap.Step el c status st.attributeMap st'.attributeMap := by
  rw [RegionCall.run, c.call.run_eq]
  by_cases hvalid : c.length = 0 ∨ c.length % 4096 ≠ 0
  · rw [updateRegionMapping, if_pos hvalid]
    exact ⟨_, _, rfl, htable, rfl, .refused (by omega)⟩
  by_cases hbase : 4096 ∣ c.baseAddress
  · obtain ⟨shape, hinv⟩ := htable.table
    have hrun := updateRegionMapping_run htable.configOk hfresh (c.call.entryUpdate el) hinv
      htable.configured hfuel hbase (by omega) (by omega) hrange.1 hrange.2
    generalize updateRegionMapping alloc fuel st.ttbr0 c.baseAddress c.length
      (c.call.assigned el) (not64 (ttAddressMaskBlockEntry ||| c.call.cleared)) st = r at hrun
    cases hrun with
    | stopped lo_le lt_hi inv updated failure =>
        obtain ⟨htable', hconfig⟩ := htable.of_updated inv updated
        exact ⟨_, _, rfl, htable', hconfig, .stopped lt_hi (rewritten_of_updated updated)⟩
    | done inv updated =>
        obtain ⟨htable', hconfig⟩ := htable.of_updated inv updated
        exact ⟨_, _, rfl, htable', hconfig, .done (rewritten_of_updated updated)⟩
  · rw [updateRegionMapping_unaligned (by omega) hbase hvalid]
    refine ⟨_, _, rfl, htable, rfl, @AttributeMap.Step.stopped _ _ c.baseAddress _ _ (by omega) ?_⟩
    exact ⟨fun x hlo hhi => absurd hlo (by omega), fun x _ => rfl⟩

/-- A sequence of calls, with what they return. -/
def runAttributeCalls (alloc : ℕ → Option ℕ) (fuel : ℕ) (el : ExceptionLevel) :
    List RegionCall → MmuState → Except Halt (List EfiStatus) × MmuState
  | [], st => (.ok [], st)
  | c :: calls, st =>
      match c.run alloc fuel el st with
      | (.error e, st) => (.error e, st)
      | (.ok status, st) =>
          let (statuses, st) := runAttributeCalls alloc fuel el calls st
          (statuses.map (status :: ·), st)

/-- **A run of calls** on the live table is a run of its attribute map, by induction on the
calls. -/
theorem runAttributeCalls_spec (el : ExceptionLevel) (hfresh : FreshAlloc alloc)
    (hfuel : 2 ^ 36 < fuel) :
    ∀ {calls : List RegionCall} {st : MmuState}, SecureTable alloc st →
      (∀ c ∈ calls, c.InRange st.config.width) →
      ∃ statuses st', runAttributeCalls alloc fuel el calls st = (.ok statuses, st') ∧
        SecureTable alloc st' ∧
        AttributeMap.Run el calls statuses st.attributeMap st'.attributeMap := by
  intro calls
  induction calls with
  | nil =>
      intro st htable _
      exact ⟨[], st, rfl, htable, .nil _⟩
  | cons c calls ih =>
      intro st htable hrange
      obtain ⟨status, st₁, hrun, htable₁, hconfig, hstep⟩ :=
        c.run_spec el hfresh hfuel htable (hrange c List.mem_cons_self)
      obtain ⟨statuses, st₂, hrest, htable₂, hsteps⟩ := ih htable₁ fun c' hc' =>
        hconfig ▸ hrange c' (List.mem_cons_of_mem c hc')
      refine ⟨status :: statuses, st₂, ?_, htable₂, .cons hstep hsteps⟩
      rw [runAttributeCalls, hrun]
      dsimp only
      rw [hrest]
      rfl

/-! ### From the configuration on -/

/-- The attributes of the addresses that a region table maps. -/
def mappedAttributes (el : ExceptionLevel) (regions : List ArmMemoryRegionDescriptor) :
    AttributeMap := fun x => (mappedBy el regions x).map Translation.attributes

/-- An address that a region table maps is mapped to itself. -/
theorem mappedBy_identity {regions : List ArmMemoryRegionDescriptor} {x : ℕ} {tr : Translation}
    (h : mappedBy el regions x = some tr) : tr.outputAddress = x := by
  obtain ⟨r, -, rfl⟩ := Option.map_eq_some_iff.mp h
  rfl

/-- `ArmConfigureMmu` leaves a table that maps addresses to themselves. -/
theorem secureTable_of_configured {bits : ℕ} {regions : List ArmMemoryRegionDescriptor}
    (hwf : WellFormed alloc True st' ∧ st'.config = configOf bits ∧
      ∀ x, st'.walk x = mappedBy el regions x) :
    SecureTable alloc st' ∧ st'.config.width = addressWidth bits ∧
      st'.attributeMap = mappedAttributes el regions := by
  obtain ⟨hwell, hconfig, hwalk⟩ := hwf
  refine ⟨⟨hwell, fun x tr htr => ?_⟩, ?_, ?_⟩
  · rw [hwalk] at htr
    exact mappedBy_identity htr
  · rw [hconfig, configOf_width]
  · funext x
    rw [MmuState.attributeMap, hwalk, mappedAttributes]

/-- The live table translates an address to itself, with the attributes of the map. -/
theorem SecureTable.walk_eq (h : SecureTable alloc st) (x : ℕ) :
    st.walk x = (st.attributeMap x).map fun a => ⟨x, a⟩ := by
  rw [MmuState.attributeMap]
  cases htr : st.walk x with
  | none => rfl
  | some tr =>
      rw [Option.map_some, Option.map_some, ← h.identity x tr htr]

section Configured

variable {bits : ℕ} {regions rest : List ArmMemoryRegionDescriptor}
  {terminator : ArmMemoryRegionDescriptor} {calls : List RegionCall}
  {statuses : List EfiStatus} {st₀ : MmuState}

/-- **The life of the table.** After `ArmConfigureMmu`, any sequence of calls on regions of the
address range returns, whatever allocations fail, and leaves an identity mapped table whose
attributes are those of a run of the attribute map. -/
theorem runAttributeCalls_simulates (hbits : 32 ≤ bits) (hel : el ≠ .el3)
    (hfresh : FreshAlloc alloc) (hfuel : 2 ^ 36 < fuel) (hterm : terminator.length = 0)
    (hregions : ∀ r ∈ regions, r.Mappable (addressWidth bits))
    (h : armConfigureMmu alloc fuel el bits (regions ++ terminator :: rest) st₀ =
      (.ok .success, st)) (hrange : ∀ c ∈ calls, c.InRange (addressWidth bits)) :
    ∃ statuses st', runAttributeCalls alloc fuel el calls st = (.ok statuses, st') ∧
      SecureTable alloc st' ∧
      AttributeMap.Run el calls statuses (mappedAttributes el regions) st'.attributeMap := by
  obtain ⟨htable, hwidth, hmap⟩ := secureTable_of_configured
    (armConfigureMmu_wellFormed hbits hel hfresh hfuel hterm hregions h)
  obtain ⟨statuses, st', hrun, htable', hsteps⟩ :=
    runAttributeCalls_spec el hfresh hfuel htable fun c hc => hwidth ▸ hrange c hc
  exact ⟨statuses, st', hrun, htable', hmap ▸ hsteps⟩

/-- **Every field of the attributes is the one of its last writer.** -/
theorem runAttributeCalls_fields (hbits : 32 ≤ bits) (hel : el ≠ .el3) (hfresh : FreshAlloc alloc)
    (hfuel : 2 ^ 36 < fuel) (hterm : terminator.length = 0)
    (hregions : ∀ r ∈ regions, r.Mappable (addressWidth bits))
    (h : armConfigureMmu alloc fuel el bits (regions ++ terminator :: rest) st₀ =
      (.ok .success, st)) (hrange : ∀ c ∈ calls, c.InRange (addressWidth bits))
    (hrun : runAttributeCalls alloc fuel el calls st = (.ok statuses, st')) {x : ℕ}
    {tr : Translation}
    (htr : mappedBy el regions x = some tr)
    (hok : ∀ p ∈ calls.zip statuses, p.1.Covers x → p.2 = .success) :
    ∃ a, st'.walk x = some ⟨x, a⟩ ∧ ∀ field ∈ attributeFields,
      a &&& field = fieldAfter el field x calls (tr.attributes &&& field) := by
  obtain ⟨htable, hwidth, hmap⟩ := secureTable_of_configured
    (armConfigureMmu_wellFormed hbits hel hfresh hfuel hterm hregions h)
  obtain ⟨_, _, hrun', htable', hsteps⟩ :=
    runAttributeCalls_spec el hfresh hfuel htable fun c hc => hwidth ▸ hrange c hc
  rw [hrun] at hrun'
  obtain ⟨hstatuses, rfl⟩ := Prod.mk.injEq .. ▸ hrun'
  obtain rfl := Except.ok.inj hstatuses
  have hold : st.attributeMap x = some tr.attributes := by
    rw [hmap, mappedAttributes, htr, Option.map_some]
  obtain ⟨a, ha⟩ := Option.isSome_iff_exists.mp (hsteps.isSome (by rw [hold]; rfl))
  refine ⟨a, by rw [htable'.walk_eq, ha]; rfl, fun field hfield => ?_⟩
  obtain ⟨a', ha', hvalue⟩ := hsteps.field hfield hold hok
  obtain rfl : a = a' := Option.some.inj (ha.symm.trans ha')
  exact hvalue

end Configured

/-- The region table of `MemoryPeim` consists of regions that can be mapped, and a terminator. -/
theorem memoryPeim_secureTable {bits : ℕ} {flags : BuildFlags} {banks : List FdtBank}
    {r : PeimResult} (hbits : 34 ≤ bits) (hr : memoryPeim (getPlatformMemoryMap flags) banks = some r) :
    ∃ regions, r.memoryTable = regions ++ [terminatorRegion] ∧
      ∀ region ∈ regions, region.Mappable (addressWidth bits) := by
  have hmem := selectMem_mem_memSizes (memoryTotal banks)
  rw [memoryPeim_platformMap] at hr
  obtain rfl := Option.some.inj hr
  have hwidth : 34 ≤ addressWidth bits := le_min hbits (by omega)
  exact ⟨_, rfl, fun region hregion =>
    (mappedRegions_mappable flags.lgPilFixed flags.nb1Fixed _ hmem region hregion).1.mono hwidth⟩

/-- `ArmConfigureMmu` on the region table of `MemoryPeim` leaves a table that maps addresses to
themselves, as the region table says. -/
theorem memoryPeim_configured {bits : ℕ} {flags : BuildFlags} {banks : List FdtBank}
    {r : PeimResult} {st₀ : MmuState} (hbits : 34 ≤ bits) (hel : el ≠ .el3)
    (hfresh : FreshAlloc alloc) (hfuel : 2 ^ 36 < fuel)
    (hr : memoryPeim (getPlatformMemoryMap flags) banks = some r)
    (h : armConfigureMmu alloc fuel el bits r.memoryTable st₀ = (.ok .success, st)) :
    SecureTable alloc st ∧ st.config.width = addressWidth bits ∧
      ∀ x, st.walk x = mappedBy el r.memoryTable x := by
  obtain ⟨regions, htab, hregions⟩ := memoryPeim_secureTable hbits hr
  rw [htab] at h ⊢
  have hterm : terminatorRegion.length = 0 := rfl
  have hwf := armConfigureMmu_wellFormed (by omega) hel hfresh hfuel hterm hregions h
  obtain ⟨hsecure, hwidth, -⟩ := secureTable_of_configured hwf
  refine ⟨hsecure, hwidth, fun x => ?_⟩
  rw [hwf.2.2, mappedBy_terminated]

/-- **The map of the platform outlives all calls.** `ArmConfigureMmu` on the region table of
`MemoryPeim` succeeds unless an allocation fails. When it does, every sequence of calls on
regions of the address range leaves each address outside of the regions as the region table maps
it, and each other one that was mapped stays mapped to itself. -/
theorem memoryPeim_runAttributeCalls {bits : ℕ} {flags : BuildFlags} {banks : List FdtBank}
    {r : PeimResult} {calls : List RegionCall} {st₀ : MmuState} (hbits : 34 ≤ bits)
    (hel : el ≠ .el3) (hfresh : FreshAlloc alloc) (hfuel : 2 ^ 36 < fuel)
    (hr : memoryPeim (getPlatformMemoryMap flags) banks = some r)
    (hrange : ∀ c ∈ calls, c.InRange (addressWidth bits)) :
    ∃ res st, armConfigureMmu alloc fuel el bits r.memoryTable st₀ = (res, st) ∧
      (¬ AllocFailed alloc st₀ st → res = .ok .success) ∧
      (res = .ok .success → ∃ statuses st',
        runAttributeCalls alloc fuel el calls st = (.ok statuses, st') ∧
        (∀ x, (∀ c ∈ calls, ¬ c.Covers x) → st'.walk x = mappedBy el r.memoryTable x) ∧
        ∀ x tr, mappedBy el r.memoryTable x = some tr → ∃ a, st'.walk x = some ⟨x, a⟩) := by
  refine ⟨_, _, (Prod.eta (armConfigureMmu alloc fuel el bits r.memoryTable st₀)).symm,
    fun hok => ?_, fun hres => ?_⟩
  · obtain ⟨st', hrun, -⟩ := memoryPeim_maps hbits hel hfresh hfuel hr hok
    rw [hrun]
  obtain ⟨hsecure, hwidth, hwalk⟩ :=
    memoryPeim_configured hbits hel hfresh hfuel hr (Prod.ext hres rfl)
  obtain ⟨statuses, st', hrun, htable, hsteps⟩ :=
    runAttributeCalls_spec el hfresh hfuel hsecure fun c hc => hwidth ▸ hrange c hc
  refine ⟨statuses, st', hrun, fun x hx => ?_, fun x tr htr => ?_⟩
  · rw [htable.walk_eq, hsteps.untouched hx, ← hsecure.walk_eq, hwalk]
  · rw [← hwalk] at htr
    have hsome := hsteps.isSome (x := x) (by rw [MmuState.attributeMap, htr]; rfl)
    obtain ⟨a, ha⟩ := Option.isSome_iff_exists.mp hsome
    exact ⟨a, by rw [htable.walk_eq, ha]; rfl⟩

end Run

/-! ### Calls on two MiB of memory -/

theorem uc_typed : efiMemoryUc &&& efiMemoryCachetypeMask ≠ 0 := by decide

/-- The second page is made read-only, and then the first two pages are made device memory. -/
def pageCalls : List RegionCall :=
  [⟨.permission .setMemoryRegionReadOnly, 0x80001000, 0x1000⟩,
    ⟨.memoryAttributes efiMemoryUc uc_typed, 0x80000000, 0x2000⟩]

/-- Both calls are about a page below 64 GiB. -/
theorem pageCalls_inRange : ∀ c ∈ pageCalls, c.InRange (addressWidth 36) := by
  intro c hc
  rcases List.mem_cons.mp hc with rfl | hc
  · exact ⟨by decide, by decide⟩
  · obtain rfl := List.mem_singleton.mp hc
    exact ⟨by decide, by decide⟩

/-- Two calls on a page of a block of memory, against the map of attributes. -/
theorem runAttributeCalls_simulates_pages : ∃ statuses st',
    runAttributeCalls tenPages (2 ^ 36 + 1) .el1 pageCalls ramState = (.ok statuses, st') ∧
      SecureTable tenPages st' ∧
      AttributeMap.Run .el1 pageCalls statuses (mappedAttributes .el1 [ramBlock])
        st'.attributeMap :=
  runAttributeCalls_simulates (by decide) (by decide) freshAlloc_tenPages (Nat.lt_succ_self _) rfl
    ramBlock_mappable ramState_success pageCalls_inRange

/-- The table after the calls. -/
def pageState : MmuState := (runAttributeCalls tenPages (2 ^ 36 + 1) .el1 pageCalls ramState).2

/-- What the two calls return. -/
theorem pageCalls_run : runAttributeCalls tenPages (2 ^ 36 + 1) .el1 pageCalls ramState =
    (.ok [.success, .success], pageState) := rfl

/-- Before them the page is mapped as the block is. -/
theorem ramBlock_mapped : mappedBy .el1 [ramBlock] 0x80001000 =
    some ⟨0x80001000, pageAttributes .el1 .writeBack⟩ := rfl

/-- Every field of the page is what the two calls made of it. -/
theorem runAttributeCalls_fields_pages : ∃ a, pageState.walk 0x80001000 = some ⟨0x80001000, a⟩ ∧
    ∀ field ∈ attributeFields, a &&& field =
      fieldAfter .el1 field 0x80001000 pageCalls (pageAttributes .el1 .writeBack &&& field) :=
  runAttributeCalls_fields (by decide) (by decide) freshAlloc_tenPages (Nat.lt_succ_self _) rfl
    ramBlock_mappable ramState_success pageCalls_inRange
    pageCalls_run ramBlock_mapped (by simp [pageCalls])

/-- An allocator with four GiB of pages. -/
def manyPages (k : ℕ) : Option ℕ := if k < 2 ^ 20 then some ((k + 1) * 4096) else none

/-- The pages that are given out lie in the first 4 GiB. -/
theorem manyPages_eq_some {k p : ℕ} (h : manyPages k = some p) :
    k < 2 ^ 20 ∧ p = (k + 1) * 4096 := by
  rw [manyPages] at h
  split at h
  · rename_i hk
    exact ⟨hk, (Option.some.inj h).symm⟩
  · exact absurd h (by simp)

theorem freshAlloc_manyPages : FreshAlloc manyPages where
  pos h := by
    obtain ⟨-, rfl⟩ := manyPages_eq_some h
    omega
  aligned h := by
    obtain ⟨-, rfl⟩ := manyPages_eq_some h
    exact Nat.dvd_mul_left 4096 _
  lt h := by
    obtain ⟨hk, rfl⟩ := manyPages_eq_some h
    omega
  inj h h' := by
    obtain ⟨-, rfl⟩ := manyPages_eq_some h
    obtain ⟨-, heq⟩ := manyPages_eq_some h'
    omega

/-- The two calls on the table of a phone whose memory is not described, from the blank state. -/
theorem memoryPeim_runAttributeCalls_pages : ∃ res st,
    armConfigureMmu manyPages (2 ^ 36 + 1) .el1 36
        (peimRun ⟨false, false⟩ (selectMem (memoryTotal []))).memoryTable blankState = (res, st) ∧
      (¬ AllocFailed manyPages blankState st → res = .ok .success) ∧
      (res = .ok .success → ∃ statuses st',
        runAttributeCalls manyPages (2 ^ 36 + 1) .el1 pageCalls st = (.ok statuses, st') ∧
        (∀ x, (∀ c ∈ pageCalls, ¬ c.Covers x) → st'.walk x = mappedBy .el1
          (peimRun ⟨false, false⟩ (selectMem (memoryTotal []))).memoryTable x) ∧
        ∀ x tr, mappedBy .el1 (peimRun ⟨false, false⟩
          (selectMem (memoryTotal []))).memoryTable x = some tr → ∃ a,
            st'.walk x = some ⟨x, a⟩) :=
  memoryPeim_runAttributeCalls (by decide) (by decide) freshAlloc_manyPages (Nat.lt_succ_self _)
    (memoryPeim_platformMap _ _) pageCalls_inRange

end Msm8998
