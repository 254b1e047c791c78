import Mathlib.Data.Finset.Basic
import Mathlib.Data.Finset.Card
import Msm8998.OrderedDict

/-!
# Differences between Dictionaries

The keys of a dictionary as a set, the keys that only one of two dictionaries has, and those
under which both have a value, but not the same.

## Main results

* `Dict.mem_onlyIn`, `Dict.mem_changed`: membership in terms of the values.
-/

namespace OrderedDict

namespace Dict

variable {κ ν : Type*} [DecidableEq κ] {d e : Dict κ ν} {k : κ}

/-- The keys. -/
def keys (d : Dict κ ν) : Finset κ := (d.entries.map Prod.fst).toFinset

/-- The keys that the second dictionary does not have. -/
def onlyIn (d e : Dict κ ν) : Finset κ := d.keys \ e.keys

/-- The keys of both, with different values. -/
def changed [DecidableEq ν] (d e : Dict κ ν) : Finset κ :=
  (d.keys ∩ e.keys).filter fun k => d.get? k ≠ e.get? k

/-- A key is there when there is a value under it. -/
theorem mem_keys : k ∈ d.keys ↔ ∃ v, d.get? k = some v := by
  rw [keys, List.mem_toFinset, ← Option.isSome_iff_exists, get?, Option.isSome_map,
    List.find?_isSome]
  simp only [List.mem_map, decide_eq_true_eq]

/-- A key that is not in a dictionary has no value there. -/
theorem not_mem_keys : k ∉ d.keys ↔ d.get? k = none := by
  rw [mem_keys, ← Option.isSome_iff_exists, Bool.not_eq_true, Option.isSome_eq_false_iff,
    Option.isNone_iff_eq_none]

/-- The keys of one side only. -/
theorem mem_onlyIn : k ∈ d.onlyIn e ↔ (∃ v, d.get? k = some v) ∧ e.get? k = none := by
  rw [onlyIn, Finset.mem_sdiff, mem_keys, not_mem_keys]

variable [DecidableEq ν]

/-- The keys of both sides whose values differ. -/
theorem mem_changed :
    k ∈ d.changed e ↔ ∃ v w, d.get? k = some v ∧ e.get? k = some w ∧ v ≠ w := by
  rw [changed, Finset.mem_filter, Finset.mem_inter, mem_keys, mem_keys]
  constructor
  · rintro ⟨⟨⟨v, hv⟩, w, hw⟩, hne⟩
    exact ⟨v, w, hv, hw, fun heq => hne (hv.trans (heq ▸ hw.symm))⟩
  · rintro ⟨v, w, hv, hw, hne⟩
    refine ⟨⟨⟨v, hv⟩, w, hw⟩, fun heq => hne ?_⟩
    rw [hv, hw] at heq
    exact Option.some.inj heq

end Dict

end OrderedDict
