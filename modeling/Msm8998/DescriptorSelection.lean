import Mathlib.Algebra.GroupWithZero.Nat
import Msm8998.CarveOut

/-!
# What the Options of the Platform Map Select

The options of the rows say which of them `MemoryPeim` publishes and which it maps. This
module states that meaning row by row (`Publishes`, `Maps`), and the size that the sum of the
banks stands for (`sizeFor`), without reference to the loop, and shows that the run follows it.

## Main results

* `memoryTotal_eq`, `selectMem_eq`: the counter is the sum of the banks modulo `2 ^ 64`, and
  the three overwriting lines choose as the intervals say.
* `memoryPeim_selects`: HOBs and table are the selected rows in map order.
-/

namespace Msm8998

/-! ### The size -/

/-- The size that a sum of bank sizes stands for: 6 or 8 GiB strictly inside their intervals,
and 4 GiB otherwise. -/
def sizeFor (sum : ℕ) : DeviceMemoryAddHob :=
  if 5120 * 2 ^ 20 < sum ∧ sum < 6656 * 2 ^ 20 then .mem6G
  else if 7168 * 2 ^ 20 < sum ∧ sum < 8704 * 2 ^ 20 then .mem8G
  else .mem4G

/-- The running sum of the bank sizes is their sum, modulo the width of the counter. -/
theorem foldl_add_mod (banks : List FdtBank) (total : ℕ) :
    banks.foldl (fun total b => (total + b.size) % 2 ^ 64) (total % 2 ^ 64) =
      (total + (banks.map FdtBank.size).sum) % 2 ^ 64 := by
  induction banks generalizing total with
  | nil => rfl
  | cons b banks ih =>
      rw [List.foldl_cons, Nat.mod_add_mod, ih, List.map_cons, List.sum_cons, Nat.add_assoc]

/-- The counter after the enumeration is the 64-bit sum. -/
theorem memoryTotal_eq (banks : List FdtBank) :
    memoryTotal banks = (banks.map FdtBank.size).sum % 2 ^ 64 := by
  have hfold := foldl_add_mod banks 0
  rwa [Nat.zero_add, Nat.zero_mod] at hfold

/-- The test of the memory size, in bytes. -/
theorem sizeMBIn_iff (min max total : ℕ) :
    sizeMBIn min max total = true ↔ min * 2 ^ 20 < total ∧ total < max * 2 ^ 20 := by
  rw [sizeMBIn, Bool.and_eq_true, decide_eq_true_eq, decide_eq_true_eq]
  rfl

/-- The three lines that overwrite one another choose the size the intervals give. -/
theorem selectMem_eq (total : ℕ) : selectMem total = sizeFor total := by
  have hapart : ¬ ((5120 * 2 ^ 20 < total ∧ total < 6656 * 2 ^ 20) ∧
      (7168 * 2 ^ 20 < total ∧ total < 8704 * 2 ^ 20)) := by omega
  simp only [selectMem, sizeFor, sizeMBIn_iff, ite_self]
  split
  · rename_i h8
    rw [if_neg fun h6 => hapart ⟨h6, h8⟩]
  · rfl

/-! ### The rows -/

/-- The rows that are published when `mem` is the size. -/
def Publishes (mem : DeviceMemoryAddHob) (d : ArmMemoryRegionDescriptorEx) : Prop :=
  d.hobOption = .addMem ∨ d.hobOption = .addDev ∨ d.hobOption = .hobOnlyNoCacheSetting ∨
    d.hobOption = mem

instance (mem : DeviceMemoryAddHob) : DecidablePred (Publishes mem) :=
  fun _ => inferInstanceAs (Decidable (_ ∨ _))

/-- The rows that are mapped when `mem` is the size. -/
def Maps (mem : DeviceMemoryAddHob) (d : ArmMemoryRegionDescriptorEx) : Prop :=
  d.hobOption ≠ .hobOnlyNoCacheSetting ∧ ¬ (d.hobOption.IsMemSize ∧ d.hobOption ≠ mem)

instance (mem : DeviceMemoryAddHob) : DecidablePred (Maps mem) :=
  fun _ => inferInstanceAs (Decidable (_ ∧ _))

variable {mem : DeviceMemoryAddHob}

/-- The test for a row to be published is the condition on it. -/
theorem published_eq (hmem : mem.IsMemSize) (d : ArmMemoryRegionDescriptorEx) :
    published mem d = decide (Publishes mem d) := by
  rw [published, Bool.eq_iff_iff, decide_eq_true_eq, Publishes]
  rcases hmem with rfl | rfl | rfl <;> cases d.hobOption <;> simp

/-- So is the test for a row to be mapped. -/
theorem mapped_eq_decide (mem : DeviceMemoryAddHob) (d : ArmMemoryRegionDescriptorEx) :
    mapped mem d = decide (Maps mem d) := by
  rw [mapped, Bool.eq_iff_iff, decide_eq_true_eq, Maps]
  cases d.hobOption <;> simp [DeviceMemoryAddHob.IsMemSize]

/-- **The selection.** On a terminated map with room for the rows that are mapped, each of the
published rows gets its resource descriptor and its memory allocation, once and in map order, and
the table is the mapped rows, identity mapped, each once and in map order, followed by a
terminator of zeros. -/
theorem memoryPeim_selects (map : List ArmMemoryRegionDescriptorEx) (banks : List FdtBank)
    (hterm : Terminated map)
    (hroom : ((liveRows map).filter
      (Maps (sizeFor ((banks.map FdtBank.size).sum % 2 ^ 64)))).length < 128) :
    memoryPeim map banks = some
      { hobs := ((liveRows map).filter
          (Publishes (sizeFor ((banks.map FdtBank.size).sum % 2 ^ 64)))).flatMap fun d =>
            [.resourceDescriptor d.resourceType d.resourceAttribute d.address d.length,
             .memoryAllocation d.address d.length d.memoryType]
        memoryTable := (((liveRows map).filter
          (Maps (sizeFor ((banks.map FdtBank.size).sum % 2 ^ 64)))).map fun d =>
            ⟨d.address, d.address, d.length, d.armAttributes⟩) ++
            [⟨0, 0, 0, .uncachedUnbuffered⟩] } := by
  have hmem : selectMem (memoryTotal banks) =
      sizeFor ((banks.map FdtBank.size).sum % 2 ^ 64) := by
    rw [selectMem_eq, memoryTotal_eq]
  have hsize := selectMem_mem (memoryTotal banks)
  have hhobs : publishedHobs (selectMem (memoryTotal banks)) map = ((liveRows map).filter
      (Publishes (sizeFor ((banks.map FdtBank.size).sum % 2 ^ 64)))).flatMap addHob := by
    rw [publishedHobs, ← hmem, funext (published_eq hsize)]
  have hregions : mappedRegions (selectMem (memoryTotal banks)) map = ((liveRows map).filter
      (Maps (sizeFor ((banks.map FdtBank.size).sum % 2 ^ 64)))).map (·.region) := by
    rw [mappedRegions, ← hmem, funext (mapped_eq_decide _)]
  rw [memoryPeim_eq hterm (by rwa [hregions, List.length_map]), hhobs, hregions]
  rfl

/-- The selection from the map of the `NB1_FIXED` build and a bank of 6 GiB. -/
theorem memoryPeim_selects_nb1 :
    memoryPeim (getPlatformMemoryMap ⟨false, true⟩)
      [⟨0x80000000, 0x180000000, by decide, by decide⟩] = some
      { hobs := ((liveRows (getPlatformMemoryMap ⟨false, true⟩)).filter
          (Publishes .mem6G)).flatMap fun d =>
            [.resourceDescriptor d.resourceType d.resourceAttribute d.address d.length,
             .memoryAllocation d.address d.length d.memoryType]
        memoryTable := (((liveRows (getPlatformMemoryMap ⟨false, true⟩)).filter
          (Maps .mem6G)).map fun d => ⟨d.address, d.address, d.length, d.armAttributes⟩) ++
            [⟨0, 0, 0, .uncachedUnbuffered⟩] } :=
  memoryPeim_selects _ _ (platformMap_fits false true .mem4G (by decide)).1 (by decide +kernel)

end Msm8998
