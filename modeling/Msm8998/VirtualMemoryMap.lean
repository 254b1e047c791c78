import Msm8998.CarveOut

/-!
# The Two Builders of the Region List

This module models `ArmPlatformGetVirtualMemoryMap`, which fills a region table from the
platform map as `MemoryPeim` does, and compares the two tables. Where the table is stored is
left out, and a failed `ASSERT` is `none`.

The two loops differ in what they leave out. `MemoryPeim` skips the rows of the memory sizes
it has not selected, and this loop knows nothing of sizes.

## Main results

* `walkVirtualMap_eq_some_iff`, `armPlatformGetVirtualMemoryMap_eq`: the table is a filter of
  the live rows, when it has room for them.
* `memoryPeim_table`: the table of `MemoryPeim`, whenever it makes one.
* `virtualMemoryMap_agrees_iff`: the tables are the same exactly when every live row for a
  memory size is one for the selected size, or neither function has room.
-/

namespace Msm8998

/-- The body of the loop of `ArmPlatformGetVirtualMemoryMap`. -/
def virtualMapStep (d : ArmMemoryRegionDescriptorEx) (table : List ArmMemoryRegionDescriptor) :
    Option (List ArmMemoryRegionDescriptor) :=
  if d.hobOption = .hobOnlyNoCacheSetting then some table
  else if table.length < maxArmMemoryRegionDescriptorCount then some (table ++ [d.region])
  else none

/-- The loop, which stops at the first row of zero `Length`. -/
def walkVirtualMap : List ArmMemoryRegionDescriptorEx → List ArmMemoryRegionDescriptor →
    Option (List ArmMemoryRegionDescriptor)
  | [], _ => none
  | d :: ds, table =>
      if d.length = 0 then some table else (virtualMapStep d table).bind (walkVirtualMap ds)

/-- `ArmPlatformGetVirtualMemoryMap` on a platform map. -/
def armPlatformGetVirtualMemoryMap (map : List ArmMemoryRegionDescriptorEx) :
    Option (List ArmMemoryRegionDescriptor) := do
  let table ← walkVirtualMap map []
  if table.length < maxArmMemoryRegionDescriptorCount then
    some (table ++ [terminatorRegion])
  else
    none

/-! ### The table as a filter -/

/-- The rows that are not for the HOB list alone. -/
def listed (d : ArmMemoryRegionDescriptorEx) : Bool :=
  decide (d.hobOption ≠ .hobOnlyNoCacheSetting)

/-- The table without its terminator. -/
def listedRegions (map : List ArmMemoryRegionDescriptorEx) : List ArmMemoryRegionDescriptor :=
  ((liveRows map).filter listed).map (·.region)

variable {map : List ArmMemoryRegionDescriptorEx} {mem : DeviceMemoryAddHob}
  {d : ArmMemoryRegionDescriptorEx}

/-- A row with a length is live. -/
theorem liveRows_cons (hd : d.length ≠ 0) (ds : List ArmMemoryRegionDescriptorEx) :
    liveRows (d :: ds) = d :: liveRows ds :=
  List.takeWhile_cons_of_pos (decide_eq_true hd)

/-- No row behind the terminator is. -/
theorem liveRows_terminator (hd : d.length = 0) (ds : List ArmMemoryRegionDescriptorEx) :
    liveRows (d :: ds) = [] :=
  List.takeWhile_cons_of_neg (by simpa using hd)

/-- The terminator comes behind a row with a length. -/
theorem terminated_cons (hd : d.length ≠ 0) {ds : List ArmMemoryRegionDescriptorEx} :
    Terminated (d :: ds) ↔ Terminated ds := by
  simp only [Terminated, List.mem_cons, exists_eq_or_imp, hd, false_or]

/-- The regions that are listed, row by row. -/
theorem listedRegions_cons (hd : d.length ≠ 0) (ds : List ArmMemoryRegionDescriptorEx) :
    listedRegions (d :: ds) = (if listed d then [d.region] else []) ++ listedRegions ds := by
  rw [listedRegions, liveRows_cons hd, List.filter_cons]
  split <;> rfl

/-- The rows the loop has passed stand in the table, as long as there is room for them. -/
theorem walkVirtualMap_eq_some_iff {table table' : List ArmMemoryRegionDescriptor}
    (htable : table.length ≤ maxArmMemoryRegionDescriptorCount) :
    walkVirtualMap map table = some table' ↔ Terminated map ∧
      (table ++ listedRegions map).length ≤ maxArmMemoryRegionDescriptorCount ∧
      table' = table ++ listedRegions map := by
  induction map generalizing table with
  | nil =>
      refine iff_of_false (by simp [walkVirtualMap]) ?_
      rintro ⟨⟨d, hd, -⟩, -⟩
      cases hd
  | cons d ds ih =>
      by_cases hd : d.length = 0
      · have hnone : listedRegions (d :: ds) = [] := by
          rw [listedRegions, liveRows_terminator hd]
          rfl
        rw [walkVirtualMap, if_pos hd, hnone, List.append_nil, Option.some.injEq]
        exact ⟨fun h => ⟨⟨d, List.mem_cons_self, hd⟩, htable, h.symm⟩, fun h => h.2.2.symm⟩
      rw [walkVirtualMap, if_neg hd, terminated_cons hd, listedRegions_cons hd, virtualMapStep]
      by_cases hlisted : d.hobOption = .hobOnlyNoCacheSetting
      · rw [if_pos hlisted, Option.bind_some, ih htable]
        simp [listed, hlisted]
      rw [if_neg hlisted, listed, decide_eq_true hlisted, if_pos rfl, ← List.append_assoc]
      by_cases hroom : table.length < maxArmMemoryRegionDescriptorCount
      · have hnext : (table ++ [d.region]).length ≤ maxArmMemoryRegionDescriptorCount := by
          rw [List.length_append]
          exact hroom
        rw [if_pos hroom, Option.bind_some, ih hnext]
      · rw [if_neg hroom]
        refine iff_of_false (by simp) ?_
        rintro ⟨-, hlen, -⟩
        simp only [List.length_append, List.length_cons, List.length_nil] at hlen
        omega

/-- **The table** is the filter of the live rows and the terminator, if it has room. -/
theorem armPlatformGetVirtualMemoryMap_eq (hterm : Terminated map) :
    armPlatformGetVirtualMemoryMap map =
      if (listedRegions map).length < maxArmMemoryRegionDescriptorCount then
        some (listedRegions map ++ [terminatorRegion])
      else none := by
  have hwalk : ∀ table, walkVirtualMap map [] = some table ↔
      (listedRegions map).length ≤ maxArmMemoryRegionDescriptorCount ∧
        table = listedRegions map := by
    intro table
    rw [walkVirtualMap_eq_some_iff (Nat.zero_le _), List.nil_append, and_iff_right hterm]
  rw [armPlatformGetVirtualMemoryMap]
  cases h : walkVirtualMap map [] with
  | none =>
      rw [if_neg]
      · rfl
      · intro hroom
        have hsome := (hwalk _).mpr ⟨Nat.le_of_lt hroom, rfl⟩
        rw [h] at hsome
        cases hsome
  | some table =>
      obtain ⟨-, rfl⟩ := (hwalk table).mp h
      rfl

/-! ### The table of `MemoryPeim` -/

/-- The regions that are mapped, row by row. -/
theorem mappedRegions_cons (hd : d.length ≠ 0) (ds : List ArmMemoryRegionDescriptorEx) :
    mappedRegions mem (d :: ds) =
      (if mapped mem d then [d.region] else []) ++ mappedRegions mem ds := by
  rw [mappedRegions, liveRows_cons hd, List.filter_cons]
  split <;> rfl

/-- A row that is mapped comes last in the table. -/
theorem updateTable_eq_some {st st' : PeimState} (h : updateTable d st = some st') :
    st'.memoryTable = st.memoryTable ++ [d.region] := by
  rw [updateTable] at h
  split at h
  · cases h
    rfl
  · cases h

/-- A row that is handled without an error goes into the table if it is listed. -/
theorem publishRow_eq_some {st st' : PeimState} (h : publishRow d st = some st') :
    st'.memoryTable = st.memoryTable ++ if listed d then [d.region] else [] := by
  rw [publishRow] at h
  split at h
  · rename_i honly
    cases h
    rw [listed, if_neg (by simpa using honly), List.append_nil]
  · rename_i honly
    rw [updateTable_eq_some h, listed, if_pos (by simpa using honly)]

/-- An iteration that does not fail stores the row if it is mapped. -/
theorem descriptorStep_eq_some {st st' : PeimState} (h : descriptorStep mem d st = some st') :
    st'.memoryTable = st.memoryTable ++ if mapped mem d then [d.region] else [] := by
  have htable : ∀ total, (if d.memoryType = .conventionalMemory then
      { st with memoryTotal := total } else st).memoryTable = st.memoryTable := by
    intro total
    split <;> rfl
  rw [descriptorStep] at h
  rw [mapped]
  cases ho : d.hobOption <;> simp only [ho] at h ⊢
  case noHob | maxMem => rw [updateTable_eq_some h, htable, if_pos trivial]
  case addMem | addDev | hobOnlyNoCacheSetting =>
      rw [publishRow_eq_some h, htable, listed, ho]
      rfl
  case mem4G | mem6G | mem8G =>
      split at h
      · rename_i hne
        cases h
        rw [htable, if_neg (by simpa using hne), List.append_nil]
      · rename_i heq
        rw [publishRow_eq_some h, htable, listed, ho, if_pos (by simp), if_pos (by simpa using heq)]

/-- A walk that does not fail stores the mapped rows. -/
theorem walkDescriptors_eq_some {st st' : PeimState}
    (h : walkDescriptors mem map st = some st') :
    st'.memoryTable = st.memoryTable ++ mappedRegions mem map := by
  induction map generalizing st with
  | nil => cases h
  | cons d ds ih =>
      rw [walkDescriptors] at h
      split at h
      · rename_i hd
        cases h
        rw [mappedRegions, liveRows_terminator hd]
        exact (List.append_nil _).symm
      · rename_i hd
        obtain ⟨next, hstep, hrest⟩ := Option.bind_eq_some_iff.mp h
        rw [ih hrest, descriptorStep_eq_some hstep, mappedRegions_cons hd, List.append_assoc]

/-- **The table of `MemoryPeim`**, whether or not there is room for it. -/
theorem memoryPeim_table (hterm : Terminated map) (banks : List FdtBank) :
    (memoryPeim map banks).map PeimResult.memoryTable =
      if (mappedRegions (selectMem (memoryTotal banks)) map).length <
          maxArmMemoryRegionDescriptorCount then
        some (mappedRegions (selectMem (memoryTotal banks)) map ++ [terminatorRegion])
      else none := by
  split
  · rename_i hroom
    rw [memoryPeim_eq hterm hroom]
    rfl
  · rename_i hfull
    rw [Option.map_eq_none_iff, memoryPeim]
    cases h : walkDescriptors (selectMem (memoryTotal banks)) map ⟨memoryTotal banks, [], []⟩ with
    | none => rfl
    | some st =>
        have htable := walkDescriptors_eq_some h
        rw [List.nil_append] at htable
        simp only [Option.bind_eq_bind, Option.bind_some, htable, if_neg hfull]

/-! ### When the tables agree -/

/-- The table that `ArmPlatformGetVirtualMemoryMap` builds is the one `MemoryPeim` builds. -/
def BuildersAgree (map : List ArmMemoryRegionDescriptorEx) (banks : List FdtBank) : Prop :=
  armPlatformGetVirtualMemoryMap map = (memoryPeim map banks).map PeimResult.memoryTable

/-- A row that is mapped is listed. The others that are listed are for other sizes. -/
theorem mapped_eq (mem : DeviceMemoryAddHob) (d : ArmMemoryRegionDescriptorEx) :
    mapped mem d = (listed d && decide (d.hobOption.IsMemSize → d.hobOption = mem)) := by
  rw [mapped, listed]
  cases ho : d.hobOption <;> simp [DeviceMemoryAddHob.IsMemSize]

/-- The mapped regions are the listed ones without those for other sizes. -/
theorem mappedRegions_eq (mem : DeviceMemoryAddHob) (map : List ArmMemoryRegionDescriptorEx) :
    mappedRegions mem map = (((liveRows map).filter listed).filter fun d =>
      decide (d.hobOption.IsMemSize → d.hobOption = mem)).map (·.region) := by
  rw [mappedRegions, List.filter_filter]
  congr 2
  funext d
  rw [mapped_eq, Bool.and_comm]

/-- No more regions are mapped than listed. -/
theorem mappedRegions_length_le (mem : DeviceMemoryAddHob)
    (map : List ArmMemoryRegionDescriptorEx) :
    (mappedRegions mem map).length ≤ (listedRegions map).length := by
  rw [mappedRegions_eq, listedRegions, List.length_map, List.length_map]
  exact List.length_filter_le _ _

/-- No region is left out for its size alone when all sizes are the selected one. -/
theorem mappedRegions_eq_listedRegions_iff :
    mappedRegions mem map = listedRegions map ↔
      ∀ d ∈ liveRows map, d.hobOption.IsMemSize → d.hobOption = mem := by
  rw [mappedRegions_eq, listedRegions]
  constructor
  · intro heq d hd hsize
    have hlen := congrArg List.length heq
    rw [List.length_map, List.length_map, List.length_filter_eq_length_iff] at hlen
    have hlisted : d ∈ (liveRows map).filter listed := by
      refine List.mem_filter.mpr ⟨hd, decide_eq_true fun honly => ?_⟩
      rw [honly] at hsize
      revert hsize
      decide
    exact of_decide_eq_true (hlen d hlisted) hsize
  · intro hsizes
    rw [List.filter_eq_self.mpr fun d hd => ?_]
    exact decide_eq_true (hsizes d (List.mem_filter.mp hd).1)

/-- **When the builders agree.** For a terminated map the two tables are the same exactly when
every live row for a memory size is one for the size selected from the banks, or the rows for
that size alone are too many, where neither function gets to the end of its table. -/
theorem virtualMemoryMap_agrees_iff (map : List ArmMemoryRegionDescriptorEx)
    (banks : List FdtBank) (hterm : Terminated map) :
    BuildersAgree map banks ↔
      (∀ d ∈ liveRows map, d.hobOption.IsMemSize →
        d.hobOption = selectMem (memoryTotal banks)) ∨
      maxArmMemoryRegionDescriptorCount ≤
        ((liveRows map).filter (mapped (selectMem (memoryTotal banks)))).length := by
  have hle := mappedRegions_length_le (selectMem (memoryTotal banks)) map
  have hlength : ((liveRows map).filter (mapped (selectMem (memoryTotal banks)))).length =
      (mappedRegions (selectMem (memoryTotal banks)) map).length := by
    rw [mappedRegions, List.length_map]
  rw [BuildersAgree, armPlatformGetVirtualMemoryMap_eq hterm, memoryPeim_table hterm, hlength,
    ← mappedRegions_eq_listedRegions_iff]
  by_cases hroom : (mappedRegions (selectMem (memoryTotal banks)) map).length <
      maxArmMemoryRegionDescriptorCount
  · rw [if_pos hroom, or_iff_left (Nat.not_le.mpr hroom)]
    constructor
    · intro heq
      split at heq
      · exact (List.append_cancel_right (Option.some.inj heq)).symm
      · cases heq
    · intro heq
      rw [heq] at hroom ⊢
      rw [if_pos hroom]
  · rw [if_neg hroom, if_neg (by omega)]
    exact iff_of_true rfl (.inr (by omega))

/-- The bank is in range. -/
theorem fourGiB_lt : 0x100000000 < 2 ^ 64 := by decide

/-- A bank of 4 GiB. -/
def fourGiB : FdtBank := ⟨0x80000000, 0x100000000, ramBase_lt, fourGiB_lt⟩

/-- The criterion at the map of a plain build and a bank of 4 GiB. -/
theorem virtualMemoryMap_agrees_fourGiB :
    BuildersAgree (getPlatformMemoryMap ⟨false, false⟩) [fourGiB] ↔
      (∀ d ∈ liveRows (getPlatformMemoryMap ⟨false, false⟩), d.hobOption.IsMemSize →
        d.hobOption = selectMem (memoryTotal [fourGiB])) ∨
      maxArmMemoryRegionDescriptorCount ≤
        ((liveRows (getPlatformMemoryMap ⟨false, false⟩)).filter
          (mapped (selectMem (memoryTotal [fourGiB])))).length :=
  virtualMemoryMap_agrees_iff _ _ (platformMap_fits false false .mem4G (by decide)).1

/-- There both functions build a table, and the tables differ: the first has the rows for
6 and 8 GiB as well. -/
theorem fourGiB_builders_disagree :
    (armPlatformGetVirtualMemoryMap (getPlatformMemoryMap ⟨false, false⟩)).isSome ∧
      (memoryPeim (getPlatformMemoryMap ⟨false, false⟩) [fourGiB]).isSome ∧
      ¬ BuildersAgree (getPlatformMemoryMap ⟨false, false⟩) [fourGiB] := by
  rw [BuildersAgree]
  decide +kernel

end Msm8998
