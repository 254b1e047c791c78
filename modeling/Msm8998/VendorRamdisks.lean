import Msm8998.FdtFormat
import Msm8998.OrderedDict
import Msm8998.VendorBootLayout

/-!
# What the Command Line of a Vendor Boot Image Asks For

The ramdisks of a vendor boot image are given on the command line: `--vendor_ramdisk` names the
platform's, and behind it every group of options that ends with `--vendor_ramdisk_fragment` gives
one more. This module says what such a group gives, option by option and without reference to the
parser, and what an image has to hold to be the one that was asked for.

## Main results

* `splitGroups_spec`: the groups in a command line;
* `foldlM_lastGiven`: of an option that is given more than once, the last one counts;
* `readVendorBoot_mkvendorboot`: the round trip.
-/

open Fallible OrderedDict

namespace Msm8998

namespace BootImage

open Fdt (Bytes Str utf8)

/-! ### What is asked for -/

/-- The value of the last option of a kind. -/
def lastGiven (opt : VendorOpt) (group : List (VendorOpt × Value)) : Option Value :=
  (lastWith? (fun o => decide (o.1 = opt)) group).map Prod.snd

/-- The names of the ramdisk types. -/
def typeNames : List Str :=
  ["none".toList, "platform".toList, "recovery".toList, "dlkm".toList]

section

variable (unicodeDigit : Char → Option (Fin 10))

/-- The number that the value of `--ramdisk_type` stands for: the place of a name, in whatever
case, or a number. -/
inductive TypeMeans (x : Str) : ℤ → Prop
  | name {n : ℕ} (h : typeNames[n]? = some (x.map lowerChar)) : TypeMeans x n
  | number {n : ℤ} (h : x.map lowerChar ∉ typeNames) (hn : parseInt unicodeDigit x = .ok n) :
      TypeMeans x n

/-- A group of options gives a ramdisk: the file at its end, under the name that is given last,
with the type and the sixteen words of the board id that are given last, and 0 for those that are
not given. -/
structure Gives (group : List (VendorOpt × Value)) (f : RamdiskFragment) : Prop where
  contents : ∃ body, group = body ++ [(.vendorRamdiskFragment, .file f.contents)] ∧
    ∀ o ∈ body, o.1 ≠ .vendorRamdiskFragment
  known : ∀ o ∈ group, ∀ text, o.1 ≠ .unknown text
  type : (lastGiven .ramdiskType group).elim (f.type = 0) fun v =>
    ∃ x, v = .text x ∧ TypeMeans unicodeDigit x f.type
  name : ∃ x, lastGiven .ramdiskName group = some (.text x) ∧ (utf8 x).length < 32 ∧
    f.name = utf8 x ++ List.replicate (32 - (utf8 x).length) 0
  boardId_length : f.boardId.length = 16
  boardId : ∀ i : Fin 16, (lastGiven (.boardId i) group).elim (f.boardId[i.1]? = some 0) fun v =>
    ∃ (x : Str) (n : ℕ), v = .text x ∧ parseInt unicodeDigit x = .ok (n : ℤ) ∧
      f.boardId[i.1]? = some n

/-- The platform's ramdisk: of type 1, with neither a name nor a board id. -/
def platformFragment (ramdisk : Bytes) : RamdiskFragment :=
  ⟨1, List.replicate 32 0, List.replicate 16 0, ramdisk⟩

/-- The header says what was given, and describes what the image holds. -/
structure VendorArgs.HeaderShows (args : VendorArgs) (image : VendorBootImage) : Prop where
  headerVersion : (image.header.headerVersion : ℤ) = args.headerVersion
  pagesize : image.header.pagesize = args.pagesize
  kernelAddr : (image.header.kernelAddr : ℤ) = args.base + args.kernelOffset
  ramdiskAddr : (image.header.ramdiskAddr : ℤ) = args.base + args.ramdiskOffset
  ramdiskSize : image.header.ramdiskSize = image.ramdisk.length
  cmdline : image.header.cmdline = (args.vendorCmdline ++ List.replicate 2048 0).take 2048
  tagsAddr : (image.header.tagsAddr : ℤ) = args.base + args.tagsOffset
  board : image.header.board = (args.board ++ List.replicate 16 0).take 16
  headerSize : image.header.headerSize = if args.headerVersion = 4 then 2128 else 2112
  dtbSize : image.header.dtbSize = image.dtb.length
  dtbAddr : (image.header.dtbAddr : ℤ) = args.base + args.dtbOffset
  tableSize : image.header.tableSize = 108 * image.fragments.length
  entryNum : image.header.entryNum = image.fragments.length
  entrySize : image.header.entrySize = if args.headerVersion = 4 then 108 else 0
  bootconfigSize : image.header.bootconfigSize = image.bootconfig.length

/-- An image holds what was asked for. In version 4 the whole command line consists of groups,
each of which gives one ramdisk, behind the platform's. -/
structure VendorArgs.Holds (args : VendorArgs) (image : VendorBootImage) : Prop where
  version : args.headerVersion = 3 ∨ args.headerVersion = 4
  header : args.HeaderShows image
  dtb : args.dtb = some image.dtb ∧ image.dtb ≠ []
  version3 : args.headerVersion = 3 →
    args.vendorRamdisk = some image.ramdisk ∧ image.fragments = [] ∧ image.bootconfig = []
  version4 : args.headerVersion = 4 →
    image.ramdisk = image.fragments.flatMap (·.contents) ∧
    image.bootconfig = args.vendorBootconfig.getD [] ∧
    ∃ groups given, args.argsList = groups.flatten ∧
      image.fragments = args.vendorRamdisk.toList.map platformFragment ++ given ∧
      List.Forall₂ (Gives unicodeDigit) groups given

end

/-! ### The groups -/

/-- **The groups** stand one behind the other, each up to and with its fragment. -/
theorem splitGroups_spec (argsList : List (VendorOpt × Value)) :
    argsList = (splitGroups argsList).1.flatten ++ (splitGroups argsList).2 ∧
      ∀ group ∈ (splitGroups argsList).1, ∃ body v,
        group = body ++ [(.vendorRamdiskFragment, v)] ∧
          ∀ o ∈ body, o.1 ≠ .vendorRamdiskFragment := by
  induction argsList with
  | nil => exact ⟨rfl, by simp [splitGroups]⟩
  | cons o argsList ih =>
      obtain ⟨hflat, hgroups⟩ := ih
      rw [splitGroups]
      split
      · rename_i hfragment
        refine ⟨congrArg (o :: ·) hflat, List.forall_mem_cons.mpr ⟨⟨[], o.2, ?_, by simp⟩, hgroups⟩⟩
        rw [List.nil_append, ← hfragment]
      · rename_i hfragment
        cases hsplit : splitGroups argsList with
        | mk groups rest =>
            rw [hsplit] at hflat hgroups
            cases groups with
            | nil => exact ⟨congrArg (o :: ·) hflat, hgroups⟩
            | cons group groups =>
                obtain ⟨⟨body, v, hgroup, hbody⟩, hrest⟩ := List.forall_mem_cons.mp hgroups
                refine ⟨congrArg (o :: ·) hflat, List.forall_mem_cons.mpr
                  ⟨⟨o :: body, v, congrArg (o :: ·) hgroup, ?_⟩, hrest⟩⟩
                exact List.forall_mem_cons.mpr ⟨hfragment, hbody⟩

/-- An option that is given again replaces what it was. -/
theorem lastGiven_concat (opt : VendorOpt) (group : List (VendorOpt × Value))
    (o : VendorOpt × Value) : lastGiven opt (group ++ [o]) =
      if o.1 = opt then some o.2 else lastGiven opt group := by
  rw [lastGiven, lastWith?_concat]
  by_cases h : o.1 = opt
  · simp [h]
  · simp [h, lastGiven]

section Options

variable {unicodeDigit : Char → Option (Fin 10)} {group : List (VendorOpt × Value)}
variable {args args' : RamdiskArgs}

/-- **The last option of a kind counts.** `get` is what the options of the kind set, and `Means`
what a value of theirs stands for. -/
theorem foldlM_lastGiven {β : Type} {opt : VendorOpt} (get : RamdiskArgs → β)
    (Means : Value → β → Prop)
    (hstep : ∀ args o args', applyVendorOption unicodeDigit args o = .ok args' →
      (o.1 = opt → Means o.2 (get args')) ∧ (o.1 ≠ opt → get args' = get args))
    (h : group.foldlM (applyVendorOption unicodeDigit) args = .ok args') :
    (lastGiven opt group).elim (get args' = get args) (Means · (get args')) := by
  induction group using List.reverseRecOn generalizing args' with
  | nil =>
      cases h
      exact rfl
  | append_singleton group o ih =>
      rw [List.foldlM_append] at h
      obtain ⟨args₁, hgroup, h⟩ := bind_eq_ok.mp h
      rw [List.foldlM_cons] at h
      obtain ⟨args₂, ho, h⟩ := bind_eq_ok.mp h
      cases h
      rw [lastGiven_concat]
      split
      · rename_i hopt
        exact (hstep _ _ _ ho).1 hopt
      · rename_i hopt
        rw [(hstep _ _ _ ho).2 hopt]
        exact ih hgroup

/-- A type that is accepted is a text which stands for it. -/
theorem typeMeans_of_ok {v : Value} {n : ℤ} (h : ramdiskTypeValue unicodeDigit v = .ok n) :
    ∃ x, v = .text x ∧ TypeMeans unicodeDigit x n := by
  cases v with
  | file contents => cases h
  | text x =>
      refine ⟨x, rfl, ?_⟩
      have hparse := typed_eq_ok.mp h
      rw [parseVendorRamdiskType] at hparse
      split at hparse
      · rename_i hname
        cases hparse
        exact TypeMeans.name (n := 0) (by rw [hname]; rfl)
      split at hparse
      · rename_i hname
        cases hparse
        exact TypeMeans.name (n := 1) (by rw [hname]; rfl)
      split at hparse
      · rename_i hname
        cases hparse
        exact TypeMeans.name (n := 2) (by rw [hname]; rfl)
      split at hparse
      · rename_i hname
        cases hparse
        exact TypeMeans.name (n := 3) (by rw [hname]; rfl)
      · rename_i h₀ h₁ h₂ h₃
        refine .number ?_ hparse
        simp only [typeNames, List.mem_cons, List.not_mem_nil, or_false, not_or]
        exact ⟨h₀, h₁, h₂, h₃⟩

/-- The type after a group of options. -/
theorem last_ramdiskType (h : group.foldlM (applyVendorOption unicodeDigit) args = .ok args') :
    (lastGiven .ramdiskType group).elim (args'.ramdiskType = args.ramdiskType) fun v =>
      ∃ x, v = .text x ∧ TypeMeans unicodeDigit x args'.ramdiskType := by
  refine foldlM_lastGiven RamdiskArgs.ramdiskType (fun v n =>
    ∃ x, v = .text x ∧ TypeMeans unicodeDigit x n) (fun args o args' ho => ?_) h
  rcases applyVendorOption_cases ho with ⟨n, hopt, hn, rfl⟩ | ⟨bs, hopt, -, rfl⟩ |
    ⟨i, n, hopt, -, rfl⟩ | ⟨bs, hopt, -, rfl⟩ | ⟨text, hopt, rfl⟩
  · exact ⟨fun _ => typeMeans_of_ok hn, fun hne => absurd hopt hne⟩
  all_goals
    refine ⟨fun h => ?_, fun _ => rfl⟩
    cases hopt.symm.trans h

/-- The name after it. -/
theorem last_ramdiskName (h : group.foldlM (applyVendorOption unicodeDigit) args = .ok args') :
    (lastGiven .ramdiskName group).elim (args'.ramdiskName = args.ramdiskName) fun v =>
      ∃ x, v = .text x ∧ (utf8 x).length < 32 ∧ args'.ramdiskName = some (utf8 x ++ [0]) := by
  refine foldlM_lastGiven RamdiskArgs.ramdiskName (fun v name =>
    ∃ x, v = .text x ∧ (utf8 x).length < 32 ∧ name = some (utf8 x ++ [0]))
    (fun args o args' ho => ?_) h
  rcases applyVendorOption_cases ho with ⟨n, hopt, -, rfl⟩ | ⟨bs, hopt, hbs, rfl⟩ |
    ⟨i, n, hopt, -, rfl⟩ | ⟨bs, hopt, -, rfl⟩ | ⟨text, hopt, rfl⟩
  case inr.inl =>
    refine ⟨fun _ => ?_, fun hne => absurd hopt hne⟩
    cases hvalue : o.2 with
    | file contents =>
        rw [hvalue] at hbs
        cases hbs
    | text x =>
        rw [hvalue] at hbs
        have hencoded := typed_eq_ok.mp hbs
        rw [asciizBytes] at hencoded
        split at hencoded
        · cases hencoded
        · rename_i hlength
          cases hencoded
          rw [List.length_append, List.length_singleton, vendorRamdiskNameSize, not_lt] at hlength
          exact ⟨x, rfl, hlength, rfl⟩
  all_goals
    refine ⟨fun h => ?_, fun _ => rfl⟩
    cases hopt.symm.trans h

/-- The file after it. -/
theorem last_fragment (h : group.foldlM (applyVendorOption unicodeDigit) args = .ok args') :
    (lastGiven .vendorRamdiskFragment group).elim
      (args'.vendorRamdiskFragment = args.vendorRamdiskFragment) fun v =>
      ∃ bs, v = .file bs ∧ args'.vendorRamdiskFragment = some bs := by
  refine foldlM_lastGiven RamdiskArgs.vendorRamdiskFragment (fun v fragment =>
    ∃ bs, v = .file bs ∧ fragment = some bs) (fun args o args' ho => ?_) h
  rcases applyVendorOption_cases ho with ⟨n, hopt, -, rfl⟩ | ⟨bs, hopt, -, rfl⟩ |
    ⟨i, n, hopt, -, rfl⟩ | ⟨bs, hopt, hbs, rfl⟩ | ⟨text, hopt, rfl⟩
  case inr.inr.inr.inl =>
    refine ⟨fun _ => ?_, fun hne => absurd hopt hne⟩
    cases hvalue : o.2 with
    | text x =>
        rw [hvalue] at hbs
        cases hbs
    | file contents =>
        rw [hvalue] at hbs
        obtain rfl := Except.ok.inj hbs
        exact ⟨contents, rfl, rfl⟩
  all_goals
    refine ⟨fun h => ?_, fun _ => rfl⟩
    cases hopt.symm.trans h

/-- A word of the board id that is there is the one that was given last. -/
theorem last_boardId (i : Fin 16)
    (h : group.foldlM (applyVendorOption unicodeDigit) args = .ok args') :
    (lastGiven (.boardId i) group).elim (args'.boardId[i.1]? = args.boardId[i.1]?) fun v =>
      ∃ x n, v = .text x ∧ parseInt unicodeDigit x = .ok n ∧
        ∀ m, args'.boardId[i.1]? = some m → m = n := by
  refine foldlM_lastGiven (fun args => args.boardId[i.1]?) (fun v word =>
    ∃ x n, v = .text x ∧ parseInt unicodeDigit x = .ok n ∧ ∀ m, word = some m → m = n)
    (fun args o args' ho => ?_) h
  rcases applyVendorOption_cases ho with ⟨n, hopt, -, rfl⟩ | ⟨bs, hopt, -, rfl⟩ |
    ⟨j, n, hopt, hn, rfl⟩ | ⟨bs, hopt, -, rfl⟩ | ⟨text, hopt, rfl⟩
  case inr.inr.inl =>
    refine ⟨fun hi => ?_, fun hne => ?_⟩
    · obtain rfl : j = i := VendorOpt.boardId.inj (hopt.symm.trans hi)
      cases hvalue : o.2 with
      | file contents =>
          rw [hvalue] at hn
          cases hn
      | text x =>
          rw [hvalue] at hn
          refine ⟨x, n, rfl, typed_eq_ok.mp hn, fun m hm => ?_⟩
          rw [List.getElem?_set_self'] at hm
          obtain ⟨-, -, rfl⟩ := Option.map_eq_some_iff.mp hm
          rfl
    · refine List.getElem?_set_ne fun heq => hne ?_
      rw [hopt, Fin.ext heq]
  all_goals
    refine ⟨fun h => ?_, fun _ => rfl⟩
    cases hopt.symm.trans h

end Options

/-! ### The table -/

/-- The entry that a group adds, in terms of what its parser has set. -/
def GroupEntry (unicodeDigit : Char → Option (Fin 10)) (group : List (VendorOpt × Value))
    (e : VendorRamdiskTableEntry) : Prop :=
  ∃ args, group.foldlM (applyVendorOption unicodeDigit) {} = .ok args ∧
    args.ramdiskName = some e.ramdiskName ∧ args.vendorRamdiskFragment = some e.ramdisk ∧
    e.ramdiskType = args.ramdiskType ∧ e.boardId = args.boardId

section Table

variable {unicodeDigit : Char → Option (Fin 10)} {builder builder' : VendorRamdiskTableBuilder}

/-- A group that is accepted adds one entry. -/
theorem addGroup_entries {group : List (VendorOpt × Value)}
    (h : addGroup unicodeDigit builder group = .ok builder') :
    ∃ e, GroupEntry unicodeDigit group e ∧ builder'.entries = builder.entries ++ [e] := by
  obtain ⟨args, name, fragment, hargs, hname, hfragment, hadd⟩ := addGroup_eq_ok h
  obtain ⟨-, -, ids, hids, -, rfl⟩ := addEntry_eq_ok hadd
  have hboard : ids = args.boardId := by
    rw [boardIdArray] at hids
    split at hids
    · exact (Except.ok.inj hids).symm
    · cases hids
  exact ⟨_, ⟨args, hargs, hname, hfragment, rfl, hboard⟩, rfl⟩

/-- The run over the groups adds one entry for each, by induction on the groups. -/
theorem foldlM_addGroup_entries {groups : List (List (VendorOpt × Value))}
    (h : groups.foldlM (addGroup unicodeDigit) builder = .ok builder') :
    ∃ added, List.Forall₂ (GroupEntry unicodeDigit) groups added ∧
      builder'.entries = builder.entries ++ added := by
  induction groups generalizing builder with
  | nil =>
      cases h
      exact ⟨[], .nil, (List.append_nil _).symm⟩
  | cons group groups ih =>
      rw [List.foldlM_cons] at h
      obtain ⟨builder₁, hgroup, h⟩ := bind_eq_ok.mp h
      obtain ⟨e, he, hentries⟩ := addGroup_entries hgroup
      obtain ⟨added, hadded, hrest⟩ := ih h
      refine ⟨e :: added, .cons he hadded, ?_⟩
      rw [hrest, hentries, List.append_assoc, List.singleton_append]

/-- The platform's ramdisk comes first. -/
theorem firstBuilder_entries {vendorRamdisk : Option Bytes}
    (h : firstBuilder vendorRamdisk = .ok builder) :
    builder.entries.map VendorRamdiskTableEntry.given =
      vendorRamdisk.toList.map platformFragment := by
  cases vendorRamdisk with
  | none =>
      cases h
      rfl
  | some ramdisk =>
      obtain ⟨-, -, ids, hids, -, rfl⟩ := addEntry_eq_ok h
      cases hids
      rfl

/-- A text in a field is followed by zeros. -/
theorem packBytes_cstring {bs : Bytes} {n : ℕ} (h : bs.length < n) :
    packBytes n (bs ++ [0]) = bs ++ List.replicate (n - bs.length) 0 := by
  obtain ⟨k, rfl⟩ := Nat.exists_eq_add_of_lt h
  have hpad : bs.length + k + 1 - bs.length = k + 1 := by omega
  rw [packBytes, hpad, List.append_assoc, List.singleton_append, ← List.replicate_succ,
    List.take_append, List.take_of_length_le (by omega), List.take_replicate,
    Nat.min_eq_left (by omega), hpad]

section Group

variable {group : List (VendorOpt × Value)} {e : VendorRamdiskTableEntry}

/-- The file at the end of the group is the ramdisk of the entry. -/
theorem GroupEntry.contents (h : GroupEntry unicodeDigit group e)
    (hshape : ∃ body v, group = body ++ [(.vendorRamdiskFragment, v)] ∧
      ∀ o ∈ body, o.1 ≠ .vendorRamdiskFragment) :
    ∃ body, group = body ++ [(.vendorRamdiskFragment, .file e.given.contents)] ∧
      ∀ o ∈ body, o.1 ≠ .vendorRamdiskFragment := by
  obtain ⟨args, hargs, -, hfragment, -, -⟩ := h
  obtain ⟨body, v, rfl, hbody⟩ := hshape
  have hlast := last_fragment hargs
  rw [lastGiven_concat, if_pos rfl, hfragment] at hlast
  obtain ⟨bs, rfl, heq⟩ := hlast
  exact ⟨body, by rw [← Option.some.inj heq]; rfl, hbody⟩

/-- The type of the entry is the one given last. -/
theorem GroupEntry.type (h : GroupEntry unicodeDigit group e) (htype : Fits 4 e.ramdiskType) :
    (lastGiven .ramdiskType group).elim (e.given.type = 0) fun v =>
      ∃ x, v = .text x ∧ TypeMeans unicodeDigit x e.given.type := by
  obtain ⟨args, hargs, -, -, hkind, -⟩ := h
  have hlast := last_ramdiskType hargs
  rw [← hkind] at hlast
  have hcast : ((e.given.type : ℕ) : ℤ) = e.ramdiskType := Int.toNat_of_nonneg htype.1
  cases hgiven : lastGiven .ramdiskType group with
  | none =>
      rw [hgiven] at hlast
      have hzero : e.ramdiskType = 0 := hlast
      exact Int.natCast_eq_zero.mp (hcast.trans hzero)
  | some v =>
      rw [hgiven, ← hcast] at hlast
      exact hlast

/-- The name of the entry is the one given last, and there is one. -/
theorem GroupEntry.name (h : GroupEntry unicodeDigit group e) :
    ∃ x, lastGiven .ramdiskName group = some (.text x) ∧ (utf8 x).length < 32 ∧
      e.given.name = utf8 x ++ List.replicate (32 - (utf8 x).length) 0 := by
  obtain ⟨args, hargs, hname, -, -, -⟩ := h
  have hlast := last_ramdiskName hargs
  rw [hname] at hlast
  cases hgiven : lastGiven .ramdiskName group with
  | none =>
      rw [hgiven] at hlast
      cases hlast
  | some v =>
      rw [hgiven] at hlast
      obtain ⟨x, rfl, hlength, heq⟩ := hlast
      refine ⟨x, rfl, hlength, ?_⟩
      rw [VendorRamdiskTableEntry.given, Option.some.inj heq]
      exact packBytes_cstring hlength

/-- A word of the board id is the one given last for it. -/
theorem GroupEntry.boardId (h : GroupEntry unicodeDigit group e)
    (hids : e.boardId.length = 16 ∧ ∀ v ∈ e.boardId, Fits 4 v) (i : Fin 16) :
    (lastGiven (.boardId i) group).elim (e.given.boardId[i.1]? = some 0) fun v =>
      ∃ (x : Str) (n : ℕ), v = .text x ∧ parseInt unicodeDigit x = .ok (n : ℤ) ∧
        e.given.boardId[i.1]? = some n := by
  obtain ⟨args, hargs, -, -, -, hboard⟩ := h
  have hlast := last_boardId i hargs
  rw [← hboard] at hlast
  obtain ⟨m, hm⟩ : ∃ m, e.boardId[i.1]? = some m := ⟨_, List.getElem?_eq_getElem (by omega)⟩
  have hfits := hids.2 m (List.mem_of_getElem? hm)
  have hword : e.given.boardId[i.1]? = some m.toNat := by
    rw [VendorRamdiskTableEntry.given, List.getElem?_map, hm, Option.map_some]
  rw [hm] at hlast
  rw [hword]
  cases hgiven : lastGiven (.boardId i) group with
  | none =>
      have hin : i.1 < vendorRamdiskTableEntryBoardIdSize := i.2
      rw [hgiven, Option.elim_none, List.getElem?_replicate, if_pos hin] at hlast
      rw [Option.some.inj hlast]
      rfl
  | some v =>
      rw [hgiven] at hlast
      obtain ⟨x, n, rfl, hn, heq⟩ := hlast
      obtain rfl := heq m rfl
      exact ⟨x, m.toNat, rfl, by rw [hn, Int.toNat_of_nonneg hfits.1], rfl⟩

/-- **What a group gives** is what its entry is read back as. -/
theorem GroupEntry.gives (h : GroupEntry unicodeDigit group e)
    (hshape : ∃ body v, group = body ++ [(.vendorRamdiskFragment, v)] ∧
      ∀ o ∈ body, o.1 ≠ .vendorRamdiskFragment)
    (hknown : ∀ o ∈ group, ∀ text, o.1 ≠ .unknown text) (htype : Fits 4 e.ramdiskType)
    (hids : e.boardId.length = 16 ∧ ∀ v ∈ e.boardId, Fits 4 v) :
    Gives unicodeDigit group e.given where
  contents := h.contents hshape
  known := hknown
  type := h.type htype
  name := h.name
  boardId_length := by rw [VendorRamdiskTableEntry.given, List.length_map, hids.1]
  boardId := h.boardId hids

end Group

/-- The table of a command line of which nothing is left over. -/
theorem parseVendorRamdiskArgs_given {vendorRamdisk : Option Bytes}
    {argsList : List (VendorOpt × Value)}
    (h : parseVendorRamdiskArgs unicodeDigit vendorRamdisk argsList = .ok (builder, []))
    (hfits : ∀ e ∈ builder.entries, Fits 4 e.ramdiskType) :
    ∃ groups given, argsList = groups.flatten ∧
      builder.entries.map VendorRamdiskTableEntry.given =
        vendorRamdisk.toList.map platformFragment ++ given ∧
      List.Forall₂ (Gives unicodeDigit) groups given := by
  have hsound := parseVendorRamdiskArgs_sound h
  rw [parseVendorRamdiskArgs] at h
  obtain ⟨first, hfirst, h⟩ := bind_eq_ok.mp h
  obtain ⟨last, hlast, h⟩ := bind_eq_ok.mp h
  obtain ⟨rfl, hextra⟩ := Prod.mk.inj (Except.ok.inj h)
  obtain ⟨hextra, hrest⟩ := List.append_eq_nil_iff.mp hextra
  obtain ⟨hflat, hshapes⟩ := splitGroups_spec argsList
  obtain ⟨added, hadded, hentries⟩ := foldlM_addGroup_entries hlast
  refine ⟨(splitGroups argsList).1, added.map VendorRamdiskTableEntry.given, ?_, ?_, ?_⟩
  · rwa [hrest, List.append_nil] at hflat
  · rw [hentries, List.map_append, firstBuilder_entries hfirst]
  · rw [List.forall₂_map_right_iff]
    have hknown : ∀ group ∈ (splitGroups argsList).1, ∀ o ∈ group, ∀ text,
        o.1 ≠ .unknown text := by
      intro group hgroup o ho text hopt
      have hleft : o ∈ extraArgs group := List.mem_filter.mpr ⟨ho, by rw [hopt]⟩
      have hnone : extraArgs group = [] := List.flatMap_eq_nil_iff.mp hextra group hgroup
      rw [hnone] at hleft
      cases hleft
    -- what is known of the groups, and then of the entries
    have hgroups := (List.forall₂_and_left _ _).mpr ⟨fun group hgroup =>
      And.intro (hshapes group hgroup) (hknown group hgroup), hadded⟩
    have hboth := (List.forall₂_and_left _ _).mpr ⟨fun e (he : e ∈ added) =>
      (hentries ▸ List.mem_append_right _ he : e ∈ last.entries), hgroups.flip⟩
    refine hboth.flip.imp fun group e hall => ?_
    obtain ⟨hmem, ⟨hshape, hknown⟩, hentry⟩ := hall
    exact hentry.gives hshape hknown (hfits e hmem) (hsound.boardIds e hmem)

/-- The header and the device tree, as they were given. -/
theorem contents_header (args : VendorArgs) (builder : VendorRamdiskTableBuilder) :
    (args.contents builder).header = args.given builder ∧
      (args.contents builder).dtb = args.dtb.getD [] := by
  rw [VendorArgs.contents]
  split
  · exact ⟨rfl, rfl⟩
  · exact ⟨rfl, rfl⟩

/-- The sizes in the header are those of what the image holds. -/
theorem contents_sizes {args : VendorArgs}
    (hsound : args.headerVersion > 3 → builder.Sound) :
    (args.contents builder).ramdisk.length = args.vendorRamdiskSize builder ∧
      (args.contents builder).fragments.length = (args.given builder).entryNum ∧
      (args.contents builder).bootconfig.length = (args.given builder).bootconfigSize := by
  rw [VendorArgs.contents, VendorArgs.vendorRamdiskSize]
  by_cases hv : args.headerVersion > 3
  · simp only [VendorArgs.given, if_pos hv]
    exact ⟨(hsound hv).section_length, List.length_map _, (filesize_eq _).symm⟩
  · simp only [VendorArgs.given, if_neg hv]
    exact ⟨(filesize_eq _).symm, rfl, rfl⟩

/-- The header of an image that is written shows what was given. -/
theorem headerShows_contents {args : VendorArgs} (hw : args.Writable builder)
    (hsound : args.headerVersion > 3 → builder.Sound) :
    args.HeaderShows (args.contents builder) := by
  obtain ⟨hheader, hdtb⟩ := contents_header args builder
  obtain ⟨hramdisk, hfragments, hbootconfig⟩ := contents_sizes hsound
  have hfront := hw.front
  simp only [VendorArgs.frontWords, List.forall_mem_cons] at hfront
  obtain ⟨hversion, -, hkernelAddr, hramdiskAddr, -, -⟩ := hfront
  have hsizes := hw.sizes
  simp only [VendorArgs.sizeFields, List.forall_mem_cons] at hsizes
  have hcases : args.headerVersion > 3 ↔ args.headerVersion = 4 := by
    have hv := hw.version
    omega
  constructor
  all_goals rw [hheader]
  case headerVersion => exact Int.toNat_of_nonneg hversion.1
  case pagesize => rfl
  case kernelAddr => exact Int.toNat_of_nonneg hkernelAddr.1
  case ramdiskAddr => exact Int.toNat_of_nonneg hramdiskAddr.1
  case ramdiskSize => exact hramdisk.symm
  case cmdline => rfl
  case tagsAddr => exact Int.toNat_of_nonneg hw.tags.1
  case board => rfl
  case headerSize =>
    simp only [VendorArgs.given, VendorArgs.vendorBootHeaderSize, hcases]
    rfl
  case dtbSize =>
    rw [hdtb]
    exact filesize_eq args.dtb
  case dtbAddr => exact Int.toNat_of_nonneg hsizes.2.2.1.1
  case tableSize =>
    rw [hfragments]
    simp only [VendorArgs.given]
    split
    · exact Nat.mul_comm _ _
    · rfl
  case entryNum => exact hfragments.symm
  case entrySize =>
    simp only [VendorArgs.given, hcases]
    rfl
  case bootconfigSize => exact hbootconfig.symm

/-- What is read back of an image is what was asked for. -/
theorem holds_contents {args : VendorArgs} (hw : args.Writable builder)
    (hparse : args.headerVersion = 4 →
      parseVendorRamdiskArgs unicodeDigit args.vendorRamdisk args.argsList = .ok (builder, [])) :
    args.Holds unicodeDigit (args.contents builder) := by
  have hversion := hw.version
  have hsound : args.headerVersion > 3 → builder.Sound :=
    fun hv => parseVendorRamdiskArgs_sound (hparse (by omega))
  refine ⟨hversion, headerShows_contents hw hsound, ?_, fun h3 => ?_, fun h4 => ?_⟩
  · rw [(contents_header args builder).2]
    have hpos := hw.dtb
    cases hdtb : args.dtb with
    | none =>
        rw [hdtb] at hpos
        cases hpos
    | some dtb =>
        rw [hdtb] at hpos
        exact ⟨rfl, List.ne_nil_of_length_pos hpos⟩
  · rw [VendorArgs.contents, if_neg (by omega)]
    obtain ⟨ramdisk, hramdisk⟩ := Option.ne_none_iff_exists'.mp (hw.ramdisk h3)
    rw [hramdisk]
    exact ⟨rfl, rfl, rfl⟩
  · rw [VendorArgs.contents, if_pos (by omega)]
    refine ⟨?_, rfl, parseVendorRamdiskArgs_given (hparse h4) fun e he => (hw.entries h4 e he).2.2⟩
    rw [List.flatMap_map]
    rfl

/-- **The vendor boot image round trip.** A reader that only knows the format finds in every
file that is written what the command line asks for: the header's fields, the device tree and, in
version 4, the platform's ramdisk and that of every group of options, in their order, each with
its contents, type, name and board id. -/
theorem readVendorBoot_mkvendorboot {args : VendorArgs} {image : Bytes}
    (h : mkvendorboot unicodeDigit args = .ok image) :
    ∃ contents, readVendorBoot image = some contents ∧ args.Holds unicodeDigit contents := by
  obtain ⟨builder, hparse, hw, hread⟩ := readVendorBoot_contents h
  exact ⟨_, hread, holds_contents hw hparse⟩

end Table

/-- The round trip of the image with two ramdisks. -/
theorem readVendorBoot_twoRamdisks : ∃ contents,
    readVendorBoot twoRamdisksImage = some contents ∧
      twoRamdisks.Holds (fun _ => none) contents :=
  readVendorBoot_mkvendorboot mkvendorboot_twoRamdisks

end BootImage

end Msm8998
