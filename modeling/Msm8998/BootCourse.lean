import Msm8998.BootOptions
import Msm8998.FreshGrowth

/-!
# The Options in the Course of a Boot

A boot goes through `PlatformBootManagerBeforeConsole`, which registers the options and keys of
the platform, and `PlatformBootManagerAfterConsole`, which processes the capsules, refreshes the
options of the devices and registers the programs of the firmware volume. This module follows
the `Boot####` and `Key####` variables through one boot, from whatever the boot finds of them.
What becomes of them at a reset is not part of it: the firmware is built with emulated
variables.

Of the boot manager library this module uses, beyond the documented behaviour of finding and
adding options and keys, that getting the menu adds at most one option that is not there yet, and
that a refresh leaves alone what is not marked as created for a device.

The consoles, the splash screen and the text on it are left out.

## Main results

* `boot_settled`: options that are stored stay, under their numbers, and never get a copy; what
  the boot asks for is stored unless the library refuses it;
* `boot_keysSettled`: keys stay bound, and the keys of the platform are bound to what it asked
  for, unless the library refuses the option or the key.
-/

namespace Msm8998

namespace Boot

/-! ### A boot -/

/-- The loop of `HandleCapsules` over the capsules of the HOB list. Of each only counts whether
it is processed without an error; the first error ends the loop, and no reset follows. -/
def capsuleLoop (needReset : Bool) : List Bool → Bool
  | [] => needReset
  | processed :: capsules => if processed then capsuleLoop true capsules else false

/-- `HandleCapsules`: whether it resets the system. -/
def handleCapsules (capsules : List Bool) : Bool := capsuleLoop false capsules

/-- What is built into a firmware: the volume of its image and the files in it. The last is
there with `ENABLE_LINUX_SIMPLE_MASS_STORAGE`. -/
structure Firmware where
  image : List DevicePathNode
  simpleInitFileGuid : BitVec 128
  uefiShellFileGuid : BitVec 128
  linuxSimpleMassStorageGuid : Option (BitVec 128)

/-- What a boot meets: the options of the platform, the capsules, and what
`EfiBootManagerRefreshAllBootOption` does with the devices that are there. -/
structure Surroundings where
  platform : Option (List (LoadOption × InputKey))
  capsules : List Bool
  refresh : BootStore → BootStore

def uefiShell : List UInt16 := [85, 69, 70, 73, 32, 83, 104, 101, 108, 108]

def massStorage : List UInt16 :=
  [85, 83, 66, 32, 65, 116, 116, 97, 99, 104, 101, 100, 32, 83, 67, 83, 73, 32, 40, 85, 65, 83,
    41, 32, 83, 116, 111, 114, 97, 103, 101]

/-- The options that `PlatformBootManagerAfterConsole` leaves behind. -/
def platformBootManagerAfterConsole (lib : BootManagerLib) (firmware : Firmware)
    (around : Surroundings) (store : BootStore) : BootStore :=
  if handleCapsules around.capsules then store
  else
    let (_, store) := platformRegisterFvBootOption lib firmware.image firmware.uefiShellFileGuid
      uefiShell loadOptionActive (around.refresh store)
    match firmware.linuxSimpleMassStorageGuid with
    | none => store
    | some fileGuid => (platformRegisterFvBootOption lib firmware.image fileGuid massStorage
        loadOptionActive store).2

/-- A boot: the variables when it is over or resets, and the key that it asks for Simple Init. -/
def boot (lib : BootManagerLib) (firmware : Firmware) (around : Surroundings) (opts : Options) :
    Options × KeyBinding :=
  let (opts, key) := platformRegisterOptionsAndKeys lib firmware.simpleInitFileGuid
    firmware.image around.platform opts
  ({ opts with store := platformBootManagerAfterConsole lib firmware around opts.store }, key)

/-! ### What the library does to the rest of the options -/

/-- The options that are stored. -/
def BootStore.stored (store : BootStore) : Set LoadOption := {o | o ∈ store.options}

/-- Getting the menu adds at most one option, which was not there. -/
def BootManagerLib.MenuDocumented (lib : BootManagerLib) : Prop :=
  ∀ store, FreshInsert LoadOption.Same store.stored (lib.getBootManagerMenu store).stored

/-- A refresh adds and takes only options that are marked, in their optional data, as created
for a device. -/
def RefreshDocumented (marked : List UInt8 → Prop) (refresh : BootStore → BootStore) : Prop :=
  ∀ store o, ¬ marked o.optionalData → (o ∈ (refresh store).options ↔ o ∈ store.options)

/-- What a boot may meet: the options of the platform have no numbers yet and do not carry the
mark of the options of devices. -/
structure Surroundings.Documented (marked : List UInt8 → Prop) (around : Surroundings) :
    Prop where
  unassigned : ∀ entries, around.platform = some entries →
    ∀ e ∈ entries, e.1.optionNumber = loadOptionNumberUnassigned
  unmarked : ∀ entries, around.platform = some entries →
    ∀ e ∈ entries, ¬ marked e.1.optionalData
  refresh : RefreshDocumented marked around.refresh

/-- An option that is not one of a device. -/
def Lasting (marked : List UInt8 → Prop) (option : LoadOption) : Prop :=
  ¬ marked option.optionalData

namespace Surroundings.Documented

variable {marked : List UInt8 → Prop} {around : Surroundings}

/-- What a platform offers has no number yet, also when it offers nothing. -/
theorem unassigned_getD (h : around.Documented marked) :
    ∀ e ∈ around.platform.getD [], e.1.optionNumber = loadOptionNumberUnassigned := by
  cases hplatform : around.platform with
  | none => simp
  | some entries => exact h.unassigned entries hplatform

/-- What a platform offers lasts, also when it offers nothing. -/
theorem lasting_getD (h : around.Documented marked) :
    ∀ e ∈ around.platform.getD [], Lasting marked e.1 := by
  cases hplatform : around.platform with
  | none => simp
  | some entries => exact h.unmarked entries hplatform

end Surroundings.Documented

/-- Being a copy of an option is an equivalence. -/
theorem LoadOption.same_equivalence : Equivalence LoadOption.Same where
  refl _ := ⟨rfl, rfl, rfl, rfl⟩
  symm h := ⟨h.1.symm, h.2.1.symm, h.2.2.1.symm, h.2.2.2.symm⟩
  trans h h' := ⟨h.1.trans h'.1, h.2.1.trans h'.2.1, h.2.2.1.trans h'.2.2.1,
    h.2.2.2.trans h'.2.2.2⟩

/-- A copy of a lasting option is lasting. -/
theorem Lasting.of_same {marked : List UInt8 → Prop} (a b : LoadOption) (h : b.Same a)
    (ha : Lasting marked a) : Lasting marked b := by
  rw [Lasting, h.2.2.2]
  exact ha

/-- What changes of the variables the results are about. -/
abbrev Grows (marked : List UInt8 → Prop) (store store' : BootStore) : Prop :=
  FreshGrowth LoadOption.Same (Lasting marked) store.stored store'.stored

/-- All stored copies of an option are one. -/
abbrev Single (store : BootStore) (option : LoadOption) : Prop :=
  AtMostOne LoadOption.Same store.stored option

/-- The platform offers no option twice. -/
def Surroundings.NoTwice (around : Surroundings) : Prop :=
  ∀ entries, around.platform = some entries → entries.Pairwise fun e e' => ¬ e.1.Same e'.1

/-- The options that a boot asks for. -/
inductive Asked (firmware : Firmware) (around : Surroundings) : LoadOption → Prop
  | platform {entries e} (h : around.platform = some entries) (he : e ∈ entries) :
      Asked firmware around e.1
  | simpleInit : Asked firmware around
      (fvBootOption firmware.image firmware.simpleInitFileGuid simpleInit loadOptionActive)
  | uefiShell (h : handleCapsules around.capsules = false) : Asked firmware around
      (fvBootOption firmware.image firmware.uefiShellFileGuid uefiShell loadOptionActive)
  | massStorage {fileGuid} (h : handleCapsules around.capsules = false)
      (hguid : firmware.linuxSimpleMassStorageGuid = some fileGuid) : Asked firmware around
      (fvBootOption firmware.image fileGuid massStorage loadOptionActive)

/-! ### The variables in the course of a boot -/

/-- The options when the capsules are processed. -/
def bootOptions (lib : BootManagerLib) (firmware : Firmware) (around : Surroundings)
    (opts : Options) : BootStore :=
  (platformRegisterOptionsAndKeys lib firmware.simpleInitFileGuid firmware.image
    around.platform opts).1.store

/-- The options when the shell is registered. -/
def bootShell (lib : BootManagerLib) (firmware : Firmware) (around : Surroundings)
    (opts : Options) : BootStore :=
  (platformRegisterFvBootOption lib firmware.image firmware.uefiShellFileGuid uefiShell
    loadOptionActive (around.refresh (bootOptions lib firmware around opts))).2

/-- The variables as each pass of the loop of `GetPlatformOptions` finds them. -/
def passes (lib : BootManagerLib) (currentBootOptions : List LoadOption) :
    List (LoadOption × InputKey) → Options → List Options
  | [], _ => []
  | entry :: entries, opts => opts ::
      passes lib currentBootOptions entries (getPlatformOption lib currentBootOptions opts entry)

/-- The options as a boot finds them each time it may add one of its own. -/
def course (lib : BootManagerLib) (firmware : Firmware) (around : Surroundings)
    (opts : Options) : List BootStore :=
  (passes lib opts.store.options (around.platform.getD []) opts).map Options.store ++
    [beforeSimpleInit lib around.platform opts,
      around.refresh (bootOptions lib firmware around opts),
      bootShell lib firmware around opts]

/-- Somewhere among some variables, the library refuses to add an option. -/
def Refused (lib : BootManagerLib) (stores : List BootStore) (option : LoadOption) : Prop :=
  ∃ store ∈ stores, (lib.addLoadOptionVariable option store).ok = false

/-- In some pass, the library fails to add the key of an entry. -/
def KeyFailed (lib : BootManagerLib) (current : List LoadOption) (stages : List Options)
    (e : LoadOption × InputKey) : Prop :=
  ∃ opts ∈ stages, ∃ number, (lib.addKeyOptionVariable ⟨number, e.2⟩
    (platformOptionNumber lib current e.1 opts).2).1 = .failed

/-! ### What a boot does -/

section Statements

variable (lib : BootManagerLib) (marked : List UInt8 → Prop) (firmware : Firmware)
  (around : Surroundings) (opts : Options)

/-- What a boot does to the options that are not created for devices. They stay, under their
numbers; what is stored never gets another copy, and no option gets two if the platform offers
none twice; and what the boot asks for is stored in the end, unless the library refuses it. -/
structure Settled : Prop where
  keeps : ∀ o ∈ opts.store.options, Lasting marked o →
    o ∈ (boot lib firmware around opts).1.store.options
  frozen : ∀ option, Lasting marked option → Present opts.store option → ∀ o, o.Same option →
    (o ∈ (boot lib firmware around opts).1.store.options ↔ o ∈ opts.store.options)
  single : around.NoTwice → ∀ option, Lasting marked option →
    Single opts.store option → Single (boot lib firmware around opts).1.store option
  present : ∀ option, Asked firmware around option →
    ¬ Refused lib (course lib firmware around opts) option →
    Present (boot lib firmware around opts).1.store option

/-- A key bound for an entry when the boot is over, under the number of the one copy of its option
that was stored to begin with, if there was one. -/
def BindsStably (b : KeyBinding) (e : LoadOption × InputKey) : Prop :=
  Binds (boot lib firmware around opts).1.store b e ∧ ∀ o ∈ opts.store.options, o.Same e.1 →
    Single opts.store e.1 → b.optionNumber.toNat = o.optionNumber

/-- What a boot does to the keys. None is lost. A new one is that for Simple Init, or it is bound
to what the platform asked for. The key of an entry is in use in the end, unless the library
refuses to add its option or fails to add the key; it is in use for the entry if no key option had
it before and no other entry asks for it. -/
structure KeysSettled : Prop where
  keeps : ∀ b ∈ opts.keys, b ∈ (boot lib firmware around opts).1.keys
  new : ∀ b ∈ (boot lib firmware around opts).1.keys, b ∈ opts.keys ∨
    b = (boot lib firmware around opts).2 ∨
    ∃ e ∈ around.platform.getD [], BindsStably lib firmware around opts b e
  used : ∀ e ∈ around.platform.getD [], e.2.unicodeChar ≠ 0 →
    (∃ b ∈ (boot lib firmware around opts).1.keys, b.key = e.2) ∨
    ¬ Present opts.store e.1 ∧ Refused lib (course lib firmware around opts) e.1 ∨
    KeyFailed lib opts.store.options
      (passes lib opts.store.options (around.platform.getD []) opts) e
  own : ∀ e ∈ around.platform.getD [], e.2.unicodeChar ≠ 0 → (∀ b ∈ opts.keys, b.key ≠ e.2) →
    (∀ e' ∈ around.platform.getD [], e'.2 = e.2 → e' = e) →
    ∀ b ∈ (boot lib firmware around opts).1.keys, b.key = e.2 →
      BindsStably lib firmware around opts b e

end Statements

/-! ### The two ends of a boot -/

section Course

variable {lib : BootManagerLib} {firmware : Firmware} {around : Surroundings} {opts : Options}

/-- A boot with capsules to handle resets after the registration of the options. -/
theorem boot_resets (h : handleCapsules around.capsules = true) :
    (boot lib firmware around opts).1.store = bootOptions lib firmware around opts :=
  if_pos h

/-- A boot without capsules goes on to the partition of the mass storage, if there is one. -/
theorem boot_continues (h : handleCapsules around.capsules = false) :
    (boot lib firmware around opts).1.store =
      match firmware.linuxSimpleMassStorageGuid with
      | none => bootShell lib firmware around opts
      | some fileGuid => (platformRegisterFvBootOption lib firmware.image fileGuid massStorage
          loadOptionActive (bootShell lib firmware around opts)).2 :=
  if_neg (ne_true_of_eq_false h)

end Course

/-- What lasts stays present. -/
theorem Present.grows {marked : List UInt8 → Prop} {store store' : BootStore}
    {option : LoadOption} (h : Present store option) (hg : Grows marked store store')
    (hoption : Lasting marked option) : Present store' option :=
  h.imp fun o ho => ⟨hg.keeps o ho.1 (Lasting.of_same _ _ ho.2 hoption), ho.2⟩

/-- A number keeps designating what lasts. -/
theorem Designates.grows {marked : List UInt8 → Prop} {store store' : BootStore}
    {number : UInt16} {option : LoadOption} (h : Designates store number option)
    (hg : Grows marked store store') (hoption : Lasting marked option) :
    Designates store' number option :=
  h.imp fun o ho => ⟨hg.keeps o ho.1 (Lasting.of_same _ _ ho.2.2 hoption), ho.2⟩

/-- An option that was refused remains refused when an earlier store is added. -/
theorem Refused.cons {lib : BootManagerLib} {stores : List BootStore} {option : LoadOption}
    (store : BootStore) (h : Refused lib stores option) : Refused lib (store :: stores) option :=
  h.imp fun _ hs => ⟨List.mem_cons_of_mem _ hs.1, hs.2⟩

/-- So does a key that could not be added. -/
theorem KeyFailed.cons {lib : BootManagerLib} {current : List LoadOption} {stages : List Options}
    {e : LoadOption × InputKey} (opts : Options) (h : KeyFailed lib current stages e) :
    KeyFailed lib current (opts :: stages) e :=
  h.imp fun _ hs => ⟨List.mem_cons_of_mem _ hs.1, hs.2⟩

/-- An option that is never refused is not refused by the first pass or by a later one. -/
theorem refused_passes_cons {lib : BootManagerLib} {current : List LoadOption}
    {entry : LoadOption × InputKey} {entries : List (LoadOption × InputKey)} {opts : Options}
    {option : LoadOption}
    (h : ¬ Refused lib ((passes lib current (entry :: entries) opts).map Options.store) option) :
    ¬ (lib.addLoadOptionVariable option opts.store).ok = false ∧
      ¬ Refused lib ((passes lib current entries
        (getPlatformOption lib current opts entry)).map Options.store) option :=
  ⟨fun hok => h ⟨_, List.mem_cons_self, hok⟩, fun hrest => h (hrest.cons _)⟩

section Library

variable {lib : BootManagerLib} (hlib : lib.Documented)

include hlib

/-! ### The loop over the options of the platform -/

/-- What a pass does to the options. -/
theorem getPlatformOption_stored (fetched : BootStore) (opts : Options)
    (entry : LoadOption × InputKey)
    (hunassigned : entry.1.optionNumber = loadOptionNumberUnassigned) :
    (getPlatformOption lib fetched.options opts entry).store.stored = opts.store.stored ∨
      ∃ new, new.Same entry.1 ∧ ¬ Present fetched entry.1 ∧
        (getPlatformOption lib fetched.options opts entry).store.stored =
          insert new opts.store.stored := by
  rw [getPlatformOption_store]
  rcases platformOptionNumber_cases hlib fetched opts hunassigned with
    ⟨o, -, -, heq⟩ | ⟨hnot, ⟨number, -, store, hstore, heq⟩ | ⟨-, heq⟩⟩
  · rw [heq]
    exact Or.inl rfl
  · refine Or.inr ⟨_, LoadOption.Same.number entry.1 number, hnot, ?_⟩
    rw [heq]
    ext o
    exact (hstore o).trans Or.comm
  · rw [heq]
    exact Or.inl rfl

variable {marked : List UInt8 → Prop}

/-- The loop grows the variables as they were fetched. -/
theorem foldl_getPlatformOption_grows {fetched : BootStore}
    {entries : List (LoadOption × InputKey)}
    (hunassigned : ∀ e ∈ entries, e.1.optionNumber = loadOptionNumberUnassigned) {opts : Options}
    (h : Grows marked fetched opts.store) :
    Grows marked fetched (entries.foldl (getPlatformOption lib fetched.options) opts).store := by
  induction entries generalizing opts with
  | nil => exact h
  | cons entry entries ih =>
      obtain ⟨hentry, hrest⟩ := List.forall_mem_cons.mp hunassigned
      refine ih hrest ?_
      rcases getPlatformOption_stored hlib fetched opts entry hentry with
        heq | ⟨new, hsame, hnot, heq⟩
      · rwa [Grows, heq]
      · rw [Grows, heq]
        refine FreshGrowth.insert h fun o ho hlike => hnot ⟨o, ho, ?_⟩
        exact LoadOption.same_equivalence.trans hlike hsame

/-- The loop makes no second copy, if no two of the entries are equal. Of what is stored
already, what was not fetched must differ from the entries to come. -/
theorem foldl_getPlatformOption_single {fetched : BootStore}
    {entries : List (LoadOption × InputKey)}
    (hunassigned : ∀ e ∈ entries, e.1.optionNumber = loadOptionNumberUnassigned)
    (hpairwise : entries.Pairwise fun e e' => ¬ e.1.Same e'.1) {opts : Options}
    (hstored : ∀ o ∈ opts.store.stored, o ∈ fetched.stored ∨ ∀ e ∈ entries, ¬ o.Same e.1)
    {option : LoadOption} (h : Single opts.store option) :
    Single (entries.foldl (getPlatformOption lib fetched.options) opts).store option := by
  induction entries generalizing opts with
  | nil => exact h
  | cons entry entries ih =>
      obtain ⟨hentry, hrest⟩ := List.forall_mem_cons.mp hunassigned
      obtain ⟨hdiffers, hpairwise⟩ := List.pairwise_cons.mp hpairwise
      have hlater : ∀ o ∈ opts.store.stored, o ∈ fetched.stored ∨ ∀ e ∈ entries, ¬ o.Same e.1 :=
        fun o ho => (hstored o ho).imp id fun hno e he => hno e (List.mem_cons_of_mem _ he)
      rcases getPlatformOption_stored hlib fetched opts entry hentry with
        heq | ⟨new, hsame, hnot, heq⟩
      · exact ih hrest hpairwise (heq ▸ hlater) (by rwa [Single, heq])
      · refine ih hrest hpairwise ?_ ?_
        · rw [heq]
          rintro o (rfl | ho)
          · refine Or.inr fun e he hlike => hdiffers e he ?_
            exact LoadOption.same_equivalence.trans (LoadOption.same_equivalence.symm hsame) hlike
          · exact hlater o ho
        · rw [Single, heq]
          refine AtMostOne.insert LoadOption.same_equivalence h fun o ho hlike => ?_
          have hentry' := LoadOption.same_equivalence.trans hlike hsame
          rcases hstored o ho with hfetched | hno
          · exact hnot ⟨o, hfetched, hentry'⟩
          · exact hno entry List.mem_cons_self hentry'

/-- After the loop an entry is stored, unless the library refused it. -/
theorem foldl_getPlatformOption_present {fetched : BootStore}
    {entries : List (LoadOption × InputKey)}
    (hunassigned : ∀ e ∈ entries, e.1.optionNumber = loadOptionNumberUnassigned) (opts : Options)
    (hfetched : ∀ o ∈ fetched.options, o ∈ opts.store.options) {entry : LoadOption × InputKey}
    (hmem : entry ∈ entries)
    (hrefused : ¬ Refused lib ((passes lib fetched.options entries opts).map Options.store)
      entry.1) :
    Present (entries.foldl (getPlatformOption lib fetched.options) opts).store entry.1 := by
  induction entries generalizing opts with
  | nil => cases hmem
  | cons e entries ih =>
      obtain ⟨he, hrest⟩ := List.forall_mem_cons.mp hunassigned
      obtain ⟨hhead, htail⟩ := refused_passes_cons hrefused
      have hkeeps := getPlatformOption_keeps hlib fetched opts e he
      rcases List.mem_cons.mp hmem with rfl | hmem
      · have hpass : Present (getPlatformOption lib fetched.options opts entry).store entry.1 := by
          rcases platformOptionNumber_cases hlib fetched opts he with
            ⟨o, ho, hsame, heq⟩ | ⟨-, ⟨number, -, store, hstore, heq⟩ | ⟨hok, -⟩⟩
          · exact ⟨o, hkeeps o (hfetched o ho), hsame⟩
          · rw [getPlatformOption_store, heq]
            exact ⟨_, (hstore _).mpr (Or.inr rfl), LoadOption.Same.number entry.1 number⟩
          · exact absurd hok hhead
        exact hpass.imp fun o ho =>
          ⟨foldl_getPlatformOption_keeps hlib fetched entries _ hrest o ho.1, ho.2⟩
      · exact ih hrest _ (fun o ho => hkeeps o (hfetched o ho)) hmem htail

/-- After a pass the key of its entry is in use, unless the option was not among those fetched and
the library refused it, or the library failed to add the key. -/
theorem getPlatformOption_used (hkeys : lib.KeysDocumented) {fetched : BootStore} {opts : Options}
    {entry : LoadOption × InputKey}
    (hunassigned : entry.1.optionNumber = loadOptionNumberUnassigned)
    (hchar : entry.2.unicodeChar ≠ 0) :
    (∃ b ∈ (getPlatformOption lib fetched.options opts entry).keys, b.key = entry.2) ∨
      ¬ Present fetched entry.1 ∧ (lib.addLoadOptionVariable entry.1 opts.store).ok = false ∨
      ∃ number, (lib.addKeyOptionVariable ⟨number, entry.2⟩
        (platformOptionNumber lib fetched.options entry.1 opts).2).1 = .failed := by
  have hasked : ∀ {number : ℕ} {opts' : Options},
      platformOptionNumber lib fetched.options entry.1 opts = (some number, opts') →
      (∃ b ∈ (getPlatformOption lib fetched.options opts entry).keys, b.key = entry.2) ∨
        (lib.addKeyOptionVariable ⟨UInt16.ofNat number, entry.2⟩ opts').1 = .failed := by
    intro number opts' heq
    rw [getPlatformOption, heq]
    dsimp only
    rw [if_neg hchar, BootManagerLib.addKey]
    dsimp only
    cases hstatus : (lib.addKeyOptionVariable ⟨UInt16.ofNat number, entry.2⟩ opts').1 with
    | success => exact Or.inl ⟨_, (hkeys.success _ opts' hstatus _).mpr (Or.inr rfl), rfl⟩
    | alreadyStarted =>
        obtain ⟨⟨b, hb, hkey⟩, hsame⟩ := hkeys.alreadyStarted _ opts' hstatus
        exact Or.inl ⟨b, hsame ▸ hb, hkey⟩
    | failed => exact Or.inr rfl
  rcases platformOptionNumber_cases hlib fetched opts hunassigned with
    ⟨o, -, -, heq⟩ | ⟨hnot, ⟨number, -, store, -, heq⟩ | ⟨hok, -⟩⟩
  · exact (hasked heq).imp_right fun hfailed => Or.inr ⟨_, by rw [heq]; exact hfailed⟩
  · exact (hasked heq).imp_right fun hfailed => Or.inr ⟨_, by rw [heq]; exact hfailed⟩
  · exact Or.inr (Or.inl ⟨hnot, hok⟩)

/-- After the loop too, by induction on the entries. -/
theorem foldl_getPlatformOption_used (hkeys : lib.KeysDocumented) {fetched : BootStore}
    {entries : List (LoadOption × InputKey)}
    (hunassigned : ∀ e ∈ entries, e.1.optionNumber = loadOptionNumberUnassigned) (opts : Options)
    (hfetched : ∀ o ∈ fetched.options, o ∈ opts.store.options) {e : LoadOption × InputKey}
    (he : e ∈ entries) (hchar : e.2.unicodeChar ≠ 0) :
    (∃ b ∈ (entries.foldl (getPlatformOption lib fetched.options) opts).keys, b.key = e.2) ∨
      ¬ Present fetched e.1 ∧
        Refused lib ((passes lib fetched.options entries opts).map Options.store) e.1 ∨
      KeyFailed lib fetched.options (passes lib fetched.options entries opts) e := by
  induction entries generalizing opts with
  | nil => cases he
  | cons entry entries ih =>
      obtain ⟨hentry, hrest⟩ := List.forall_mem_cons.mp hunassigned
      have hkeeps := getPlatformOption_keeps hlib fetched opts entry hentry
      have hlater : ∀ o ∈ fetched.options,
          o ∈ (getPlatformOption lib fetched.options opts entry).store.options :=
        fun o ho => hkeeps o (hfetched o ho)
      rcases List.mem_cons.mp he with rfl | he
      · rcases getPlatformOption_used hlib hkeys hentry hchar with
          ⟨b, hb, hkey⟩ | ⟨hnot, hok⟩ | ⟨number, hfailed⟩
        · exact Or.inl ⟨b, (foldl_getPlatformOption_keys hlib hkeys hrest _ hlater).1 b hb, hkey⟩
        · exact Or.inr (Or.inl ⟨hnot, _, List.mem_cons_self, hok⟩)
        · exact Or.inr (Or.inr ⟨_, List.mem_cons_self, number, hfailed⟩)
      · rcases ih hrest _ hlater he with hused | ⟨hnot, hrefused⟩ | hfailed
        · exact Or.inl hused
        · exact Or.inr (Or.inl ⟨hnot, hrefused.cons _⟩)
        · exact Or.inr (Or.inr (hfailed.cons _))

/-! ### The steps of a boot -/

/-- Registering a file of the firmware volume adds its option, if that is not there. -/
theorem platformRegisterFvBootOption_stored (image : List DevicePathNode)
    (fileGuid : BitVec 128) (description : List UInt16) (attributes : UInt32)
    (store : BootStore) :
    FreshInsert LoadOption.Same store.stored
      (platformRegisterFvBootOption lib image fileGuid description attributes
        store).2.stored := by
  by_cases hpresent : Present store (fvBootOption image fileGuid description attributes)
  · rw [register_present hlib hpresent]
    exact Or.inl rfl
  rw [register_absent hlib hpresent]
  cases hok : (lib.addLoadOptionVariable
      (fvBootOption image fileGuid description attributes) store).ok with
  | false =>
      refine Or.inl ?_
      dsimp only
      rw [(hlib.add_failed _ _ hok).2]
  | true =>
      obtain ⟨number, -, -, -, hstore⟩ := hlib.add_ok _ store rfl hok
      refine Or.inr ⟨_, ?_, Set.ext fun o => (hstore o).trans Or.comm⟩
      exact fun o ho hlike => hpresent ⟨o, ho, hlike⟩

variable (hmenu : lib.MenuDocumented) {firmware : Firmware} {around : Surroundings}
  {opts : Options}

omit hlib in
/-- A refresh leaves the lasting options alone. -/
theorem RefreshDocumented.grows {refresh : BootStore → BootStore}
    (h : RefreshDocumented marked refresh) (store : BootStore) :
    Grows marked store (refresh store) :=
  FreshGrowth.of_iff fun o ho => h store o ho

/-- `GetPlatformOptions` grows the variables. -/
theorem getPlatformOptions_grows (haround : around.Documented marked) :
    Grows marked opts.store (getPlatformOptions lib around.platform opts).store := by
  rw [getPlatformOptions.eq_def]
  split
  · exact .refl _
  · next entries heq =>
      exact foldl_getPlatformOption_grows hlib (haround.unassigned entries heq) (.refl _)

/-- `GetPlatformOptions` makes no second copy, if no option is offered twice. -/
theorem getPlatformOptions_single (haround : around.Documented marked) (htwice : around.NoTwice)
    {option : LoadOption} (h : Single opts.store option) :
    Single (getPlatformOptions lib around.platform opts).store option := by
  rw [getPlatformOptions.eq_def]
  split
  · exact h
  · next entries heq =>
      exact foldl_getPlatformOption_single hlib (haround.unassigned entries heq)
        (htwice entries heq) (fun o ho => Or.inl ho) h

include hmenu

/-- The menu and Simple Init are each added at most once. -/
theorem bootOptions_steps (firmware : Firmware) (around : Surroundings) (opts : Options) :
    FreshInsert LoadOption.Same (getPlatformOptions lib around.platform opts).store.stored
        (beforeSimpleInit lib around.platform opts).stored ∧
      FreshInsert LoadOption.Same (beforeSimpleInit lib around.platform opts).stored
        (bootOptions lib firmware around opts).stored :=
  ⟨hmenu _, platformRegisterFvBootOption_stored hlib firmware.image firmware.simpleInitFileGuid
    simpleInit loadOptionActive _⟩

omit hmenu in
/-- After the refresh the shell and the mass storage program are each added at most once. -/
theorem bootShell_steps (firmware : Firmware) (opts : Options)
    (hreset : handleCapsules around.capsules = false) :
    FreshInsert LoadOption.Same (around.refresh (bootOptions lib firmware around opts)).stored
        (bootShell lib firmware around opts).stored ∧
      FreshInsert LoadOption.Same (bootShell lib firmware around opts).stored
        (boot lib firmware around opts).1.store.stored := by
  refine ⟨platformRegisterFvBootOption_stored hlib _ _ _ _ _, ?_⟩
  rw [boot_continues hreset]
  split
  · exact Or.inl rfl
  · exact platformRegisterFvBootOption_stored hlib _ _ _ _ _

omit hmenu in
/-- The variables grow from the capsules on. -/
theorem bootOptions_grows (haround : around.Documented marked) :
    Grows marked (bootOptions lib firmware around opts)
      (boot lib firmware around opts).1.store := by
  cases hreset : handleCapsules around.capsules with
  | true =>
      rw [boot_resets hreset]
      exact .refl _
  | false =>
      obtain ⟨hs, hf⟩ := bootShell_steps hlib firmware opts hreset
      exact ((haround.refresh.grows _).trans Lasting.of_same hs.grows).trans
        Lasting.of_same hf.grows

/-- They grow from the options of the platform on. -/
theorem platform_grows (haround : around.Documented marked) :
    Grows marked (getPlatformOptions lib around.platform opts).store
      (boot lib firmware around opts).1.store := by
  obtain ⟨hm, ho⟩ := bootOptions_steps hlib hmenu firmware around opts
  exact (hm.grows.trans Lasting.of_same ho.grows).trans Lasting.of_same
    (bootOptions_grows hlib haround)

/-- A boot grows the variables. -/
theorem boot_grows (haround : around.Documented marked) :
    Grows marked opts.store (boot lib firmware around opts).1.store :=
  (getPlatformOptions_grows hlib haround).trans Lasting.of_same
    (platform_grows hlib hmenu haround)

/-- A boot makes no second copy of a lasting option, if no option is offered twice. -/
theorem boot_single (haround : around.Documented marked) (htwice : around.NoTwice)
    {option : LoadOption} (hoption : Lasting marked option) (h : Single opts.store option) :
    Single (boot lib firmware around opts).1.store option := by
  have hsame := LoadOption.same_equivalence
  obtain ⟨hm, ho⟩ := bootOptions_steps hlib hmenu firmware around opts
  have hoptions := ho.atMostOne hsame (hm.atMostOne hsame
    (getPlatformOptions_single hlib haround htwice h))
  cases hreset : handleCapsules around.capsules with
  | true =>
      rw [boot_resets hreset]
      exact hoptions
  | false =>
      obtain ⟨hs, hf⟩ := bootShell_steps hlib firmware opts hreset
      refine hf.atMostOne hsame (hs.atMostOne hsame (hoptions.mono fun o hmem hlike => ?_))
      exact (haround.refresh _ o (Lasting.of_same _ _ hlike hoption)).mp hmem

omit hmenu in
/-- A file of the firmware volume is stored once it is registered, unless the library refused
it. -/
theorem platformRegisterFvBootOption_present (image : List DevicePathNode)
    (fileGuid : BitVec 128) (description : List UInt16) (attributes : UInt32)
    {stores : List BootStore} {store : BootStore} (hmem : store ∈ stores)
    (hrefused : ¬ Refused lib stores (fvBootOption image fileGuid description attributes)) :
    Present (platformRegisterFvBootOption lib image fileGuid description attributes store).2
      (fvBootOption image fileGuid description attributes) := by
  by_cases hpresent : Present store (fvBootOption image fileGuid description attributes)
  · rw [register_present hlib hpresent]
    exact hpresent
  rw [register_absent hlib hpresent]
  cases hok : (lib.addLoadOptionVariable
      (fvBootOption image fileGuid description attributes) store).ok with
  | false => exact absurd ⟨store, hmem, hok⟩ hrefused
  | true => exact (designates_added hlib rfl hok).present

omit hlib hmenu in
/-- Where a boot may add an option of its own. -/
theorem mem_course (lib : BootManagerLib) (firmware : Firmware) (around : Surroundings)
    (opts : Options) :
    beforeSimpleInit lib around.platform opts ∈ course lib firmware around opts ∧
      around.refresh (bootOptions lib firmware around opts) ∈
        course lib firmware around opts ∧
      bootShell lib firmware around opts ∈ course lib firmware around opts := by
  refine ⟨List.mem_append_right _ ?_, List.mem_append_right _ ?_, List.mem_append_right _ ?_⟩
  · exact List.mem_cons_self
  · exact List.mem_cons_of_mem _ List.mem_cons_self
  · exact List.mem_cons_of_mem _ (List.mem_cons_of_mem _ List.mem_cons_self)

/-- A boot leaves what was asked for stored, unless the library refused it. -/
theorem boot_present (haround : around.Documented marked) (hmark : ¬ marked [])
    {option : LoadOption} (hasked : Asked firmware around option)
    (hrefused : ¬ Refused lib (course lib firmware around opts) option) :
    Present (boot lib firmware around opts).1.store option := by
  obtain ⟨hsimple, hshell, hmass⟩ := mem_course lib firmware around opts
  cases hasked with
  | @platform entries e h he =>
      have hloop := foldl_getPlatformOption_present hlib (haround.unassigned entries h)
        opts (fun o ho => ho) he fun hr => hrefused
          (hr.imp fun s hs => ⟨List.mem_append_left _ (by rw [h]; exact hs.1), hs.2⟩)
      have hplatform : Present (getPlatformOptions lib around.platform opts).store e.1 := by
        rw [h]
        exact hloop
      exact hplatform.grows (platform_grows hlib hmenu haround)
        (haround.unmarked entries h e he)
  | simpleInit =>
      exact (platformRegisterFvBootOption_present hlib _ _ _ _ hsimple hrefused).grows
        (bootOptions_grows hlib haround) hmark
  | uefiShell hreset =>
      obtain ⟨-, hf⟩ := bootShell_steps hlib firmware opts hreset
      exact (platformRegisterFvBootOption_present hlib _ _ _ _ hshell hrefused).grows
        hf.grows hmark
  | massStorage hreset hguid =>
      rw [boot_continues hreset, hguid]
      exact platformRegisterFvBootOption_present hlib _ _ _ _ hmass hrefused

/-- **The options settle** in the course of a boot, from whatever it finds. -/
theorem boot_settled (hmark : ¬ marked []) (haround : around.Documented marked)
    (firmware : Firmware) (opts : Options) : Settled lib marked firmware around opts := by
  have hgrows : Grows marked opts.store (boot lib firmware around opts).1.store :=
    boot_grows hlib hmenu haround
  refine ⟨fun o ho hl => hgrows.keeps o ho hl, ?_,
    fun htwice option => boot_single hlib hmenu haround htwice,
    fun option hasked => boot_present hlib hmenu haround hmark hasked⟩
  rintro option hoption ⟨o, ho, hsame⟩ o' hsame'
  have hl := Lasting.of_same _ _ hsame' hoption
  exact ⟨fun h => hgrows.frozen LoadOption.same_equivalence ho hsame o' h hl hsame',
    fun h => hgrows.keeps o' h hl⟩

/-! ### The keys -/

/-- A key that is bound behind the loop stays bound, under the number that its option was first
stored with. -/
theorem Binds.stably (haround : around.Documented marked) {b : KeyBinding}
    {e : LoadOption × InputKey} (hlasting : Lasting marked e.1)
    (h : Binds (getPlatformOptions lib around.platform opts).store b e) :
    BindsStably lib firmware around opts b e := by
  obtain ⟨hkey, hchar, hdesignates⟩ := h
  have hend : Designates (boot lib firmware around opts).1.store b.optionNumber e.1 :=
    hdesignates.grows (platform_grows hlib hmenu haround) hlasting
  refine ⟨⟨hkey, hchar, hend⟩, fun o ho hsame hsingle => ?_⟩
  -- what the number designates was stored to begin with, and so is the one copy
  obtain ⟨o', ho', hnumber, hsame'⟩ := hend
  have hstart : o' ∈ opts.store.stored := (boot_grows hlib hmenu haround).frozen
    LoadOption.same_equivalence ho hsame o' ho' (Lasting.of_same _ _ hsame' hlasting) hsame'
  rw [← hnumber, hsingle o' hstart o ho hsame' hsame]

omit hlib hmenu in
/-- Without a protocol of the platform there are no entries. -/
theorem getPlatformOptions_eq_foldl (lib : BootManagerLib)
    (platform : Option (List (LoadOption × InputKey))) (opts : Options) :
    getPlatformOptions lib platform opts =
      (platform.getD []).foldl (getPlatformOption lib opts.store.options) opts := by
  cases platform <;> rfl

/-- A key behind a boot was there before, or is the one for Simple Init, or is bound for an entry of
the platform. -/
theorem boot_keys (hkeys : lib.KeysDocumented) (haround : around.Documented marked)
    (firmware : Firmware) (opts : Options) :
    (∀ b ∈ (getPlatformOptions lib around.platform opts).keys,
        b ∈ (boot lib firmware around opts).1.keys) ∧
      (∀ b ∈ opts.keys, b ∈ (boot lib firmware around opts).1.keys) ∧
      ∀ b ∈ (boot lib firmware around opts).1.keys, b ∈ opts.keys ∨
        b = (boot lib firmware around opts).2 ∨
        ∃ e ∈ around.platform.getD [], BindsStably lib firmware around opts b e := by
  obtain ⟨hloop, hsimple⟩ := mem_addKey hkeys (boot lib firmware around opts).2
    { getPlatformOptions lib around.platform opts with
      store := bootOptions lib firmware around opts }
  obtain ⟨hold, hnew⟩ := foldl_getPlatformOption_keys hlib hkeys
    haround.unassigned_getD opts fun _ ho => ho
  rw [← getPlatformOptions_eq_foldl] at hold hnew
  refine ⟨hloop, fun b hb => hloop b (hold b hb), fun b hb => ?_⟩
  rcases hsimple b hb with hb | rfl
  · refine (hnew b hb).imp_right fun ⟨e, he, hbinds⟩ => Or.inr ⟨e, he, ?_⟩
    exact hbinds.stably hlib hmenu haround (haround.lasting_getD e he)
  · exact Or.inr (Or.inl rfl)

end Library

/-! ### A boot of a phone -/

/-- The mark of the options created for devices. -/
def autoCreateGuid : List UInt8 :=
  [0x4e, 0xac, 0x08, 0x81, 0x11, 0x9f, 0x59, 0x4d, 0x85, 0x0e, 0xe2, 0x1a, 0x52, 0x2c, 0x59, 0xb2]

/-- The variables without those that fail a test. -/
def BootStore.retain (store : BootStore) (keep : LoadOption → Bool) : BootStore where
  options := store.options.filter keep
  inRange o ho := store.inRange o (List.mem_of_mem_filter ho)
  distinct := store.distinct.sublist (List.filter_sublist.map _)

/-- The marked option for a device. -/
def deviceOption (filePath : List DevicePathNode) : LoadOption :=
  ⟨loadOptionNumberUnassigned, loadOptionActive, [85, 83, 66], filePath, autoCreateGuid⟩

/-- A refresh: marked options of devices that are gone are deleted, those of new devices are
added. -/
def refreshDevices (devices : List (List DevicePathNode)) (store : BootStore) : BootStore :=
  devices.foldl (fun store device =>
      if store.options.any fun o => decide (o.Same (deviceOption device)) then store
      else (leastNumberLib.addLoadOptionVariable (deviceOption device) store).store)
    (store.retain fun o => decide (o.optionalData ≠ autoCreateGuid) ||
      devices.any fun device => decide (o.Same (deviceOption device)))

/-- The devices of the boots are refreshed as documented. -/
theorem refreshDevices_documented (devices : List (List DevicePathNode)) :
    RefreshDocumented (· = autoCreateGuid) (refreshDevices devices) := by
  intro store o (ho : o.optionalData ≠ autoCreateGuid)
  have hretain : ∀ keep : LoadOption → Bool, keep o = true →
      (o ∈ (store.retain keep).options ↔ o ∈ store.options) := by
    intro keep hkeep
    rw [BootStore.retain, List.mem_filter, hkeep]
    exact and_iff_left rfl
  rw [refreshDevices, ← hretain (fun o => decide (o.optionalData ≠ autoCreateGuid) ||
    devices.any fun device => decide (o.Same (deviceOption device)))
    (by rw [decide_eq_true ho, Bool.true_or])]
  generalize store.retain _ = store
  induction devices generalizing store with
  | nil => rfl
  | cons device devices ih =>
      rw [List.foldl_cons]
      refine (ih _).trans ?_
      split
      · rfl
      rcases leastNumberLib_add (deviceOption device) store with ⟨n, hn, hadd⟩ | hadd
      · rw [hadd, BootStore.insert, List.mem_append, or_iff_left]
        rintro hmem
        rw [List.mem_singleton.mp hmem] at ho
        exact ho rfl
      · rw [hadd]

/-- The menu of the library that takes the least number is as documented. -/
theorem leastNumberLib_menuDocumented : leastNumberLib.MenuDocumented := fun _ => Or.inl rfl

/-- A firmware with everything built in. -/
def phone : Firmware := ⟨firmwareVolume, 0x42, 0x43, some 0x44⟩

/-- Its platform offers a program with a key. -/
def phonePlatform : List (LoadOption × InputKey) :=
  [({ fvBootOption firmwareVolume 0x45 [82] 1 with optionalData := [1] }, ⟨0, 114⟩)]

/-- Some devices are plugged in, and a capsule fails. -/
def phoneBoot (devices : List (List DevicePathNode)) : Surroundings :=
  ⟨some phonePlatform, [true, false], refreshDevices devices⟩

/-- The boots of the phone are as documented. -/
theorem phoneBoot_documented (devices : List (List DevicePathNode)) :
    (phoneBoot devices).Documented (· = autoCreateGuid) where
  unassigned entries h := by
    obtain rfl := Option.some.inj h
    exact List.forall_mem_singleton.mpr rfl
  unmarked entries h := by
    obtain rfl := Option.some.inj h
    exact List.forall_mem_singleton.mpr (by decide)
  refresh := refreshDevices_documented devices

/-- What a boot finds: the boot manager menu, and a key for it. -/
def phoneOptions : Options := ⟨menuOnly, [⟨0, ⟨0, 98⟩⟩]⟩

/-- A boot of the phone with one device, from its own store. -/
theorem boot_settled_phone :
    Settled leastNumberLib (· = autoCreateGuid) phone (phoneBoot [[.other 3 5 [1]]])
      phoneOptions :=
  boot_settled leastNumberLib_documented leastNumberLib_menuDocumented (by decide)
    (phoneBoot_documented _) phone phoneOptions

end Boot

end Msm8998
