import Mathlib.Algebra.Group.Nat.Defs
import Mathlib.Data.List.Nodup
import Mathlib.Data.List.Basic

/-!
# Boot Options of the Platform

This module models the boot option part of `PlatformBm.c`: `PlatformRegisterFvBootOption`,
`GetPlatformOptions` and `PlatformRegisterOptionsAndKeys`. The boot manager library is a
parameter, of which only the documented behaviour of finding and adding an option, and of adding
a key, is used.

Adding an option writes the number it was given back into the caller's structure; finding
one does not. `PlatformRegisterFvBootOption` returns the number in that structure either
way.

## Main results

* `getPlatformOptions_designates`: the sibling loop binds no key but to the option asked for.
* `platformRegisterFvBootOption_settles_iff`: when the number returned designates the
  option, and is returned again by the next call.
-/

namespace Msm8998

namespace Boot

def loadOptionNumberUnassigned : ℕ := 0x10000
def loadOptionActive : UInt32 := 1

/-- A node of a device path; the end node is implied. -/
inductive DevicePathNode
  | fwVolFile (fileGuid : BitVec 128)
  | other (type subType : UInt8) (data : List UInt8)
deriving Repr, DecidableEq

/-- `EFI_BOOT_MANAGER_LOAD_OPTION` of type boot. -/
structure LoadOption where
  optionNumber : ℕ
  attributes : UInt32
  description : List UInt16
  filePath : List DevicePathNode
  optionalData : List UInt8
deriving Repr, DecidableEq

/-- Two options are equal when all but their numbers agree. -/
def LoadOption.Same (a b : LoadOption) : Prop :=
  a.attributes = b.attributes ∧ a.description = b.description ∧ a.filePath = b.filePath ∧
    a.optionalData = b.optionalData

instance (a b : LoadOption) : Decidable (a.Same b) :=
  inferInstanceAs (Decidable (a.attributes = b.attributes ∧ a.description = b.description ∧
    a.filePath = b.filePath ∧ a.optionalData = b.optionalData))

/-- The `Boot####` variables in boot order. Their numbers have 16 bits and name them. -/
structure BootStore where
  options : List LoadOption
  inRange : ∀ o ∈ options, o.optionNumber < loadOptionNumberUnassigned
  distinct : (options.map (·.optionNumber)).Nodup

/-- What `EfiBootManagerAddLoadOptionVariable` leaves behind: whether it succeeded, the
caller's structure, and the variables. -/
structure Added where
  ok : Bool
  option : LoadOption
  store : BootStore

/-- `EFI_INPUT_KEY`. -/
structure InputKey where
  scanCode : UInt16
  unicodeChar : UInt16
deriving Repr, DecidableEq

/-- A key option without a shift state: the key, and the number of the option it boots. -/
structure KeyBinding where
  optionNumber : UInt16
  key : InputKey
deriving Repr, DecidableEq

/-- The `Boot####` and the `Key####` variables. -/
structure Options where
  store : BootStore
  keys : List KeyBinding

/-- What `EfiBootManagerAddKeyOptionVariable` returns: `EFI_SUCCESS`, `EFI_ALREADY_STARTED` or
another error. -/
inductive KeyStatus
  | success | alreadyStarted | failed
deriving Repr, DecidableEq

/-- The boot manager library. `findLoadOption` gives `none` for `-1`, `getBootManagerMenu` may
add the menu to the boot options, and `addKeyOptionVariable` leaves the key options behind. -/
structure BootManagerLib where
  findLoadOption : LoadOption → List LoadOption → Option ℕ
  addLoadOptionVariable : LoadOption → BootStore → Added
  addKeyOptionVariable : KeyBinding → Options → KeyStatus × List KeyBinding
  getBootManagerMenu : BootStore → BootStore

/-- The documented behaviour of the library: an equal option is found if there is one, and
an option without a number is stored under an unused one or not at all. -/
structure BootManagerLib.Documented (lib : BootManagerLib) : Prop where
  find_some : ∀ key options i, lib.findLoadOption key options = some i →
    ∃ o, options[i]? = some o ∧ o.Same key
  find_none : ∀ key options, lib.findLoadOption key options = none →
    ∀ o ∈ options, ¬ o.Same key
  add_ok : ∀ option store, option.optionNumber = loadOptionNumberUnassigned →
    (lib.addLoadOptionVariable option store).ok = true →
    ∃ number < loadOptionNumberUnassigned, (∀ o ∈ store.options, o.optionNumber ≠ number) ∧
      (lib.addLoadOptionVariable option store).option = { option with optionNumber := number } ∧
      ∀ o, o ∈ (lib.addLoadOptionVariable option store).store.options ↔
        o ∈ store.options ∨ o = { option with optionNumber := number }
  add_failed : ∀ option store, (lib.addLoadOptionVariable option store).ok = false →
    (lib.addLoadOptionVariable option store).option = option ∧
      (lib.addLoadOptionVariable option store).store = store

/-- The documented behaviour of adding a key: it is added, or another key option uses the key
already, or an error keeps it from being added. -/
structure BootManagerLib.KeysDocumented (lib : BootManagerLib) : Prop where
  success : ∀ binding opts, (lib.addKeyOptionVariable binding opts).1 = .success →
    ∀ b, b ∈ (lib.addKeyOptionVariable binding opts).2 ↔ b ∈ opts.keys ∨ b = binding
  alreadyStarted : ∀ binding opts,
    (lib.addKeyOptionVariable binding opts).1 = .alreadyStarted →
      (∃ b ∈ opts.keys, b.key = binding.key) ∧
        (lib.addKeyOptionVariable binding opts).2 = opts.keys
  failed : ∀ binding opts, (lib.addKeyOptionVariable binding opts).1 = .failed →
    (lib.addKeyOptionVariable binding opts).2 = opts.keys

/-! ### The functions of the platform -/

/-- The option that `PlatformRegisterFvBootOption` prepares: a file of the firmware volume
its own image was loaded from. -/
def fvBootOption (image : List DevicePathNode) (fileGuid : BitVec 128)
    (description : List UInt16) (attributes : UInt32) : LoadOption :=
  { optionNumber := loadOptionNumberUnassigned
    attributes, description
    filePath := image ++ [.fwVolFile fileGuid]
    optionalData := [] }

/-- `PlatformRegisterFvBootOption`: the number it returns, and the variables. -/
def platformRegisterFvBootOption (lib : BootManagerLib) (image : List DevicePathNode)
    (fileGuid : BitVec 128) (description : List UInt16) (attributes : UInt32)
    (store : BootStore) : UInt16 × BootStore :=
  let newOption := fvBootOption image fileGuid description attributes
  let bootOptions := store.options
  let optionIndex := lib.findLoadOption newOption bootOptions
  let added := if optionIndex = none then lib.addLoadOptionVariable newOption store
    else ⟨true, newOption, store⟩
  (UInt16.ofNat added.option.optionNumber, added.store)

/-- The number of the option of an entry, found or added, and the variables. There is none when
the option could not be added. -/
def platformOptionNumber (lib : BootManagerLib) (currentBootOptions : List LoadOption)
    (bootOption : LoadOption) (opts : Options) : Option ℕ × Options :=
  match lib.findLoadOption bootOption currentBootOptions with
  | some i => (currentBootOptions[i]?.map (·.optionNumber), opts)
  | none =>
      let added := lib.addLoadOptionVariable bootOption opts.store
      (if added.ok then some added.option.optionNumber else none, { opts with store := added.store })

/-- The variables after the library was asked to add a key, whatever it returns. -/
def BootManagerLib.addKey (lib : BootManagerLib) (binding : KeyBinding) (opts : Options) :
    Options :=
  { opts with keys := (lib.addKeyOptionVariable binding opts).2 }

/-- One pass of the loop of `GetPlatformOptions`. -/
def getPlatformOption (lib : BootManagerLib) (currentBootOptions : List LoadOption)
    (opts : Options) (entry : LoadOption × InputKey) : Options :=
  match platformOptionNumber lib currentBootOptions entry.1 opts with
  | (none, opts) => opts
  | (some bootOptionNumber, opts) =>
      if entry.2.unicodeChar = 0 then opts
      else lib.addKey ⟨UInt16.ofNat bootOptionNumber, entry.2⟩ opts

/-- `GetPlatformOptions`; `platform` is what the platform's protocol offers, if there is
one. -/
def getPlatformOptions (lib : BootManagerLib) (platform : Option (List (LoadOption × InputKey)))
    (opts : Options) : Options :=
  match platform with
  | none => opts
  | some entries => entries.foldl (getPlatformOption lib opts.store.options) opts

def simpleInit : List UInt16 := [83, 105, 109, 112, 108, 101, 32, 73, 110, 105, 116]

/-- The `UP` key. -/
def up : InputKey := ⟨0x0001, 0x0000⟩

/-- The variables when `PlatformRegisterOptionsAndKeys` comes to Simple Init. -/
def beforeSimpleInit (lib : BootManagerLib) (platform : Option (List (LoadOption × InputKey)))
    (opts : Options) : BootStore :=
  lib.getBootManagerMenu (getPlatformOptions lib platform opts).store

/-- `PlatformRegisterOptionsAndKeys`: the variables, and the key that it asks for Simple Init.
The Enter key for continuing is not a key option. -/
def platformRegisterOptionsAndKeys (lib : BootManagerLib) (simpleInitFileGuid : BitVec 128)
    (image : List DevicePathNode) (platform : Option (List (LoadOption × InputKey)))
    (opts : Options) : Options × KeyBinding :=
  let (optionSimpleInit, store) := platformRegisterFvBootOption lib image simpleInitFileGuid
    simpleInit loadOptionActive (beforeSimpleInit lib platform opts)
  let key : KeyBinding := ⟨optionSimpleInit, up⟩
  (lib.addKey key { getPlatformOptions lib platform opts with store }, key)

/-! ### What a number designates -/

/-- `number` is the number of a stored option equal to `option`. -/
def Designates (store : BootStore) (number : UInt16) (option : LoadOption) : Prop :=
  ∃ o ∈ store.options, o.optionNumber = number.toNat ∧ o.Same option

/-- An option is stored. -/
def Present (store : BootStore) (option : LoadOption) : Prop :=
  ∃ o ∈ store.options, o.Same option

/-- What a number designates is stored. -/
theorem Designates.present {store : BootStore} {number : UInt16} {option : LoadOption}
    (h : Designates store number option) : Present store option :=
  h.imp fun _ ho => ⟨ho.1, ho.2.2⟩

/-- A 16-bit number survives the conversion to `UINT16`. -/
theorem toNat_number {n : ℕ} (h : n < loadOptionNumberUnassigned) :
    (UInt16.ofNat n).toNat = n := by
  rw [UInt16.toNat_ofNat']
  exact Nat.mod_eq_of_lt h

/-- The unassigned number does not: it becomes `Boot0000`. -/
theorem toUInt16_unassigned : UInt16.ofNat loadOptionNumberUnassigned = 0 := rfl

/-- Another number does not make it another option. -/
theorem LoadOption.Same.number (option : LoadOption) (number : ℕ) :
    LoadOption.Same { option with optionNumber := number } option := ⟨rfl, rfl, rfl, rfl⟩

section Library

variable {lib : BootManagerLib} (hlib : lib.Documented)

include hlib

/-- The library finds an option exactly when it is stored. -/
theorem find_eq_none_iff (store : BootStore) (option : LoadOption) :
    lib.findLoadOption option store.options = none ↔ ¬ Present store option := by
  constructor
  · rintro hnone ⟨o, hmem, hsame⟩
    exact hlib.find_none option store.options hnone o hmem hsame
  · intro hpresent
    cases hfind : lib.findLoadOption option store.options with
    | none => rfl
    | some i =>
        obtain ⟨o, hget, hsame⟩ := hlib.find_some _ _ _ hfind
        exact absurd ⟨o, List.mem_of_getElem? hget, hsame⟩ hpresent

/-- What registering does to an option that is not stored yet. -/
theorem register_absent {image : List DevicePathNode} {fileGuid : BitVec 128}
    {description : List UInt16} {attributes : UInt32} {store : BootStore}
    (habsent : ¬ Present store (fvBootOption image fileGuid description attributes)) :
    platformRegisterFvBootOption lib image fileGuid description attributes store =
      let added := lib.addLoadOptionVariable
        (fvBootOption image fileGuid description attributes) store
      (UInt16.ofNat added.option.optionNumber, added.store) := by
  simp only [platformRegisterFvBootOption, (find_eq_none_iff hlib store _).mpr habsent, if_true]

/-- Registering a stored option returns zero and changes nothing. -/
theorem register_present {image : List DevicePathNode} {fileGuid : BitVec 128}
    {description : List UInt16} {attributes : UInt32} {store : BootStore}
    (hpresent : Present store (fvBootOption image fileGuid description attributes)) :
    platformRegisterFvBootOption lib image fileGuid description attributes store = (0, store) := by
  have hfound := mt (find_eq_none_iff hlib store _).mp (not_not_intro hpresent)
  simp only [platformRegisterFvBootOption, if_neg hfound]
  exact congrArg (·, store) toUInt16_unassigned

/-- An option that was added is stored under the number written back. -/
theorem designates_added {option : LoadOption} {store : BootStore}
    (hunassigned : option.optionNumber = loadOptionNumberUnassigned)
    (hok : (lib.addLoadOptionVariable option store).ok = true) :
    Designates (lib.addLoadOptionVariable option store).store
      (UInt16.ofNat (lib.addLoadOptionVariable option store).option.optionNumber) option := by
  obtain ⟨number, hlt, -, hoption, hstore⟩ := hlib.add_ok option store hunassigned hok
  rw [hoption]
  exact ⟨{ option with optionNumber := number }, (hstore _).mpr (Or.inr rfl),
    (toNat_number hlt).symm, LoadOption.Same.number option number⟩

/-! ### The sibling loop -/

/-- What a pass does about the option of its entry. It finds the option among those fetched, or
it adds it under an unused number, or the library refuses to add it. -/
theorem platformOptionNumber_cases (fetched : BootStore) (opts : Options) {option : LoadOption}
    (hunassigned : option.optionNumber = loadOptionNumberUnassigned) :
    (∃ o ∈ fetched.options, o.Same option ∧
        platformOptionNumber lib fetched.options option opts = (some o.optionNumber, opts)) ∨
    ¬ Present fetched option ∧
      ((∃ number < loadOptionNumberUnassigned, ∃ store : BootStore,
          (∀ o, o ∈ store.options ↔
            o ∈ opts.store.options ∨ o = { option with optionNumber := number }) ∧
          platformOptionNumber lib fetched.options option opts =
            (some number, { opts with store })) ∨
        (lib.addLoadOptionVariable option opts.store).ok = false ∧
          platformOptionNumber lib fetched.options option opts = (none, opts)) := by
  cases hfind : lib.findLoadOption option fetched.options with
  | some i =>
      obtain ⟨o, hget, hsame⟩ := hlib.find_some _ _ _ hfind
      refine Or.inl ⟨o, List.mem_of_getElem? hget, hsame, ?_⟩
      simp only [platformOptionNumber, hfind, hget, Option.map_some]
  | none =>
      refine Or.inr ⟨(find_eq_none_iff hlib fetched _).mp hfind, ?_⟩
      cases hok : (lib.addLoadOptionVariable option opts.store).ok with
      | true =>
          obtain ⟨number, hlt, -, hoption, hstore⟩ := hlib.add_ok _ _ hunassigned hok
          refine Or.inl ⟨number, hlt, _, hstore, ?_⟩
          simp only [platformOptionNumber, hfind, hok, if_true, hoption]
      | false =>
          refine Or.inr ⟨rfl, ?_⟩
          simp only [platformOptionNumber, hfind, hok, (hlib.add_failed _ _ hok).2]
          rfl

omit hlib in
/-- Only the option of its entry changes the options in a pass. -/
theorem getPlatformOption_store (current : List LoadOption) (opts : Options)
    (entry : LoadOption × InputKey) :
    (getPlatformOption lib current opts entry).store =
      (platformOptionNumber lib current entry.1 opts).2.store := by
  rw [getPlatformOption]
  split
  · next heq => rw [heq]
  · next heq =>
      rw [heq]
      split <;> rfl

omit hlib in
/-- The number of an option is found without touching the keys. -/
theorem platformOptionNumber_keys (current : List LoadOption) (option : LoadOption)
    (opts : Options) : (platformOptionNumber lib current option opts).2.keys = opts.keys := by
  rw [platformOptionNumber]
  split <;> rfl

/-- The number designates the option. -/
theorem platformOptionNumber_designates {fetched : BootStore} {opts opts' : Options}
    {option : LoadOption} {number : ℕ}
    (hunassigned : option.optionNumber = loadOptionNumberUnassigned)
    (hfetched : ∀ o ∈ fetched.options, o ∈ opts.store.options)
    (h : platformOptionNumber lib fetched.options option opts = (some number, opts')) :
    Designates opts'.store (UInt16.ofNat number) option := by
  rcases platformOptionNumber_cases hlib fetched opts hunassigned with
    ⟨o, ho, hsame, heq⟩ | ⟨-, ⟨n, hlt, store, hstore, heq⟩ | ⟨-, heq⟩⟩
  · cases heq.symm.trans h
    exact ⟨o, hfetched o ho, (toNat_number (fetched.inRange o ho)).symm, hsame⟩
  · cases heq.symm.trans h
    exact ⟨_, (hstore _).mpr (Or.inr rfl), (toNat_number hlt).symm,
      LoadOption.Same.number option number⟩
  · cases heq.symm.trans h

/-- A pass keeps the stored options. -/
theorem getPlatformOption_keeps (fetched : BootStore) (opts : Options)
    (entry : LoadOption × InputKey)
    (hunassigned : entry.1.optionNumber = loadOptionNumberUnassigned) :
    ∀ o ∈ opts.store.options,
      o ∈ (getPlatformOption lib fetched.options opts entry).store.options := by
  intro o ho
  rw [getPlatformOption_store]
  rcases platformOptionNumber_cases hlib fetched opts hunassigned with
    ⟨_, -, -, heq⟩ | ⟨-, ⟨_, -, store, hstore, heq⟩ | ⟨-, heq⟩⟩
  · rw [heq]
    exact ho
  · rw [heq]
    exact (hstore o).mpr (Or.inl ho)
  · rw [heq]
    exact ho

/-- So does the whole loop. -/
theorem foldl_getPlatformOption_keeps (fetched : BootStore)
    (entries : List (LoadOption × InputKey)) (opts : Options)
    (hunassigned : ∀ e ∈ entries, e.1.optionNumber = loadOptionNumberUnassigned) :
    ∀ o ∈ opts.store.options,
      o ∈ (entries.foldl (getPlatformOption lib fetched.options) opts).store.options := by
  induction entries generalizing opts with
  | nil => exact fun o ho => ho
  | cons entry entries ih =>
      obtain ⟨hentry, hrest⟩ := List.forall_mem_cons.mp hunassigned
      exact fun o ho => ih _ hrest o (getPlatformOption_keeps hlib fetched opts entry hentry o ho)

end Library

/-- A key bound for an entry of the platform. -/
def Binds (store : BootStore) (b : KeyBinding) (e : LoadOption × InputKey) : Prop :=
  b.key = e.2 ∧ e.2.unicodeChar ≠ 0 ∧ Designates store b.optionNumber e.1

/-- A key stays bound to its option as long as the options stay. -/
theorem Binds.mono {store store' : BootStore} {b : KeyBinding} {e : LoadOption × InputKey}
    (h : Binds store b e) (hkeeps : ∀ o ∈ store.options, o ∈ store'.options) :
    Binds store' b e :=
  ⟨h.1, h.2.1, h.2.2.imp fun o ho => ⟨hkeeps o ho.1, ho.2⟩⟩

section Keys

variable {lib : BootManagerLib} (hlib : lib.Documented) (hkeys : lib.KeysDocumented)

include hkeys

/-- The library adds no key but the one it is asked for, and takes none away. -/
theorem mem_addKey (binding : KeyBinding) (opts : Options) :
    (∀ b ∈ opts.keys, b ∈ (lib.addKey binding opts).keys) ∧
      ∀ b ∈ (lib.addKey binding opts).keys, b ∈ opts.keys ∨ b = binding := by
  rw [BootManagerLib.addKey]
  cases hstatus : (lib.addKeyOptionVariable binding opts).1 with
  | success =>
      have hmem := hkeys.success binding opts hstatus
      exact ⟨fun b hb => (hmem b).mpr (Or.inl hb), fun b hb => (hmem b).mp hb⟩
  | alreadyStarted =>
      rw [(hkeys.alreadyStarted binding opts hstatus).2]
      exact ⟨fun b hb => hb, fun b hb => Or.inl hb⟩
  | failed =>
      rw [hkeys.failed binding opts hstatus]
      exact ⟨fun b hb => hb, fun b hb => Or.inl hb⟩

include hlib

/-- A pass keeps the keys, and a key that it adds is bound to the option of its entry. -/
theorem getPlatformOption_keys {fetched : BootStore} {opts : Options}
    {entry : LoadOption × InputKey}
    (hunassigned : entry.1.optionNumber = loadOptionNumberUnassigned)
    (hfetched : ∀ o ∈ fetched.options, o ∈ opts.store.options) :
    (∀ b ∈ opts.keys, b ∈ (getPlatformOption lib fetched.options opts entry).keys) ∧
      ∀ b ∈ (getPlatformOption lib fetched.options opts entry).keys,
        b ∈ opts.keys ∨ Binds (getPlatformOption lib fetched.options opts entry).store b entry := by
  have hkept : (platformOptionNumber lib fetched.options entry.1 opts).2.keys = opts.keys :=
    platformOptionNumber_keys _ _ _
  rw [getPlatformOption]
  split
  · next heq =>
      rw [heq] at hkept
      rw [hkept]
      exact ⟨fun b hb => hb, fun b hb => Or.inl hb⟩
  · next number opts' heq =>
      have hdesignates := platformOptionNumber_designates hlib hunassigned hfetched heq
      rw [heq] at hkept
      split
      · rw [hkept]
        exact ⟨fun b hb => hb, fun b hb => Or.inl hb⟩
      · next hchar =>
          obtain ⟨hold, hnew⟩ := mem_addKey hkeys ⟨UInt16.ofNat number, entry.2⟩ opts'
          refine ⟨fun b hb => hold b (hkept ▸ hb), fun b hb => ?_⟩
          rcases hnew b hb with hb | rfl
          · exact Or.inl (hkept ▸ hb)
          · exact Or.inr ⟨rfl, hchar, hdesignates⟩

/-- So does the whole loop, by induction on the entries. -/
theorem foldl_getPlatformOption_keys {fetched : BootStore}
    {entries : List (LoadOption × InputKey)}
    (hunassigned : ∀ e ∈ entries, e.1.optionNumber = loadOptionNumberUnassigned) (opts : Options)
    (hfetched : ∀ o ∈ fetched.options, o ∈ opts.store.options) :
    (∀ b ∈ opts.keys, b ∈ (entries.foldl (getPlatformOption lib fetched.options) opts).keys) ∧
      ∀ b ∈ (entries.foldl (getPlatformOption lib fetched.options) opts).keys, b ∈ opts.keys ∨
        ∃ e ∈ entries,
          Binds (entries.foldl (getPlatformOption lib fetched.options) opts).store b e := by
  induction entries generalizing opts with
  | nil => exact ⟨fun b hb => hb, fun b hb => Or.inl hb⟩
  | cons entry entries ih =>
      obtain ⟨hentry, hrest⟩ := List.forall_mem_cons.mp hunassigned
      obtain ⟨hold, hnew⟩ := getPlatformOption_keys hlib hkeys hentry hfetched
      have hkeeps := getPlatformOption_keeps hlib fetched opts entry hentry
      obtain ⟨hold', hnew'⟩ := ih hrest (getPlatformOption lib fetched.options opts entry)
        fun o ho => hkeeps o (hfetched o ho)
      refine ⟨fun b hb => hold' b (hold b hb), fun b hb => ?_⟩
      rcases hnew' b hb with hb | ⟨e, he, hbinds⟩
      · exact (hnew b hb).imp_right fun hbinds => ⟨entry, List.mem_cons_self,
          hbinds.mono (foldl_getPlatformOption_keeps hlib fetched entries _ hrest)⟩
      · exact Or.inr ⟨e, List.mem_cons_of_mem entry he, hbinds⟩

/-- **The sibling is right**: a key that `GetPlatformOptions` adds is bound to the number of the
option it is asked for. -/
theorem getPlatformOptions_designates {entries : List (LoadOption × InputKey)}
    (hunassigned : ∀ e ∈ entries, e.1.optionNumber = loadOptionNumberUnassigned)
    (opts : Options) :
    (∀ b ∈ opts.keys, b ∈ (getPlatformOptions lib (some entries) opts).keys) ∧
      ∀ b ∈ (getPlatformOptions lib (some entries) opts).keys, b ∈ opts.keys ∨
        ∃ e ∈ entries, Binds (getPlatformOptions lib (some entries) opts).store b e :=
  foldl_getPlatformOption_keys hlib hkeys hunassigned opts fun _ ho => ho

end Keys

section Library

variable {lib : BootManagerLib} (hlib : lib.Documented)

include hlib

/-! ### Registering a firmware volume option -/

/-- Registering settles an option: the number returned designates it, and registering it
again returns the same number and changes nothing. -/
structure Settles (register : BootStore → UInt16 × BootStore) (option : LoadOption)
    (store : BootStore) : Prop where
  designates : Designates (register store).2 (register store).1 option
  again : register (register store).2 = register store

/-- The number returned designates the option when it is stored as `Boot0000`, or is not
stored yet and can be added. -/
theorem register_designates_iff (image : List DevicePathNode) (fileGuid : BitVec 128)
    (description : List UInt16) (attributes : UInt32) (store : BootStore) :
    Designates
        (platformRegisterFvBootOption lib image fileGuid description attributes store).2
        (platformRegisterFvBootOption lib image fileGuid description attributes store).1
        (fvBootOption image fileGuid description attributes) ↔
      Designates store 0 (fvBootOption image fileGuid description attributes) ∨
      ¬ Present store (fvBootOption image fileGuid description attributes) ∧
        (lib.addLoadOptionVariable
          (fvBootOption image fileGuid description attributes) store).ok = true := by
  by_cases hpresent : Present store (fvBootOption image fileGuid description attributes)
  · rw [register_present hlib hpresent]
    exact ⟨Or.inl, fun h => h.resolve_right fun hn => hn.1 hpresent⟩
  · rw [register_absent hlib hpresent]
    dsimp only
    rw [or_iff_right (mt Designates.present hpresent), and_iff_right hpresent]
    constructor
    · intro hdesignates
      cases hok : (lib.addLoadOptionVariable
          (fvBootOption image fileGuid description attributes) store).ok with
      | true => rfl
      | false =>
          obtain ⟨o, hmem, -, hsame⟩ := hdesignates
          rw [(hlib.add_failed _ _ hok).2] at hmem
          exact absurd ⟨o, hmem, hsame⟩ hpresent
    · exact designates_added hlib rfl

/-- Registering settles an option that is stored as `Boot0000`, or is not stored yet and
is added under that number. -/
theorem register_settles_iff (image : List DevicePathNode) (fileGuid : BitVec 128)
    (description : List UInt16) (attributes : UInt32) (store : BootStore) :
    Settles (platformRegisterFvBootOption lib image fileGuid description attributes)
        (fvBootOption image fileGuid description attributes) store ↔
      Designates store 0 (fvBootOption image fileGuid description attributes) ∨
      ¬ Present store (fvBootOption image fileGuid description attributes) ∧
        (lib.addLoadOptionVariable
          (fvBootOption image fileGuid description attributes) store).ok = true ∧
        (lib.addLoadOptionVariable
          (fvBootOption image fileGuid description attributes) store).option.optionNumber = 0 := by
  have hiff := register_designates_iff hlib image fileGuid description attributes store
  by_cases hpresent : Present store (fvBootOption image fileGuid description attributes)
  · rw [or_iff_left fun hn => hn.1 hpresent] at hiff ⊢
    have hregister := register_present hlib hpresent
    exact ⟨fun h => hiff.mp h.designates,
      fun h => ⟨hiff.mpr h, by rw [hregister]; exact hregister⟩⟩
  · rw [or_iff_right (mt Designates.present hpresent), and_iff_right hpresent] at hiff ⊢
    have hregister := register_absent hlib hpresent
    constructor
    · rintro ⟨hdesignates, hagain⟩
      have hok := hiff.mp hdesignates
      obtain ⟨number, hlt, -, hoption, hstore⟩ := hlib.add_ok _ store rfl hok
      refine ⟨hok, ?_⟩
      have hstored := (designates_added hlib rfl hok).present
      rw [hregister] at hagain
      dsimp only at hagain
      rw [register_present hlib hstored, Prod.mk.injEq] at hagain
      have htoNat := congrArg UInt16.toNat hagain.1
      rw [hoption] at htoNat ⊢
      rw [toNat_number hlt] at htoNat
      exact htoNat.symm
    · rintro ⟨hok, hnumber⟩
      refine ⟨hiff.mpr hok, ?_⟩
      have hstored := (designates_added hlib rfl hok).present
      rw [hregister]
      dsimp only
      rw [register_present hlib hstored, hnumber]
      rfl

/-- **When the number returned settles the option**, and when the hotkey for Simple Init
designates it. -/
theorem platformRegisterFvBootOption_settles_iff (image : List DevicePathNode) :
    (∀ (fileGuid : BitVec 128) (description : List UInt16) (attributes : UInt32)
      (store : BootStore),
      let option := fvBootOption image fileGuid description attributes
      let added := lib.addLoadOptionVariable option store
      Settles (platformRegisterFvBootOption lib image fileGuid description attributes) option
          store ↔
        Designates store 0 option ∨
          ¬ Present store option ∧ added.ok = true ∧ added.option.optionNumber = 0) ∧
    (∀ (simpleInitFileGuid : BitVec 128) (platform : Option (List (LoadOption × InputKey)))
      (opts : Options),
      let option := fvBootOption image simpleInitFileGuid simpleInit loadOptionActive
      let before := beforeSimpleInit lib platform opts
      let run := platformRegisterOptionsAndKeys lib simpleInitFileGuid image platform opts
      Designates run.1.store run.2.optionNumber option ↔
        Designates before 0 option ∨
          ¬ Present before option ∧ (lib.addLoadOptionVariable option before).ok = true) :=
  ⟨fun fileGuid description attributes store =>
      register_settles_iff hlib image fileGuid description attributes store,
    fun simpleInitFileGuid platform opts =>
      register_designates_iff hlib image simpleInitFileGuid simpleInit loadOptionActive
        (beforeSimpleInit lib platform opts)⟩

end Library

/-! ### A library that gives out the least number -/

/-- The numbers in use. -/
def BootStore.numbers (store : BootStore) : List ℕ := store.options.map (·.optionNumber)

/-- The least unused number among the `count` from `n` on. -/
def leastUnused (numbers : List ℕ) : ℕ → ℕ → Option ℕ
  | 0, _ => none
  | count + 1, n => if n ∈ numbers then leastUnused numbers count (n + 1) else some n

/-- The least unused number is unused, and in range. -/
theorem leastUnused_spec {numbers : List ℕ} {count n m : ℕ}
    (h : leastUnused numbers count n = some m) : m < n + count ∧ m ∉ numbers := by
  induction count generalizing n with
  | zero => cases h
  | succ count ih =>
      rw [leastUnused] at h
      split at h
      · obtain ⟨hlt, hnot⟩ := ih h
        exact ⟨by omega, hnot⟩
      · next hn =>
          obtain rfl := Option.some.inj h
          exact ⟨by omega, hn⟩

/-- The number for an option: its own if that is unused, the least unused one if it has
none. -/
def numberFor (option : LoadOption) (store : BootStore) : Option ℕ :=
  if option.optionNumber = loadOptionNumberUnassigned then
    leastUnused store.numbers loadOptionNumberUnassigned 0
  else if option.optionNumber < loadOptionNumberUnassigned ∧
      option.optionNumber ∉ store.numbers then some option.optionNumber
  else none

/-- The number that the library takes is a new one. -/
theorem numberFor_spec {option : LoadOption} {store : BootStore} {n : ℕ}
    (h : numberFor option store = some n) :
    n < loadOptionNumberUnassigned ∧ n ∉ store.numbers := by
  rw [numberFor] at h
  split at h
  · obtain ⟨hlt, hnot⟩ := leastUnused_spec h
    exact ⟨by rwa [Nat.zero_add] at hlt, hnot⟩
  · split at h
    · next hown =>
        obtain rfl := Option.some.inj h
        exact hown
    · cases h

/-- Put an option at the end of the boot order under an unused number. -/
def BootStore.insert (store : BootStore) (option : LoadOption) (n : ℕ)
    (hn : n < loadOptionNumberUnassigned ∧ n ∉ store.numbers) : BootStore where
  options := store.options ++ [{ option with optionNumber := n }]
  inRange o ho := by
    rcases List.mem_append.mp ho with ho | ho
    · exact store.inRange o ho
    · rw [List.mem_singleton.mp ho]
      exact hn.1
  distinct := by
    rw [List.map_append, List.nodup_append]
    refine ⟨store.distinct, List.nodup_singleton _, ?_⟩
    rintro a ha b hb rfl
    rw [List.mem_singleton.mp hb] at ha
    exact hn.2 ha

/-- A boot manager library that finds the first equal option, gives out the least unused
number, and adds a key that no key option uses. -/
def leastNumberLib : BootManagerLib where
  findLoadOption key options := options.findIdx? fun o => decide (o.Same key)
  addLoadOptionVariable option store :=
    match h : numberFor option store with
    | some n => ⟨true, { option with optionNumber := n }, store.insert option n (numberFor_spec h)⟩
    | none => ⟨false, option, store⟩
  addKeyOptionVariable binding opts :=
    if ∃ b ∈ opts.keys, b.key = binding.key then (.alreadyStarted, opts.keys)
    else (.success, opts.keys ++ [binding])
  getBootManagerMenu store := store

/-- How it adds an option. -/
theorem leastNumberLib_add (option : LoadOption) (store : BootStore) :
    (∃ n, ∃ h : n < loadOptionNumberUnassigned ∧ n ∉ store.numbers,
      leastNumberLib.addLoadOptionVariable option store =
        ⟨true, { option with optionNumber := n }, store.insert option n h⟩) ∨
    leastNumberLib.addLoadOptionVariable option store = ⟨false, option, store⟩ := by
  simp only [leastNumberLib]
  split
  · next n hn => exact Or.inl ⟨n, numberFor_spec hn, rfl⟩
  · exact Or.inr rfl

/-- The library that takes the least number behaves as documented. -/
theorem leastNumberLib_documented : leastNumberLib.Documented where
  find_some key options i h := by
    obtain ⟨hlt, hsame, -⟩ := List.findIdx?_eq_some_iff_getElem.mp h
    exact ⟨options[i], List.getElem?_eq_getElem hlt, of_decide_eq_true hsame⟩
  find_none key options h o hmem := by
    have hnot := List.findIdx?_eq_none_iff.mp h o hmem
    exact of_decide_eq_false hnot
  add_ok option store _ hok := by
    rcases leastNumberLib_add option store with ⟨n, hn, hadd⟩ | hadd
    · rw [hadd]
      refine ⟨n, hn.1, fun o ho he => hn.2 (he ▸ List.mem_map_of_mem ho), rfl, fun o => ?_⟩
      simp only [BootStore.insert, List.mem_append, List.mem_singleton]
    · rw [hadd] at hok
      cases hok
  add_failed option store hok := by
    rcases leastNumberLib_add option store with ⟨n, hn, hadd⟩ | hadd
    · rw [hadd] at hok
      cases hok
    · rw [hadd]
      exact ⟨rfl, rfl⟩

/-- How it adds a key. -/
theorem leastNumberLib_addKey (binding : KeyBinding) (opts : Options) :
    (∃ b ∈ opts.keys, b.key = binding.key) ∧
        leastNumberLib.addKeyOptionVariable binding opts = (.alreadyStarted, opts.keys) ∨
      leastNumberLib.addKeyOptionVariable binding opts =
        (.success, opts.keys ++ [binding]) := by
  by_cases hused : ∃ b ∈ opts.keys, b.key = binding.key
  · exact Or.inl ⟨hused, if_pos hused⟩
  · exact Or.inr (if_neg hused)

/-- It adds keys as documented, too. -/
theorem leastNumberLib_keysDocumented : leastNumberLib.KeysDocumented where
  success binding opts h b := by
    rcases leastNumberLib_addKey binding opts with ⟨-, hadd⟩ | hadd
    · rw [hadd] at h
      cases h
    · rw [hadd, List.mem_append, List.mem_singleton]
  alreadyStarted binding opts h := by
    rcases leastNumberLib_addKey binding opts with ⟨hused, hadd⟩ | hadd
    · exact ⟨hused, by rw [hadd]⟩
    · rw [hadd] at h
      cases h
  failed binding opts h := by
    rcases leastNumberLib_addKey binding opts with ⟨-, hadd⟩ | hadd
    · rw [hadd] at h
      cases h
    · rw [hadd] at h
      cases h

/-! ### Simple Init among the variables already -/

/-- The firmware volume. -/
def firmwareVolume : List DevicePathNode := [.other 4 7 [0x10]]

/-- The boot manager menu, as `Boot0000`, and Simple Init, as `Boot0001`. -/
def menuFirst : BootStore where
  options :=
    [{ fvBootOption firmwareVolume 0x21 [85, 105] 1 with optionNumber := 0 },
     { fvBootOption firmwareVolume 0x42 simpleInit loadOptionActive with optionNumber := 1 }]
  inRange := by decide
  distinct := by decide

/-- Nothing but the boot manager menu. -/
def menuOnly : BootStore where
  options := [{ fvBootOption firmwareVolume 0x21 [85, 105] 1 with optionNumber := 0 }]
  inRange := by decide
  distinct := by decide

/-- Where the first call has stored Simple Init behind the boot manager menu, the next one returns
the number of the menu. -/
theorem menuFirst_misses :
    (platformRegisterFvBootOption leastNumberLib firmwareVolume 0x42 simpleInit
      loadOptionActive menuOnly).1 = 1 ∧
    (platformRegisterFvBootOption leastNumberLib firmwareVolume 0x42 simpleInit
      loadOptionActive menuOnly).2.options = menuFirst.options ∧
    (platformRegisterFvBootOption leastNumberLib firmwareVolume 0x42 simpleInit
      loadOptionActive menuFirst).1 = 0 ∧
    ¬ Settles (platformRegisterFvBootOption leastNumberLib firmwareVolume 0x42 simpleInit
      loadOptionActive) (fvBootOption firmwareVolume 0x42 simpleInit loadOptionActive)
      menuFirst := by
  refine ⟨rfl, rfl, rfl, ?_⟩
  rintro ⟨⟨o, hmem, hnumber, hsame⟩, -⟩
  have hmem' : o ∈ menuFirst.options := hmem
  have hnumber' : o.optionNumber = 0 := hnumber
  have hno : ∀ o ∈ menuFirst.options, o.optionNumber = 0 →
      ¬ o.Same (fvBootOption firmwareVolume 0x42 simpleInit loadOptionActive) := by decide
  exact hno o hmem' hnumber' hsame

/-- The condition at the next call. -/
theorem menuFirst_settles_iff :
    leastNumberLib.Documented ∧
    (Settles (platformRegisterFvBootOption leastNumberLib firmwareVolume 0x42 simpleInit
        loadOptionActive) (fvBootOption firmwareVolume 0x42 simpleInit loadOptionActive)
        menuFirst ↔
      Designates menuFirst 0 (fvBootOption firmwareVolume 0x42 simpleInit loadOptionActive) ∨
        ¬ Present menuFirst (fvBootOption firmwareVolume 0x42 simpleInit loadOptionActive) ∧
          (leastNumberLib.addLoadOptionVariable
            (fvBootOption firmwareVolume 0x42 simpleInit loadOptionActive)
            menuFirst).ok = true ∧
          (leastNumberLib.addLoadOptionVariable
            (fvBootOption firmwareVolume 0x42 simpleInit loadOptionActive)
            menuFirst).option.optionNumber = 0) :=
  ⟨leastNumberLib_documented,
    (platformRegisterFvBootOption_settles_iff leastNumberLib_documented firmwareVolume).1
      0x42 simpleInit loadOptionActive menuFirst⟩

end Boot

end Msm8998
