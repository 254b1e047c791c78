import Msm8998.FdtParse

/-!
# Walks over the Token Stream

Both parsers read the same tokens from the same places and differ only in what they do with
each. A walk is the sequence of tokens from an offset up to `FDT_END`; a parser that follows
it folds its own handler over the tokens. Whether that succeeds, and with which properties,
is then a matter of the tokens alone.

## Main results

* `whileTrue_of_walk` / `walk_of_whileTrue`: a loop that reads tokens and handles them
  returns exactly when there is a walk its handler accepts.
* `inspectParse_ok_iff`, `compareParse_ok_iff`: when each parser succeeds, and with what.
* `inspectParse_ne_outOfFuel`, `compareParse_ne_outOfFuel`: the loops end on every file.
-/

open Fallible OrderedDict

namespace Msm8998

namespace Fdt

/-! ### Tokens -/

/-- A token with what belongs to it; an unknown one is known by its word and place. -/
inductive Token
  | beginNode (name : Str)
  | endNode
  | prop (name : Str) (value : Bytes)
  | nop
  | unknown (word offset : ℕ)
deriving Repr, DecidableEq

/-- Whether a token has no meaning. -/
def Token.isUnknown : Token → Bool
  | .unknown _ _ => true
  | _ => false

/-- Whether a token opens a node. -/
def Token.isBegin : Token → Bool
  | .beginNode _ => true
  | _ => false

/-- Read one token and the place of the next; `none` at `FDT_END`. -/
def readToken (data strtab : Bytes) (pos : ℕ) : Except PyError (Option (Token × ℕ)) := do
  let token ← wordAt data pos
  if token = fdtBeginNode then
    let (name, next) ← readName data (pos + 4)
    return some (.beginNode name, next)
  else if token = fdtEndNode then return some (.endNode, pos + 4)
  else if token = fdtProp then
    let (name, value, next) ← readProp data strtab (pos + 4)
    return some (.prop name value, next)
  else if token = fdtNop then return some (.nop, pos + 4)
  else if token = fdtEnd then return none
  else return some (.unknown token pos, pos + 4)

/-- The tokens from `pos` up to `FDT_END`. -/
inductive Walk (data strtab : Bytes) : ℕ → List Token → Prop
  | stop {pos : ℕ} (h : readToken data strtab pos = .ok none) : Walk data strtab pos []
  | step {pos next : ℕ} {t : Token} {toks : List Token}
      (h : readToken data strtab pos = .ok (some (t, next)))
      (rest : Walk data strtab next toks) : Walk data strtab pos (t :: toks)

/-- There is one walk from an offset. -/
theorem Walk.unique {data strtab : Bytes} {pos : ℕ} {toks toks' : List Token}
    (h : Walk data strtab pos toks) (h' : Walk data strtab pos toks') : toks = toks' := by
  induction h generalizing toks' with
  | stop hread =>
      cases h' with
      | stop _ => rfl
      | step hread' _ =>
          rw [hread] at hread'
          cases hread'
  | step hread _ ih =>
      cases h' with
      | stop hread' =>
          rw [hread] at hread'
          cases hread'
      | step hread' rest' =>
          rw [hread] at hread'
          cases hread'
          rw [ih rest']

/-- A word that was read lies in the data. -/
theorem wordAt_ok_le {data : Bytes} {pos word : ℕ} (h : wordAt data pos = .ok word) :
    pos + 4 ≤ data.length := by
  rw [wordAt] at h
  split at h
  · next a b c d rest heq =>
      have hlen := congrArg List.length heq
      simp only [List.length_drop, List.length_cons] at hlen
      omega
  · cases h

/-- Rounding up to a word does not go back. -/
theorem le_clearLow (n : ℕ) : n ≤ clearLow (n + 3) := by
  rw [clearLow]
  omega

/-- The end of a string is not in front of its start. -/
theorem indexNul_le {data : Bytes} {pos stop : ℕ} (h : indexNul data pos = .ok stop) :
    pos ≤ stop := by
  rw [indexNul] at h
  split at h
  · cases h
    exact Nat.le_add_right _ _
  · cases h

/-- Reading a name does not go back. -/
theorem readName_le {data : Bytes} {pos next : ℕ} {name : Str}
    (h : readName data pos = .ok (name, next)) : pos ≤ next := by
  obtain ⟨stop, hstop, h⟩ := bind_eq_ok.mp h
  cases h
  calc pos ≤ stop := indexNul_le hstop
    _ ≤ stop + 1 := Nat.le_succ stop
    _ ≤ clearLow (stop + 4) := le_clearLow (stop + 1)

/-- Reading a property does not go back. -/
theorem readProp_le {data strtab : Bytes} {pos next : ℕ} {name : Str} {value : Bytes}
    (h : readProp data strtab pos = .ok (name, value, next)) : pos ≤ next := by
  obtain ⟨length, -, h⟩ := bind_eq_ok.mp h
  obtain ⟨nameoff, -, h⟩ := bind_eq_ok.mp h
  obtain ⟨stop, -, h⟩ := bind_eq_ok.mp h
  obtain ⟨name', -, h⟩ := bind_eq_ok.mp h
  cases h
  calc pos ≤ pos + 8 + length := by omega
    _ ≤ clearLow (pos + 8 + length + 3) := le_clearLow _

/-- A token takes up four bytes at least. -/
theorem readToken_le {data strtab : Bytes} {pos next : ℕ} {t : Token}
    (h : readToken data strtab pos = .ok (some (t, next))) : pos + 4 ≤ next := by
  obtain ⟨token, -, h⟩ := bind_eq_ok.mp h
  split at h
  · obtain ⟨⟨name, next'⟩, hname, h⟩ := bind_eq_ok.mp h
    cases h
    exact readName_le hname
  split at h
  · cases h
    exact Nat.le_refl _
  split at h
  · obtain ⟨⟨name, value, next'⟩, hprop, h⟩ := bind_eq_ok.mp h
    cases h
    exact readProp_le hprop
  split at h
  · cases h
    exact Nat.le_refl _
  split at h
  · cases h
  · cases h
    exact Nat.le_refl _

/-- Every token is read inside the file. -/
theorem readToken_inside {data strtab : Bytes} {pos : ℕ} {r : Option (Token × ℕ)}
    (h : readToken data strtab pos = .ok r) : pos + 4 ≤ data.length := by
  obtain ⟨token, htoken, -⟩ := bind_eq_ok.mp h
  exact wordAt_ok_le htoken

/-- A walk fits into the file. -/
theorem Walk.length_le {data strtab : Bytes} {pos : ℕ} {toks : List Token}
    (h : Walk data strtab pos toks) : pos + 4 * toks.length + 4 ≤ data.length := by
  induction h with
  | stop hread => exact readToken_inside hread
  | step hread _ ih =>
      have hle := readToken_le hread
      rw [List.length_cons]
      omega

/-! ### Loops that follow a walk -/

section Loop

variable {σ μ : Type} {data strtab : Bytes} {pos : σ → ℕ} {view : σ → μ} {mk : ℕ → μ → σ}
  {handle : μ → Token → Except PyError μ} {step : σ → Except PyError (Step σ)}

/-- A loop body that reads one token at its position and handles it; all but the position
is `view`. -/
structure Follows (data strtab : Bytes) (pos : σ → ℕ) (view : σ → μ) (mk : ℕ → μ → σ)
    (handle : μ → Token → Except PyError μ) (step : σ → Except PyError (Step σ)) : Prop where
  pos_mk : ∀ p m, pos (mk p m) = p
  view_mk : ∀ p m, view (mk p m) = m
  step_eq : ∀ s, step s = do
    match ← readToken data strtab (pos s) with
    | none => return .stop (mk (pos s + 4) (view s))
    | some (t, next) =>
        let m ← handle (view s) t
        return .next (mk next m)

/-- A walk the handler accepts makes the loop return. -/
theorem whileTrue_of_walk (hf : Follows data strtab pos view mk handle step) {s : σ}
    {toks : List Token} {m : μ} (h : Walk data strtab (pos s) toks)
    (hm : toks.foldlM handle (view s) = .ok m) {fuel : ℕ} (hfuel : toks.length < fuel) :
    ∃ p, whileTrue step fuel s = .ok (mk p m) := by
  induction toks generalizing s fuel with
  | nil =>
      obtain ⟨fuel, rfl⟩ := Nat.exists_eq_add_of_lt hfuel
      cases h with
      | stop hread =>
          cases hm
          refine ⟨pos s + 4, ?_⟩
          simp only [whileTrue, hf.step_eq, hread]
          rfl
  | cons t toks ih =>
      obtain ⟨fuel, rfl⟩ : ∃ n, fuel = n + 1 := Nat.exists_eq_succ_of_ne_zero (by omega)
      rw [List.foldlM_cons] at hm
      obtain ⟨m', hm', hm⟩ := bind_eq_ok.mp hm
      cases h with
      | @step _ next _ _ hread rest =>
          have hstep : step s = .ok (.next (mk next m')) := by
            rw [hf.step_eq, hread]
            simp only [bind, Except.bind, hm']
            rfl
          have hpos := hf.pos_mk next m'
          have hview := hf.view_mk next m'
          rw [List.length_cons] at hfuel
          simp only [whileTrue, hstep]
          exact ih (hpos.symm ▸ rest) (hview.symm ▸ hm) (Nat.lt_of_succ_lt_succ hfuel)

/-- A loop that returns has followed a walk its handler accepts. -/
theorem walk_of_whileTrue (hf : Follows data strtab pos view mk handle step) {s s' : σ}
    {fuel : ℕ} (h : whileTrue step fuel s = .ok s') :
    ∃ toks p m, Walk data strtab (pos s) toks ∧ toks.foldlM handle (view s) = .ok m ∧
      s' = mk p m := by
  induction fuel generalizing s with
  | zero => cases h
  | succ fuel ih =>
      rw [whileTrue] at h
      cases hread : readToken data strtab (pos s) with
      | error e =>
          have hstep : step s = .error e := by
            rw [hf.step_eq, hread]
            rfl
          rw [hstep] at h
          cases h
      | ok r =>
          cases r with
          | none =>
              have hstep : step s = .ok (.stop (mk (pos s + 4) (view s))) := by
                rw [hf.step_eq, hread]
                rfl
              rw [hstep] at h
              cases h
              exact ⟨[], _, _, .stop hread, rfl, rfl⟩
          | some r =>
              obtain ⟨t, next⟩ := r
              cases hm : handle (view s) t with
              | error e =>
                  have hstep : step s = .error e := by
                    rw [hf.step_eq, hread]
                    simp only [bind, Except.bind, hm]
                  rw [hstep] at h
                  cases h
              | ok m =>
                  have hstep : step s = .ok (.next (mk next m)) := by
                    rw [hf.step_eq, hread]
                    simp only [bind, Except.bind, hm]
                    rfl
                  rw [hstep] at h
                  obtain ⟨toks, p, m', hwalk, hfold, rfl⟩ := ih h
                  rw [hf.pos_mk] at hwalk
                  rw [hf.view_mk] at hfold
                  refine ⟨t :: toks, p, m', .step hread hwalk, ?_, rfl⟩
                  rw [List.foldlM_cons, hm]
                  exact hfold

/-- A run that does not end for want of fuel. -/
def Fueled {α : Type} (x : Except PyError α) : Prop := Ends (· ≠ .outOfFuel) (fun _ => True) x

/-- Two readers one after the other. -/
theorem Fueled.bind {α β : Type} {x : Except PyError α} {f : α → Except PyError β}
    (hx : Fueled x) (hf : ∀ a, Fueled (f a)) : Fueled (x >>= f) :=
  Ends.bind hx fun a _ => hf a

/-- A value is no lack of fuel. -/
theorem Fueled.ok {α : Type} (a : α) : Fueled (.ok a) := trivial

/-- What is fueled does not end for lack of it. -/
theorem Fueled.ne_outOfFuel {α : Type} {x : Except PyError α} (h : Fueled x) :
    x ≠ .error .outOfFuel := by
  rintro rfl
  exact h rfl

/-- Reading a word needs no fuel. -/
theorem wordAt_fueled (data : Bytes) (pos : ℕ) : Fueled (wordAt data pos) := by
  rw [wordAt]
  split
  · exact .ok _
  · exact nofun

/-- The search for the end of a string has enough. -/
theorem indexNul_fueled (data : Bytes) (start : ℕ) : Fueled (indexNul data start) := by
  rw [indexNul]
  split
  · exact .ok _
  · exact nofun

/-- Decoding needs none. -/
theorem decode_fueled (bs : Bytes) : Fueled (decode bs) := by
  rw [decode]
  split
  · exact .ok _
  · exact nofun

/-- Reading a property needs none. -/
theorem readProp_fueled (data strtab : Bytes) (pos : ℕ) : Fueled (readProp data strtab pos) :=
  (wordAt_fueled _ _).bind fun _ => (wordAt_fueled _ _).bind fun _ =>
    (indexNul_fueled _ _).bind fun _ => (decode_fueled _).bind fun _ => .ok _

/-- Reading a token fails for other reasons only. -/
theorem readToken_fueled (data strtab : Bytes) (pos : ℕ) : Fueled (readToken data strtab pos) := by
  refine (wordAt_fueled data pos).bind fun token => ?_
  split
  · exact ((indexNul_fueled _ _).bind fun _ => .ok _).bind fun _ => .ok _
  split
  · exact .ok _
  split
  · exact (readProp_fueled _ _ _).bind fun _ => .ok _
  split
  · exact .ok _
  split
  · exact .ok _
  · exact .ok _

/-- Nor does reading the header. -/
theorem readHeader_fueled (data : Bytes) : Fueled (readHeader data) := by
  refine Fueled.bind ?_ fun header => ?_
  · iterate 10 refine (wordAt_fueled _ _).bind fun _ => ?_
    exact .ok _
  · split
    · exact nofun
    · exact .ok _

/-- **The loop ends.** Every pass reads a token inside the file and goes on behind it, so that a
pass for every four bytes is enough. -/
theorem whileTrue_fueled (hf : Follows data strtab pos view mk handle step)
    (hhandle : ∀ m t, Fueled (handle m t)) {s : σ} {fuel : ℕ}
    (hfuel : data.length < pos s + 4 * (fuel + 1)) : Fueled (whileTrue step (fuel + 1) s) := by
  induction fuel generalizing s with
  | zero =>
      rw [whileTrue, hf.step_eq]
      have htoken := readToken_fueled data strtab (pos s)
      cases hread : readToken data strtab (pos s) with
      | error e =>
          rw [hread] at htoken
          exact htoken
      | ok r =>
          -- the last pass stands too near to the end of the file to read a token
          have hinside := readToken_inside hread
          omega
  | succ fuel ih =>
      rw [whileTrue, hf.step_eq]
      have htoken := readToken_fueled data strtab (pos s)
      cases hread : readToken data strtab (pos s) with
      | error e =>
          rw [hread] at htoken
          exact htoken
      | ok r =>
          cases r with
          | none => exact .ok _
          | some r =>
              obtain ⟨t, next⟩ := r
              have hhandled := hhandle (view s) t
              cases hm : handle (view s) t with
              | error e =>
                  simp only [bind, Except.bind, hm]
                  rw [hm] at hhandled
                  exact hhandled
              | ok m =>
                  simp only [bind, Except.bind, hm]
                  refine ih ?_
                  have hnext := readToken_le hread
                  rw [hf.pos_mk]
                  omega

end Loop

/-! ### What the two parsers do with a token -/

/-- The stack, the properties and the node count of `inspect-dtb.py`. -/
abbrev InspectView := List Str × Dict Str (List (Str × Bytes)) × ℕ

/-- `inspect-dtb.py` handles one token. -/
def inspectHandle (m : InspectView) : Token → Except PyError InspectView
  | .beginNode name => .ok (m.1 ++ [name], m.2.1, m.2.2 + 1)
  | .endNode => if m.1 = [] then .error .indexError else .ok (m.1.dropLast, m.2)
  | .prop name value => .ok (m.1, m.2.1.push (nodePath m.1) (name, value), m.2.2)
  | .nop => .ok m
  | .unknown word offset => .error (.badToken word offset)

/-- The stack and the properties of `compare-dtb.py`. -/
abbrev CompareView := List Str × Dict Str Bytes

/-- `compare-dtb.py` handles one token. -/
def compareHandle (m : CompareView) : Token → Except PyError CompareView
  | .beginNode name => .ok (m.1 ++ [name], m.2)
  | .endNode => if m.1 = [] then .error .indexError else .ok (m.1.dropLast, m.2)
  | .prop name value => .ok (m.1, m.2.set (joinKey (nodePath m.1) name) value)
  | .nop => .ok m
  | .unknown _ _ => .ok m

/-- The loop of the inspection reads the tokens one by one. -/
theorem inspectStep_follows (data strtab : Bytes) :
    Follows data strtab Inspect.pos (fun s => (s.stack, s.props, s.nodeCount))
      (fun p m => ⟨p, m.1, m.2.1, m.2.2⟩) inspectHandle (inspectStep data strtab) where
  pos_mk _ _ := rfl
  view_mk _ _ := rfl
  step_eq s := by
    rw [inspectStep, readToken]
    simp only [bind, Except.bind, pure, Except.pure, throw, throwThe, MonadExceptOf.throw]
    cases wordAt data s.pos with
    | error e => rfl
    | ok token =>
        dsimp only
        split
        · cases readName data (s.pos + 4) <;> rfl
        split
        · by_cases hs : s.stack = [] <;> simp [hs, inspectHandle]
        split
        · cases readProp data strtab (s.pos + 4) <;> rfl
        split
        · rfl
        split
        · rfl
        · simp [inspectHandle]

/-- So does that of the comparison. -/
theorem compareStep_follows (data strtab : Bytes) :
    Follows data strtab Compare.pos (fun s => (s.stack, s.props))
      (fun p m => ⟨p, m.1, m.2⟩) compareHandle (compareStep data strtab) where
  pos_mk _ _ := rfl
  view_mk _ _ := rfl
  step_eq s := by
    rw [compareStep, readToken]
    simp only [bind, Except.bind, pure, Except.pure, throw, throwThe, MonadExceptOf.throw]
    cases wordAt data s.pos with
    | error e => rfl
    | ok token =>
        dsimp only
        split
        · cases readName data (s.pos + 4) <;> rfl
        split
        · by_cases hs : s.stack = [] <;> simp [hs, compareHandle]
        split
        · cases readProp data strtab (s.pos + 4) <;> rfl
        split
        · rfl
        split
        · rfl
        · rfl

/-! ### The properties of a walk -/

/-- A property with the path of the node it was read in. -/
structure Record where
  node : Str
  name : Str
  value : Bytes
deriving Repr, DecidableEq

/-- The key of `compare-dtb.py`. -/
def Record.key (r : Record) : Str := joinKey r.node r.name

/-- The properties of a token sequence in reading order; `none` when it closes a node that
is not open. -/
def records : List Str → List Token → Option (List Record)
  | _, [] => some []
  | stack, .beginNode name :: toks => records (stack ++ [name]) toks
  | stack, .endNode :: toks => if stack = [] then none else records stack.dropLast toks
  | stack, .prop name value :: toks =>
      (records stack toks).map (⟨nodePath stack, name, value⟩ :: ·)
  | stack, .nop :: toks => records stack toks
  | stack, .unknown _ _ :: toks => records stack toks

/-- What `inspect-dtb.py` binds for a property. -/
def Record.grouped (r : Record) : Str × (Str × Bytes) := (r.node, (r.name, r.value))

/-- What `compare-dtb.py` binds for a property. -/
def Record.keyed (r : Record) : Str × Bytes := (r.key, r.value)

/-- `inspect-dtb.py` accepts the tokens of balanced nodes without unknown ones. -/
theorem inspect_foldlM (toks : List Token) (m : InspectView) (rs : List Record)
    (hknown : ∀ t ∈ toks, t.isUnknown = false) (hrs : records m.1 toks = some rs) :
    ∃ stack, toks.foldlM inspectHandle m =
      .ok (stack, groupAll m.2.1 (rs.map Record.grouped), m.2.2 + toks.countP Token.isBegin) := by
  induction toks generalizing m rs with
  | nil =>
      cases hrs
      exact ⟨m.1, rfl⟩
  | cons t toks ih =>
      obtain ⟨ht, hrest⟩ := List.forall_mem_cons.mp hknown
      rw [List.foldlM_cons]
      cases t with
      | beginNode name =>
          obtain ⟨stack, hfold⟩ := ih (m.1 ++ [name], m.2.1, m.2.2 + 1) rs hrest hrs
          refine ⟨stack, hfold.trans ?_⟩
          rw [List.countP_cons_of_pos rfl, Nat.add_assoc, Nat.add_comm 1]
      | endNode =>
          simp only [records] at hrs
          split at hrs
          · cases hrs
          · next hstack =>
              obtain ⟨stack, hfold⟩ := ih (m.1.dropLast, m.2) rs hrest hrs
              refine ⟨stack, ?_⟩
              simp only [inspectHandle, if_neg hstack, bind, Except.bind, hfold]
              rw [List.countP_cons_of_neg Bool.false_ne_true]
      | prop name value =>
          simp only [records, Option.map_eq_some_iff] at hrs
          obtain ⟨rs', hrs', rfl⟩ := hrs
          obtain ⟨stack, hfold⟩ :=
            ih (m.1, m.2.1.push (nodePath m.1) (name, value), m.2.2) rs' hrest hrs'
          refine ⟨stack, hfold.trans ?_⟩
          rw [List.countP_cons_of_neg Bool.false_ne_true]
          rfl
      | nop =>
          obtain ⟨stack, hfold⟩ := ih m rs hrest hrs
          refine ⟨stack, hfold.trans ?_⟩
          rw [List.countP_cons_of_neg Bool.false_ne_true]
      | unknown word offset => cases ht

/-- It accepts no others. -/
theorem inspect_foldlM_ok {toks : List Token} {m m' : InspectView}
    (h : toks.foldlM inspectHandle m = .ok m') :
    (∀ t ∈ toks, t.isUnknown = false) ∧ ∃ rs, records m.1 toks = some rs := by
  induction toks generalizing m with
  | nil => exact ⟨List.forall_mem_nil _, [], rfl⟩
  | cons t toks ih =>
      rw [List.foldlM_cons] at h
      obtain ⟨m₁, hm₁, h⟩ := bind_eq_ok.mp h
      obtain ⟨hknown, rs, hrs⟩ := ih h
      cases t with
      | beginNode name =>
          cases hm₁
          exact ⟨List.forall_mem_cons.mpr ⟨rfl, hknown⟩, rs, hrs⟩
      | endNode =>
          simp only [inspectHandle] at hm₁
          split at hm₁
          · cases hm₁
          · next hstack =>
              cases hm₁
              refine ⟨List.forall_mem_cons.mpr ⟨rfl, hknown⟩, rs, ?_⟩
              rw [records, if_neg hstack]
              exact hrs
      | prop name value =>
          cases hm₁
          refine ⟨List.forall_mem_cons.mpr ⟨rfl, hknown⟩, ⟨nodePath m.1, name, value⟩ :: rs, ?_⟩
          rw [records]
          exact congrArg (Option.map _) hrs
      | nop =>
          cases hm₁
          exact ⟨List.forall_mem_cons.mpr ⟨rfl, hknown⟩, rs, hrs⟩
      | unknown word offset => cases hm₁

/-- `compare-dtb.py` accepts the tokens of balanced nodes, unknown ones among them. -/
theorem compare_foldlM (toks : List Token) (m : CompareView) (rs : List Record)
    (hrs : records m.1 toks = some rs) :
    ∃ stack, toks.foldlM compareHandle m = .ok (stack, setAll m.2 (rs.map Record.keyed)) := by
  induction toks generalizing m rs with
  | nil =>
      cases hrs
      exact ⟨m.1, rfl⟩
  | cons t toks ih =>
      rw [List.foldlM_cons]
      cases t with
      | beginNode name => exact ih (m.1 ++ [name], m.2) rs hrs
      | endNode =>
          simp only [records] at hrs
          split at hrs
          · cases hrs
          · next hstack =>
              obtain ⟨stack, hfold⟩ := ih (m.1.dropLast, m.2) rs hrs
              refine ⟨stack, ?_⟩
              simp only [compareHandle, if_neg hstack, bind, Except.bind, hfold]
      | prop name value =>
          simp only [records, Option.map_eq_some_iff] at hrs
          obtain ⟨rs', hrs', rfl⟩ := hrs
          exact ih (m.1, m.2.set (joinKey (nodePath m.1) name) value) rs' hrs'
      | nop => exact ih m rs hrs
      | unknown word offset => exact ih m rs hrs

/-- It accepts no others. -/
theorem compare_foldlM_ok {toks : List Token} {m m' : CompareView}
    (h : toks.foldlM compareHandle m = .ok m') : ∃ rs, records m.1 toks = some rs := by
  induction toks generalizing m with
  | nil => exact ⟨[], rfl⟩
  | cons t toks ih =>
      rw [List.foldlM_cons] at h
      obtain ⟨m₁, hm₁, h⟩ := bind_eq_ok.mp h
      obtain ⟨rs, hrs⟩ := ih h
      cases t with
      | beginNode name =>
          cases hm₁
          exact ⟨rs, hrs⟩
      | endNode =>
          simp only [compareHandle] at hm₁
          split at hm₁
          · cases hm₁
          · next hstack =>
              cases hm₁
              refine ⟨rs, ?_⟩
              rw [records, if_neg hstack]
              exact hrs
      | prop name value =>
          cases hm₁
          refine ⟨⟨nodePath m.1, name, value⟩ :: rs, ?_⟩
          rw [records]
          exact congrArg (Option.map _) hrs
      | nop =>
          cases hm₁
          exact ⟨rs, hrs⟩
      | unknown word offset =>
          cases hm₁
          exact ⟨rs, hrs⟩

/-! ### The two parsers -/

/-- The file has a header, a walk from the structure block, and balanced nodes on it. -/
structure Reads (data : Bytes) (header : Header) (toks : List Token) (rs : List Record) :
    Prop where
  header_eq : readHeader data = .ok header
  walk : Walk data (header.strtab data) header.offStruct toks
  records_eq : records [] toks = some rs

/-- **When `inspect-dtb.py` succeeds**, and with what. -/
theorem inspectParse_ok_iff (data : Bytes) (r : InspectResult) :
    inspectParse data = .ok r ↔ ∃ header toks rs, Reads data header toks rs ∧
      (∀ t ∈ toks, t.isUnknown = false) ∧
      r = ⟨data, groupAll Dict.empty (rs.map Record.grouped), header.offRsvmap,
        toks.countP Token.isBegin⟩ := by
  constructor
  · intro h
    obtain ⟨header, hheader, h⟩ := bind_eq_ok.mp h
    obtain ⟨s, hs, h⟩ := bind_eq_ok.mp h
    obtain ⟨toks, p, m, hwalk, hfold, rfl⟩ := walk_of_whileTrue (inspectStep_follows _ _) hs
    obtain ⟨hknown, rs, hrs⟩ := inspect_foldlM_ok hfold
    obtain ⟨stack, hfold'⟩ := inspect_foldlM toks _ rs hknown hrs
    rw [hfold'] at hfold
    cases hfold
    cases h
    refine ⟨header, toks, rs, ⟨hheader, hwalk, hrs⟩, hknown, ?_⟩
    rw [Nat.zero_add]
  · rintro ⟨header, toks, rs, hreads, hknown, rfl⟩
    obtain ⟨stack, hfold⟩ := inspect_foldlM toks ([], Dict.empty, 0) rs hknown hreads.records_eq
    have hfuel : toks.length < data.length + 1 := by
      have hle := hreads.walk.length_le
      omega
    obtain ⟨p, hp⟩ := whileTrue_of_walk (inspectStep_follows data (header.strtab data))
      (s := ⟨header.offStruct, [], Dict.empty, 0⟩) hreads.walk hfold hfuel
    rw [inspectParse]
    rw [hreads.header_eq]
    simp only [bind, Except.bind, hp, pure, Except.pure, Nat.zero_add]

/-- **When `compare-dtb.py` succeeds**, and with what. -/
theorem compareParse_ok_iff (data : Bytes) (r : CompareResult) :
    compareParse data = .ok r ↔ ∃ header toks rs, Reads data header toks rs ∧
      r = ⟨data, setAll Dict.empty (rs.map Record.keyed)⟩ := by
  constructor
  · intro h
    obtain ⟨header, hheader, h⟩ := bind_eq_ok.mp h
    obtain ⟨s, hs, h⟩ := bind_eq_ok.mp h
    obtain ⟨toks, p, m, hwalk, hfold, rfl⟩ := walk_of_whileTrue (compareStep_follows _ _) hs
    obtain ⟨rs, hrs⟩ := compare_foldlM_ok hfold
    obtain ⟨stack, hfold'⟩ := compare_foldlM toks _ rs hrs
    rw [hfold'] at hfold
    cases hfold
    cases h
    exact ⟨header, toks, rs, ⟨hheader, hwalk, hrs⟩, rfl⟩
  · rintro ⟨header, toks, rs, hreads, rfl⟩
    obtain ⟨stack, hfold⟩ := compare_foldlM toks ([], Dict.empty) rs hreads.records_eq
    have hfuel : toks.length < data.length + 1 := by
      have hle := hreads.walk.length_le
      omega
    obtain ⟨p, hp⟩ := whileTrue_of_walk (compareStep_follows data (header.strtab data))
      (s := ⟨header.offStruct, [], Dict.empty⟩) hreads.walk hfold hfuel
    rw [compareParse]
    rw [hreads.header_eq]
    simp only [bind, Except.bind, hp, pure, Except.pure]

/-- The inspection handles a token without fuel. -/
theorem inspectHandle_fueled (m : InspectView) (t : Token) : Fueled (inspectHandle m t) := by
  cases t with
  | endNode =>
      rw [inspectHandle]
      split
      · exact nofun
      · exact .ok _
  | unknown word offset => exact nofun
  | beginNode | prop | nop => exact .ok _

/-- So does the comparison. -/
theorem compareHandle_fueled (m : CompareView) (t : Token) : Fueled (compareHandle m t) := by
  cases t with
  | endNode =>
      rw [compareHandle]
      split
      · exact nofun
      · exact .ok _
  | beginNode | prop | nop | unknown => exact .ok _

/-- The fuel of `inspect-dtb.py` is enough for every file. -/
theorem inspectParse_ne_outOfFuel (data : Bytes) : inspectParse data ≠ .error .outOfFuel := by
  refine ((readHeader_fueled data).bind fun header => ?_).ne_outOfFuel
  exact (whileTrue_fueled (inspectStep_follows data (header.strtab data)) inspectHandle_fueled
    (by omega)).bind fun _ => .ok _

/-- And that of `compare-dtb.py`. -/
theorem compareParse_ne_outOfFuel (data : Bytes) : compareParse data ≠ .error .outOfFuel := by
  refine ((readHeader_fueled data).bind fun header => ?_).ne_outOfFuel
  exact (whileTrue_fueled (compareStep_follows data (header.strtab data)) compareHandle_fueled
    (by omega)).bind fun _ => .ok _

/-- A file is read in one way. -/
theorem Reads.unique {data : Bytes} {header header' : Header} {toks toks' : List Token}
    {rs rs' : List Record} (h : Reads data header toks rs) (h' : Reads data header' toks' rs') :
    header = header' ∧ toks = toks' ∧ rs = rs' := by
  have hheader := h.header_eq.symm.trans h'.header_eq
  cases hheader
  obtain rfl := h.walk.unique h'.walk
  exact ⟨rfl, rfl, Option.some.inj (h.records_eq.symm.trans h'.records_eq)⟩

end Fdt

end Msm8998
