import Mathlib.Data.List.Basic

/-!
# Transcripts

A program that prints and may fail. What was printed before an error stays printed, so a run is
the list of what it has printed together with the result it ended with.

## Main results

* `bind_result`, `bind_succeeds`: one part of a run after another.
* `forM_succeeds`, `foldlM_succeeds`: a loop succeeds when every pass does.
* `foldlM_of_ok`, `foldlM_of_error`: what a loop prints, to its end or up to the pass that fails.
* `foldlM_listing`: what a loop prints that remembers whether it has found anything.
-/

namespace Transcript

/-- What a program has printed, and how it ended. -/
structure Run (ε ℓ α : Type) where
  lines : List ℓ
  result : Except ε α

variable {ε ℓ α β : Type}

/-- An error ends the run. -/
def Run.andThen (r : Run ε ℓ α) (f : α → Run ε ℓ β) : Run ε ℓ β :=
  match r.result with
  | .error e => ⟨r.lines, .error e⟩
  | .ok a => ⟨r.lines ++ (f a).lines, (f a).result⟩

instance : Monad (Run ε ℓ) where
  pure a := ⟨[], .ok a⟩
  bind := Run.andThen

/-- A part that prints nothing. -/
def quiet (x : Except ε α) : Run ε ℓ α := ⟨[], x⟩

/-- `print`. -/
def print (line : ℓ) : Run ε ℓ Unit := ⟨[line], .ok ()⟩

/-- Several calls of `print`. -/
def printAll (ls : List ℓ) : Run ε ℓ Unit := ⟨ls, .ok ()⟩

/-- Whether a run ends without an error. -/
def Run.Succeeds (r : Run ε ℓ α) : Prop := ∃ a, r.result = .ok a

/-- Whether a run that ends without an error returns a value and no other. -/
def Run.Returns (r : Run ε ℓ α) (a : α) : Prop := ∀ b, r.result = .ok b → b = a

/-- Runs with the same lines and the same result are the same. -/
@[ext] theorem Run.ext {r s : Run ε ℓ α} (hlines : r.lines = s.lines)
    (hresult : r.result = s.result) : r = s := by
  cases r
  cases s
  cases hlines
  cases hresult
  rfl

/-! ### One part after another -/

/-- What follows a success prints behind it. -/
theorem bind_of_ok {r : Run ε ℓ α} {a : α} (h : r.result = .ok a) (f : α → Run ε ℓ β) :
    r >>= f = ⟨r.lines ++ (f a).lines, (f a).result⟩ := by
  change Run.andThen r f = _
  rw [Run.andThen, h]

/-- Nothing follows an error. -/
theorem bind_of_error {r : Run ε ℓ α} {e : ε} (h : r.result = .error e) (f : α → Run ε ℓ β) :
    r >>= f = ⟨r.lines, .error e⟩ := by
  change Run.andThen r f = _
  rw [Run.andThen, h]

instance : LawfulMonad (Run ε ℓ) := LawfulMonad.mk' _
  (fun r => by
    cases hr : r.result with
    | error e => exact (bind_of_error hr _).trans (Run.ext rfl hr.symm)
    | ok a => exact (bind_of_ok hr _).trans (Run.ext (List.append_nil _) hr.symm))
  (fun a f => rfl)
  (fun r f g => by
    cases hr : r.result with
    | error e => rw [bind_of_error hr, bind_of_error hr, bind_of_error rfl]
    | ok a =>
        rw [bind_of_ok hr, bind_of_ok hr]
        cases hf : (f a).result with
        | error e => rw [bind_of_error hf, bind_of_error rfl]
        | ok b => rw [bind_of_ok hf, bind_of_ok rfl, List.append_assoc])

/-- What a run of two parts returns. -/
theorem bind_result {r : Run ε ℓ α} {f : α → Run ε ℓ β} {b : β} :
    (r >>= f).result = .ok b ↔ ∃ a, r.result = .ok a ∧ (f a).result = .ok b := by
  cases hr : r.result with
  | error e =>
      rw [bind_of_error hr]
      refine iff_of_false (fun h => by cases h) ?_
      rintro ⟨a, ha, -⟩
      cases ha
  | ok a =>
      rw [bind_of_ok hr]
      refine ⟨fun h => ⟨a, rfl, h⟩, ?_⟩
      rintro ⟨a', ha, h⟩
      cases ha
      exact h

/-- A run of two parts succeeds when both do. -/
theorem bind_succeeds {r : Run ε ℓ α} {f : α → Run ε ℓ β} {P : Prop}
    (hf : ∀ a, (f a).Succeeds ↔ P) : (r >>= f).Succeeds ↔ r.Succeeds ∧ P := by
  constructor
  · rintro ⟨b, h⟩
    obtain ⟨a, ha, hb⟩ := bind_result.mp h
    exact ⟨⟨a, ha⟩, (hf a).mp ⟨b, hb⟩⟩
  · rintro ⟨⟨a, ha⟩, hP⟩
    obtain ⟨b, hb⟩ := (hf a).mpr hP
    exact ⟨b, bind_result.mpr ⟨a, ha, hb⟩⟩

/-- Two parts succeed when both do. -/
theorem seq_succeeds {r : Run ε ℓ α} {s : Run ε ℓ β} :
    (r >>= fun _ => s).Succeeds ↔ r.Succeeds ∧ s.Succeeds := bind_succeeds fun _ => Iff.rfl

@[simp] theorem pure_lines (a : α) : (pure a : Run ε ℓ α).lines = [] := rfl

/-- A value that prints nothing is handed on. -/
theorem quiet_bind_ok (a : α) (f : α → Run ε ℓ β) : quiet (.ok a) >>= f = f a := rfl

/-- A line comes before what follows. -/
theorem print_bind (line : ℓ) (f : Unit → Run ε ℓ β) :
    print line >>= f = ⟨line :: (f ()).lines, (f ()).result⟩ := rfl

/-- So do several lines. -/
theorem printAll_bind (ls : List ℓ) (f : Unit → Run ε ℓ β) :
    printAll ls >>= f = ⟨ls ++ (f ()).lines, (f ()).result⟩ := rfl

/-- What prints nothing succeeds with its result. -/
theorem quiet_succeeds {x : Except ε α} : (quiet x : Run ε ℓ α).Succeeds ↔ ∃ a, x = .ok a :=
  Iff.rfl

/-- A value is a success. -/
theorem pure_succeeds (a : α) : (pure a : Run ε ℓ α).Succeeds := ⟨a, rfl⟩

/-- So is a line. -/
theorem print_succeeds (line : ℓ) : (print line : Run ε ℓ Unit).Succeeds := ⟨(), rfl⟩

/-- A value is returned. -/
theorem pure_returns (a : α) : (pure a : Run ε ℓ α).Returns a := by
  intro b h
  cases h
  rfl

/-- A run returns what its last part returns. -/
theorem bind_returns {r : Run ε ℓ α} {f : α → Run ε ℓ β} {b : β} (hf : ∀ a, (f a).Returns b) :
    (r >>= f).Returns b := by
  intro c h
  obtain ⟨a, -, hc⟩ := bind_result.mp h
  exact hf a c hc

/-- What is left to ask of a run that can return one value only. -/
theorem Run.Returns.result_iff {r : Run ε ℓ α} {a : α} (h : r.Returns a) (b : α) :
    r.result = .ok b ↔ r.Succeeds ∧ b = a := by
  constructor
  · intro hb
    exact ⟨⟨b, hb⟩, h b hb⟩
  · rintro ⟨⟨c, hc⟩, rfl⟩
    rwa [h c hc] at hc

/-! ### Loops -/

/-- A loop with an accumulator succeeds when every pass does, if no pass depends on what has been
accumulated. -/
theorem foldlM_succeeds {f : β → α → Run ε ℓ β} {P : α → Prop}
    (hf : ∀ b x, (f b x).Succeeds ↔ P x) (xs : List α) (b : β) :
    (xs.foldlM f b).Succeeds ↔ ∀ x ∈ xs, P x := by
  induction xs generalizing b with
  | nil => exact iff_of_true (pure_succeeds b) (List.forall_mem_nil _)
  | cons x xs ih =>
      rw [List.foldlM_cons, bind_succeeds ih, hf, List.forall_mem_cons]

/-- A loop succeeds when every pass does. -/
theorem forM_succeeds {f : α → Run ε ℓ Unit} {P : α → Prop} (hf : ∀ x, (f x).Succeeds ↔ P x)
    (xs : List α) : (forM xs f).Succeeds ↔ ∀ x ∈ xs, P x := by
  induction xs with
  | nil => exact iff_of_true (pure_succeeds ()) (List.forall_mem_nil _)
  | cons x xs ih =>
      rw [List.forM_cons, bind_succeeds fun _ => ih, hf, List.forall_mem_cons]

/-- A loop that prints one line for each element. -/
theorem forM_print (f : α → ℓ) (xs : List α) :
    (forM xs fun x => print (f x) : Run ε ℓ Unit) = printAll (xs.map f) := by
  induction xs with
  | nil => rfl
  | cons x xs ih =>
      rw [List.forM_cons, ih]
      rfl

/-- A loop whose passes print and update. -/
theorem foldlM_of_ok {f : β → α → Run ε ℓ β} {lines : α → List ℓ} {g : β → α → β} {xs : List α}
    (hf : ∀ b, ∀ x ∈ xs, f b x = ⟨lines x, .ok (g b x)⟩) (b : β) :
    xs.foldlM f b = ⟨xs.flatMap lines, .ok (xs.foldl g b)⟩ := by
  induction xs generalizing b with
  | nil => rfl
  | cons x xs ih =>
      have hx := hf b x List.mem_cons_self
      have hxs := ih (fun b x hx => hf b x (List.mem_cons_of_mem _ hx)) (g b x)
      rw [List.foldlM_cons, hx, bind_of_ok rfl, hxs]
      rfl

/-- A loop that ends with the first pass that fails; what was printed before stays printed. -/
theorem foldlM_of_error {f : β → α → Run ε ℓ β} {lines : α → List ℓ} {g : β → α → β}
    {before : List α} {x : α} {e : ε} (after : List α)
    (hf : ∀ b, ∀ x ∈ before, f b x = ⟨lines x, .ok (g b x)⟩) (hx : ∀ b, f b x = ⟨[], .error e⟩)
    (b : β) : (before ++ x :: after).foldlM f b = ⟨before.flatMap lines, .error e⟩ := by
  rw [List.foldlM_append, foldlM_of_ok hf, bind_of_ok rfl, List.foldlM_cons, hx,
    bind_of_error rfl, List.append_nil]

/-- A loop that prints what its passes find, and remembers whether anything was found. -/
theorem foldlM_listing {γ : Type} {f : Bool → α → Run ε ℓ Bool} {items : α → List γ}
    {lines : γ → List ℓ} {xs : List α} (hf : ∀ found, ∀ x ∈ xs, f found x =
      ⟨(items x).flatMap lines, .ok (found || !(items x).isEmpty)⟩) (found : Bool) :
    xs.foldlM f found =
      ⟨(xs.flatMap items).flatMap lines, .ok (found || !(xs.flatMap items).isEmpty)⟩ := by
  induction xs generalizing found with
  | nil => exact Run.ext rfl (congrArg Except.ok (Bool.or_false found).symm)
  | cons x xs ih =>
      have hx := hf found x List.mem_cons_self
      have hxs := ih fun found x hx => hf found x (List.mem_cons_of_mem _ hx)
      rw [List.foldlM_cons, hx, bind_of_ok rfl, hxs, List.flatMap_cons, List.flatMap_append]
      refine Run.ext rfl (congrArg Except.ok ?_)
      rw [Bool.or_assoc]
      cases items x <;> rfl

/-! ### Runs that never fail -/

/-- A success followed by successes only is one. -/
theorem Run.Succeeds.bind {r : Run ε ℓ α} {f : α → Run ε ℓ β} (hr : r.Succeeds)
    (hf : ∀ a, (f a).Succeeds) : (r >>= f).Succeeds :=
  (bind_succeeds fun a => iff_of_true (hf a) trivial).mpr ⟨hr, trivial⟩

/-- A loop of successes is one. -/
theorem succeeds_forM {f : α → Run ε ℓ Unit} (hf : ∀ x, (f x).Succeeds) (xs : List α) :
    (forM xs f).Succeeds :=
  (forM_succeeds (fun x => iff_of_true (hf x) trivial) xs).mpr fun _ _ => trivial

/-- So is one that carries a value along. -/
theorem succeeds_foldlM {f : β → α → Run ε ℓ β} (hf : ∀ b x, (f b x).Succeeds) (xs : List α)
    (b : β) : (xs.foldlM f b).Succeeds :=
  (foldlM_succeeds (fun b x => iff_of_true (hf b x) trivial) xs b).mpr fun _ _ => trivial

/-- What is printed under a condition. -/
theorem succeeds_ite {P : Prop} [Decidable P] {r s : Run ε ℓ α} (hr : r.Succeeds)
    (hs : s.Succeeds) : (if P then r else s).Succeeds := by
  split
  · exact hr
  · exact hs

end Transcript
