import Mathlib.Algebra.GroupWithZero.Nat
import Mathlib.Data.List.Basic

/-!
# Sections of a File

Cutting pieces out of a list by position and length, and the two ways in which files are laid
out: one section after the other, each followed by its padding, and pieces whose positions are
recorded next to them.

## Main results

* `cutAll_of_append`: consecutive sections are cut out by their lengths;
* `cut_of_laid`: pieces are cut out by their recorded positions.
-/

namespace Sections

variable {α : Type}

/-- The piece at a position, if it lies inside the data. -/
def cut (data : List α) (pos len : ℕ) : Option (List α) :=
  if pos + len ≤ data.length then some ((data.drop pos).take len) else none

/-- The piece that stands behind a prefix. -/
theorem cut_append {data xs : List α} {pos : ℕ} (pre post : List α)
    (h : data = pre ++ (xs ++ post)) (hpos : pos = pre.length) :
    cut data pos xs.length = some xs := by
  subst h hpos
  rw [cut, if_pos, List.drop_left, List.take_left]
  simp only [List.length_append]
  omega

/-- A part of a list that is put together from parts stands behind the parts before it. -/
theorem exists_flatten_eq {parts : List (List α)} {xs : List α} {i : ℕ}
    (h : parts[i]? = some xs) : ∃ pre post, parts.flatten = pre ++ (xs ++ post) ∧
      pre.length = ((parts.map List.length).take i).sum := by
  induction parts generalizing i with
  | nil => simp only [List.getElem?_nil, reduceCtorEq] at h
  | cons ys parts ih =>
      cases i with
      | zero =>
          obtain rfl : ys = xs := by simpa only [List.getElem?_cons_zero, Option.some.injEq] using h
          exact ⟨[], parts.flatten, rfl, rfl⟩
      | succ i =>
          obtain ⟨pre, post, heq, hlen⟩ := ih (by simpa only [List.getElem?_cons_succ] using h)
          refine ⟨ys ++ pre, post, ?_, ?_⟩
          · rw [List.flatten_cons, heq, List.append_assoc]
          · rw [List.length_append, hlen, List.map_cons, List.take_succ_cons, List.sum_cons]

/-- Consecutive sections of given lengths, where a section of length `n` takes up `stride n`. -/
def cutAll (stride : ℕ → ℕ) (data : List α) : ℕ → List ℕ → Option (List (List α))
  | _, [] => some []
  | pos, n :: ns =>
      (cut data pos n).bind fun xs => (cutAll stride data (pos + stride n) ns).map (xs :: ·)

/-- **Consecutive sections** are cut out by their lengths, when padding only appends. -/
theorem cutAll_of_append {stride : ℕ → ℕ} (pad : List α → List α)
    (happend : ∀ xs, ∃ zeros, pad xs = xs ++ zeros)
    (hlength : ∀ xs, (pad xs).length = stride xs.length) {data : List α}
    {xss : List (List α)} (post : List α) :
    ∀ (pre : List α) {pos : ℕ}, data = pre ++ (xss.flatMap pad ++ post) → pos = pre.length →
      cutAll stride data pos (xss.map List.length) = some xss := by
  induction xss with
  | nil =>
      intro pre pos _ _
      rfl
  | cons xs xss ih =>
      intro pre pos h hpos
      obtain ⟨zeros, hzeros⟩ := happend xs
      have hcut : cut data pos xs.length = some xs := by
        refine cut_append pre (zeros ++ (xss.flatMap pad ++ post)) ?_ hpos
        rw [h, List.flatMap_cons, hzeros]
        simp only [List.append_assoc]
      have hrest := ih (pre ++ pad xs)
        (by rw [h, List.flatMap_cons]; simp only [List.append_assoc])
        (by rw [List.length_append, hlength, ← hpos])
      rw [List.map_cons, cutAll, hcut, Option.bind_some, hrest]
      rfl

/-- Positions and lengths of pieces that stand one after the other from a position on. -/
def Laid : ℕ → List (ℕ × ℕ) → Prop
  | _, [] => True
  | pos, s :: spans => s.1 = pos ∧ Laid (pos + s.2) spans

/-- One more section behind the others. -/
theorem laid_append {spans : List (ℕ × ℕ)} {s : ℕ × ℕ} {pos : ℕ} :
    Laid pos (spans ++ [s]) ↔ Laid pos spans ∧ s.1 = pos + (spans.map Prod.snd).sum := by
  induction spans generalizing pos with
  | nil => simp only [List.nil_append, Laid, and_true, List.map_nil, List.sum_nil, Nat.add_zero,
      true_and]
  | cons t spans ih =>
      rw [List.cons_append, Laid, Laid, ih, List.map_cons, List.sum_cons, Nat.add_assoc, and_assoc]

/-- **Pieces with their positions** are cut out of what they were put together to. -/
theorem cut_of_laid {β : Type} (content : β → List α) (span : β → ℕ × ℕ) {data : List α}
    {items : List β} (post : List α) : ∀ (pre : List α),
      (∀ b ∈ items, (span b).2 = (content b).length) →
      Laid pre.length (items.map span) → data = pre ++ (items.flatMap content ++ post) →
      ∀ b ∈ items, cut data (span b).1 (span b).2 = some (content b) := by
  induction items with
  | nil => simp
  | cons b items ih =>
      intro pre hlens hlaid h
      obtain ⟨hlen, hlens⟩ := List.forall_mem_cons.mp hlens
      obtain ⟨hpos, hlaid⟩ := hlaid
      refine List.forall_mem_cons.mpr ⟨?_, ih (pre ++ content b) hlens ?_ ?_⟩
      · rw [hlen]
        refine cut_append pre (items.flatMap content ++ post) ?_ hpos
        rw [h, List.flatMap_cons, List.append_assoc]
      · rw [List.length_append, ← hlen]
        exact hlaid
      · rw [h, List.flatMap_cons]
        simp only [List.append_assoc]

end Sections
