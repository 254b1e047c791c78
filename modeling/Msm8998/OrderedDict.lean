import Mathlib.Algebra.Group.Nat.Defs
import Mathlib.Data.List.Basic
import Mathlib.Data.List.Induction
import Mathlib.Data.List.Nodup
import Mathlib.Order.Basic

/-!
# Insertion-Ordered Dictionaries

A dictionary that lists its keys in the order in which they first came up. Every operation
is one update: the value under a key becomes a function of what was there.

Two ways to build one from a list of bindings are compared. `setAll` lets a later binding
overwrite an earlier one; `groupAll` collects, under each key, all its values in order.

## Main results

* `Dict.get?_update`: an update is seen under its own key and nowhere else.
* `get?_setAll`: overwriting leaves the last binding of each key.
* `groupAll_entries`: grouping lists the keys as they first came up, each with its values.
* `groupAll_flatMap`: grouping what was listed key by key gives it back.
* `lastWith?_eq_some_iff`: in an increasing list the last match is the greatest.
* `lastWith?_flatMap`: the last match in a concatenation lies in the last part that has one.
-/

namespace OrderedDict

variable {α β κ ν : Type*}

/-! ### The last match in a list -/

/-- The last element that satisfies `P`. -/
def lastWith? (P : α → Bool) (l : List α) : Option α := l.reverse.find? P

/-- The last element is asked first. -/
theorem lastWith?_concat (P : α → Bool) (l : List α) (a : α) :
    lastWith? P (l ++ [a]) = if P a then some a else lastWith? P l := by
  rw [lastWith?, List.reverse_append, List.reverse_singleton, List.singleton_append,
    List.find?_cons]
  cases P a <;> rfl

/-- The second list is asked before the first. -/
theorem lastWith?_append (P : α → Bool) (l m : List α) :
    lastWith? P (l ++ m) = (lastWith? P m).or (lastWith? P l) := by
  rw [lastWith?, List.reverse_append, List.find?_append]
  rfl

/-- The first element is asked last. -/
theorem lastWith?_cons (P : α → Bool) (a : α) (l : List α) :
    lastWith? P (a :: l) = (lastWith? P l).or (if P a then some a else none) := by
  rw [← List.singleton_append, lastWith?_append]
  exact congrArg _ (lastWith?_concat P [] a)

/-- The last one of those that are left. -/
theorem lastWith?_filter (P Q : α → Bool) (l : List α) :
    lastWith? P (l.filter Q) = lastWith? (fun a => Q a && P a) l := by
  simp only [lastWith?, ← List.filter_reverse, List.find?_filter, Bool.decide_and,
    Bool.decide_eq_true]

/-- The last one of the images. -/
theorem lastWith?_map (P : β → Bool) (f : α → β) (l : List α) :
    lastWith? P (l.map f) = (lastWith? (fun a => P (f a)) l).map f := by
  rw [lastWith?, ← List.map_reverse, List.find?_map]
  rfl

/-- What is found is there, and as it was asked for. -/
theorem mem_of_lastWith? {P : α → Bool} {l : List α} {a : α} (h : lastWith? P l = some a) :
    a ∈ l ∧ P a = true :=
  ⟨List.mem_reverse.mp (List.mem_of_find?_eq_some h), List.find?_some h⟩

/-- Something is found if anything is as it was asked for. -/
theorem lastWith?_isSome (P : α → Bool) (l : List α) :
    (lastWith? P l).isSome = l.any P := by
  rw [lastWith?, Bool.eq_iff_iff, List.find?_isSome, List.any_eq_true]
  simp only [List.mem_reverse]

/-- In an increasing list, the last match is the greatest. -/
theorem lastWith?_eq_some_iff [Preorder α] {P : α → Bool} {l : List α} {a : α}
    (hl : l.Pairwise (· < ·)) :
    lastWith? P l = some a ↔ a ∈ l ∧ P a = true ∧ ∀ b ∈ l, a < b → P b = false := by
  induction l using List.reverseRecOn with
  | nil => simp [lastWith?]
  | append_singleton l c ih =>
      obtain ⟨hl, -, hc⟩ := List.pairwise_append.mp hl
      have hlt : ∀ b ∈ l, b < c := fun b hb => hc b hb c List.mem_cons_self
      rw [lastWith?_concat]
      cases hP : P c with
      | true =>
          rw [if_pos rfl, Option.some.injEq]
          constructor
          · rintro rfl
            refine ⟨by simp, hP, fun b hb hab => ?_⟩
            rcases List.mem_append.mp hb with hb | hb
            · exact absurd (hlt b hb) (lt_asymm hab)
            · exact absurd hab (List.mem_singleton.mp hb ▸ lt_irrefl _)
          · rintro ⟨ha, -, hgreatest⟩
            rcases List.mem_append.mp ha with ha | ha
            · have hfalse := hgreatest c (by simp) (hlt a ha)
              rw [hP] at hfalse
              cases hfalse
            · exact (List.mem_singleton.mp ha).symm
      | false =>
          rw [if_neg Bool.false_ne_true, ih hl]
          constructor
          · rintro ⟨ha, hPa, hgreatest⟩
            refine ⟨List.mem_append_left _ ha, hPa, fun b hb hab => ?_⟩
            rcases List.mem_append.mp hb with hb | hb
            · exact hgreatest b hb hab
            · exact List.mem_singleton.mp hb ▸ hP
          · rintro ⟨ha, hPa, hgreatest⟩
            rcases List.mem_append.mp ha with ha | ha
            · exact ⟨ha, hPa, fun b hb => hgreatest b (List.mem_append_left _ hb)⟩
            · rw [List.mem_singleton.mp ha, hP] at hPa
              cases hPa

/-- The last match in a concatenation lies in the last part that has one. -/
theorem lastWith?_flatMap (P : β → Bool) (f : α → List β) (l : List α) :
    lastWith? P (l.flatMap f) =
      (lastWith? (fun a => (f a).any P) l).bind fun a => lastWith? P (f a) := by
  induction l using List.reverseRecOn with
  | nil => rfl
  | append_singleton l a ih =>
      have hsome := lastWith?_isSome P (f a)
      rw [List.flatMap_append, List.flatMap_singleton, lastWith?_append, lastWith?_concat, ih]
      cases hany : (f a).any P with
      | true =>
          rw [hany] at hsome
          obtain ⟨b, hb⟩ := Option.isSome_iff_exists.mp hsome
          simp only [if_true, Option.bind_some, hb, Option.some_or]
      | false =>
          rw [hany, Option.isSome_eq_false_iff, Option.isNone_iff_eq_none] at hsome
          simp only [hsome, Option.none_or, Bool.false_eq_true, if_false]

/-- The value of the last element that has one. -/
def lastSome? (f : α → Option β) (l : List α) : Option β := l.reverse.findSome? f

/-- The last element is asked first. -/
theorem lastSome?_concat (f : α → Option β) (l : List α) (a : α) :
    lastSome? f (l ++ [a]) = (f a).or (lastSome? f l) := by
  rw [lastSome?, List.reverse_append, List.reverse_singleton, List.singleton_append,
    List.findSome?_cons]
  cases f a <;> rfl

/-- Of the images of a list. -/
theorem lastSome?_map {γ : Type*} (f : β → Option γ) (g : α → β) (l : List α) :
    lastSome? f (l.map g) = lastSome? (fun a => f (g a)) l := by
  rw [lastSome?, ← List.map_reverse, List.findSome?_map]
  rfl

/-! ### Dictionaries -/

/-- A list of bindings with distinct keys. -/
structure Dict (κ ν : Type*) where
  entries : List (κ × ν)
  nodup : (entries.map Prod.fst).Nodup

namespace Dict

/-- A dictionary is its list of bindings. -/
theorem ext {d e : Dict κ ν} (h : d.entries = e.entries) : d = e := by
  cases d
  cases e
  cases h
  rfl

/-- No bindings. -/
def empty : Dict κ ν := ⟨[], List.nodup_nil⟩

variable [DecidableEq κ]

/-- The value under a key. -/
def get? (d : Dict κ ν) (k : κ) : Option ν :=
  (d.entries.find? fun e => decide (e.1 = k)).map Prod.snd

/-- A key has a value when the pair is an entry. -/
theorem get?_eq_some_iff {d : Dict κ ν} {k : κ} {v : ν} :
    d.get? k = some v ↔ (k, v) ∈ d.entries := by
  rw [get?, Option.map_eq_some_iff]
  constructor
  · rintro ⟨e, he, rfl⟩
    have hkey : e.1 = k := by simpa using List.find?_some he
    exact hkey ▸ List.mem_of_find?_eq_some he
  · intro hmem
    have hsome : (d.entries.find? fun e => decide (e.1 = k)).isSome :=
      List.find?_isSome.mpr ⟨(k, v), hmem, decide_eq_true rfl⟩
    obtain ⟨e, he⟩ := Option.isSome_iff_exists.mp hsome
    have hkey : e.1 = k := by simpa using List.find?_some he
    have heq := List.inj_on_of_nodup_map d.nodup (List.mem_of_find?_eq_some he) hmem hkey
    exact ⟨e, he, heq ▸ rfl⟩

/-- Replace the value under `k` where it stands, or add `k` at the end. -/
def updateEntries (k : κ) (f : Option ν → ν) : List (κ × ν) → List (κ × ν)
  | [] => [(k, f none)]
  | e :: es => if e.1 = k then (k, f (some e.2)) :: es else e :: updateEntries k f es

/-- A new key comes last. -/
theorem updateEntries_of_not_mem (k : κ) (f : Option ν → ν) (es : List (κ × ν))
    (h : k ∉ es.map Prod.fst) : updateEntries k f es = es ++ [(k, f none)] := by
  induction es with
  | nil => rfl
  | cons e es ih =>
      rw [List.map_cons, List.mem_cons, not_or] at h
      rw [updateEntries, if_neg (Ne.symm h.1), ih h.2, List.cons_append]

/-- Entries without the key stay as they are. -/
theorem updateEntries_append (k : κ) (f : Option ν → ν) (es fs : List (κ × ν))
    (h : k ∉ es.map Prod.fst) : updateEntries k f (es ++ fs) = es ++ updateEntries k f fs := by
  induction es with
  | nil => rfl
  | cons e es ih =>
      rw [List.map_cons, List.mem_cons, not_or] at h
      rw [List.cons_append, updateEntries, if_neg (Ne.symm h.1), ih h.2, List.cons_append]

/-- The keys keep their order. -/
theorem updateEntries_keys (k : κ) (f : Option ν → ν) (es : List (κ × ν)) :
    (updateEntries k f es).map Prod.fst =
      if k ∈ es.map Prod.fst then es.map Prod.fst else es.map Prod.fst ++ [k] := by
  induction es with
  | nil => rfl
  | cons e es ih =>
      by_cases he : e.1 = k
      · simp only [updateEntries, he, if_true, List.map_cons, List.mem_cons, true_or]
      · simp only [updateEntries, he, if_false, List.map_cons, ih, List.mem_cons,
          Ne.symm he, false_or]
        split <;> rfl

/-- Only the value of this key changes. -/
theorem updateEntries_find? (k j : κ) (f : Option ν → ν) (es : List (κ × ν)) :
    ((updateEntries k f es).find? fun e => decide (e.1 = j)).map Prod.snd =
      if j = k then some (f ((es.find? fun e => decide (e.1 = k)).map Prod.snd))
      else (es.find? fun e => decide (e.1 = j)).map Prod.snd := by
  induction es with
  | nil =>
      by_cases hj : j = k
      · simp [updateEntries, hj]
      · simp [updateEntries, hj, Ne.symm hj]
  | cons e es ih =>
      by_cases he : e.1 = k
      · by_cases hj : j = k
        · simp [updateEntries, he, hj]
        · have hne : ¬ k = j := fun hk => hj hk.symm
          simp [updateEntries, he, hj, hne]
      · by_cases hej : e.1 = j
        · have hj : ¬ j = k := fun hk => he (hej.trans hk)
          simp [updateEntries, hej, hj]
        · simp only [updateEntries, he, if_false, List.find?_cons, hej, decide_false, ih]

/-- One update. -/
def update (d : Dict κ ν) (k : κ) (f : Option ν → ν) : Dict κ ν where
  entries := updateEntries k f d.entries
  nodup := by
    rw [updateEntries_keys]
    split
    · exact d.nodup
    · next hk => exact d.nodup.append (List.nodup_singleton k) (by simpa using hk)

/-- **An update is seen under its own key and nowhere else.** -/
theorem get?_update (d : Dict κ ν) (k j : κ) (f : Option ν → ν) :
    (d.update k f).get? j = if j = k then some (f (d.get? k)) else d.get? j :=
  updateEntries_find? k j f d.entries

/-- `d[k] = v`. -/
def set (d : Dict κ ν) (k : κ) (v : ν) : Dict κ ν := d.update k fun _ => v

/-- `d.setdefault(k, []).append(v)`. -/
def push (d : Dict κ (List ν)) (k : κ) (v : ν) : Dict κ (List ν) :=
  d.update k fun vs => vs.getD [] ++ [v]

/-- A pushed value comes last in the list of its key. -/
theorem push_entries (d : Dict κ (List ν)) (k : κ) (v : ν) :
    (d.push k v).entries = updateEntries k (fun vs => vs.getD [] ++ [v]) d.entries := rfl

end Dict

/-! ### Overwriting -/

variable [DecidableEq κ]

/-- Bind every key of the list in turn. -/
def setAll (d : Dict κ ν) (l : List (κ × ν)) : Dict κ ν :=
  l.foldl (fun d e => d.set e.1 e.2) d

/-- Pairs are set one after the other. -/
theorem setAll_entries (d : Dict κ ν) (l : List (κ × ν)) :
    (setAll d l).entries =
      l.foldl (fun es e => Dict.updateEntries e.1 (fun _ => e.2) es) d.entries := by
  induction l generalizing d with
  | nil => rfl
  | cons e l ih => exact ih (d.set e.1 e.2)

/-- **Overwriting leaves the last binding of each key.** -/
theorem get?_setAll (d : Dict κ ν) (l : List (κ × ν)) (k : κ) :
    (setAll d l).get? k =
      ((lastWith? (fun e => decide (e.1 = k)) l).map Prod.snd).or (d.get? k) := by
  induction l using List.reverseRecOn with
  | nil => rfl
  | append_singleton l e ih =>
      rw [setAll, List.foldl_append, List.foldl_cons, List.foldl_nil, ← setAll, Dict.set,
        Dict.get?_update, lastWith?_concat, ih]
      by_cases he : e.1 = k
      · simp [he]
      · simp [he, Ne.symm he]

/-! ### Grouping -/

/-- Collect the values of every key of the list in turn. -/
def groupAll (d : Dict κ (List ν)) (l : List (κ × ν)) : Dict κ (List ν) :=
  l.foldl (fun d e => d.push e.1 e.2) d

/-- The keys of a list as they first come up. -/
def firstSeen (l : List κ) : List κ :=
  l.foldl (fun seen k => if k ∈ seen then seen else seen ++ [k]) []

/-- An element counts where it is first seen. -/
theorem firstSeen_concat (l : List κ) (k : κ) :
    firstSeen (l ++ [k]) = if k ∈ firstSeen l then firstSeen l else firstSeen l ++ [k] := by
  rw [firstSeen, List.foldl_append, List.foldl_cons, List.foldl_nil, ← firstSeen]

/-- Every element is seen. -/
theorem mem_firstSeen {l : List κ} {k : κ} : k ∈ firstSeen l ↔ k ∈ l := by
  induction l using List.reverseRecOn with
  | nil => rfl
  | append_singleton l j ih =>
      rw [firstSeen_concat, List.mem_append, List.mem_singleton]
      split
      · next hj =>
          rw [ih]
          exact ⟨Or.inl, fun h => h.elim id fun he => he ▸ ih.mp (he ▸ hj)⟩
      · rw [List.mem_append, List.mem_singleton, ih]

/-- One more value under a key that is there. -/
theorem updateEntries_map (k : κ) (f : Option ν → ν) (ks : List κ) (g : κ → ν)
    (hnodup : ks.Nodup) (hk : k ∈ ks) :
    Dict.updateEntries k f (ks.map fun j => (j, g j)) =
      ks.map fun j => (j, if j = k then f (some (g j)) else g j) := by
  induction ks with
  | nil => cases hk
  | cons j ks ih =>
      rw [List.nodup_cons] at hnodup
      rw [List.map_cons, List.map_cons, Dict.updateEntries]
      by_cases hj : j = k
      · have hrest : ks.map (fun i => (i, g i)) =
            ks.map fun i => (i, if i = k then f (some (g i)) else g i) := by
          refine List.map_congr_left fun i hi => ?_
          have hi' : i ≠ k := fun he => hnodup.1 (hj ▸ he ▸ hi)
          rw [if_neg hi']
        rw [if_pos hj, if_pos hj, hrest, hj]
      · rw [if_neg hj, if_neg hj, ih hnodup.2 (List.mem_of_ne_of_mem (Ne.symm hj) hk)]

/-- **Grouping lists the keys as they first came up, each with its values in order.** -/
theorem groupAll_entries (l : List (κ × ν)) :
    (groupAll Dict.empty l).entries = (firstSeen (l.map Prod.fst)).map fun k =>
      (k, (l.filter fun e => decide (e.1 = k)).map Prod.snd) := by
  induction l using List.reverseRecOn with
  | nil => rfl
  | append_singleton l e ih =>
      have hkeys : (groupAll Dict.empty l).entries.map Prod.fst =
          firstSeen (l.map Prod.fst) := by
        rw [ih, List.map_map]
        exact List.map_id _
      have hnodup := (groupAll Dict.empty l).nodup
      rw [hkeys] at hnodup
      have hstep : (groupAll Dict.empty (l ++ [e])).entries =
          Dict.updateEntries e.1 (fun vs => vs.getD [] ++ [e.2])
            (groupAll Dict.empty l).entries := by
        rw [groupAll, List.foldl_append, List.foldl_cons, List.foldl_nil, ← groupAll]
        rfl
      rw [hstep, List.map_append, List.map_cons, List.map_nil, firstSeen_concat]
      by_cases hmem : e.1 ∈ firstSeen (l.map Prod.fst)
      · rw [if_pos hmem, ih, updateEntries_map _ _ _ _ hnodup hmem]
        refine List.map_congr_left fun k _ => ?_
        by_cases hk : k = e.1
        · simp [hk, List.filter_append]
        · simp [hk, Ne.symm hk, List.filter_append]
      · have hnone : l.filter (fun e' => decide (e'.1 = e.1)) = [] := by
          refine List.filter_eq_nil_iff.mpr fun e' he' => ?_
          have hne : e'.1 ≠ e.1 := fun he => hmem (mem_firstSeen.mpr (he ▸ List.mem_map_of_mem he'))
          simp [hne]
        rw [if_neg hmem, Dict.updateEntries_of_not_mem _ _ _ (by rwa [hkeys]), ih,
          List.map_append]
        refine congrArg₂ (· ++ ·) (List.map_congr_left fun k hk => ?_) ?_
        · have hne : ¬ e.1 = k := fun he => hmem (he ▸ hk)
          simp [List.filter_append, hne]
        · simp [List.filter_append, hnone]

/-- Pairs are grouped one after the other. -/
theorem groupAll_append (d : Dict κ (List ν)) (l m : List (κ × ν)) :
    groupAll d (l ++ m) = groupAll (groupAll d l) m :=
  List.foldl_append

/-- More values under the key that came up last. -/
theorem groupAll_last {d : Dict κ (List ν)} {es : List (κ × List ν)} {k : κ} {us : List ν}
    (hd : d.entries = es ++ [(k, us)]) (hk : k ∉ es.map Prod.fst) (vs : List ν) :
    (groupAll d (vs.map fun v => (k, v))).entries = es ++ [(k, us ++ vs)] := by
  induction vs generalizing d us with
  | nil => rw [List.append_nil, ← hd, List.map_nil, groupAll, List.foldl_nil]
  | cons v vs ih =>
      have hpush : (d.push k v).entries = es ++ [(k, us ++ [v])] := by
        rw [Dict.push_entries, hd, Dict.updateEntries_append _ _ _ _ hk, Dict.updateEntries,
          if_pos rfl]
        rfl
      have hrest := ih hpush
      rwa [List.append_assoc, List.singleton_append] at hrest

/-- Values under a key that is not there yet. -/
theorem groupAll_new {d : Dict κ (List ν)} {k : κ} (hk : k ∉ d.entries.map Prod.fst)
    {vs : List ν} (hvs : vs ≠ []) :
    (groupAll d (vs.map fun v => (k, v))).entries = d.entries ++ [(k, vs)] := by
  cases vs with
  | nil => exact absurd rfl hvs
  | cons v vs =>
      have hpush : (d.push k v).entries = d.entries ++ [(k, [v])] := by
        rw [Dict.push_entries, Dict.updateEntries_of_not_mem _ _ _ hk]
        rfl
      exact groupAll_last hpush hk vs

/-- **Grouping what was listed key by key gives it back.** -/
theorem groupAll_flatMap {d : Dict κ (List ν)} {b : List (κ × List ν)}
    (hnodup : ((d.entries ++ b).map Prod.fst).Nodup) (hne : ∀ e ∈ b, e.2 ≠ []) :
    (groupAll d (b.flatMap fun e => e.2.map fun v => (e.1, v))).entries = d.entries ++ b := by
  induction b generalizing d with
  | nil => rw [List.append_nil, List.flatMap_nil, groupAll, List.foldl_nil]
  | cons e b ih =>
      obtain ⟨hvs, hrest⟩ := List.forall_mem_cons.mp hne
      have hkey : e.1 ∉ d.entries.map Prod.fst := by
        rw [List.map_append, List.map_cons] at hnodup
        exact fun hmem => (List.nodup_append.mp hnodup).2.2 _ hmem _ List.mem_cons_self rfl
      have hnew := groupAll_new hkey hvs
      have hassoc : d.entries ++ e :: b =
          (groupAll d (e.2.map fun v => (e.1, v))).entries ++ b := by
        rw [hnew, List.append_assoc, List.singleton_append]
      rw [List.flatMap_cons, groupAll_append, hassoc]
      rw [hassoc] at hnodup
      exact ih hnodup hrest

end OrderedDict
