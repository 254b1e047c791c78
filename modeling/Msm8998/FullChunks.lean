import Mathlib.Data.List.Basic

/-!
# Full Chunks of a List

A list cut into chunks of one length; what is left at the end and is shorter is dropped. A loop
that strides over the list and takes a slice at each place computes the same.

## Main results

* `map_strides`: the slices of a striding loop are the chunks.
-/

namespace FullChunks

variable {α : Type*}

/-- The full chunks of length `n`; of length zero there are none. -/
def chunks (n : ℕ) (xs : List α) : List (List α) :=
  if 0 < n ∧ n ≤ xs.length then xs.take n :: chunks n (xs.drop n) else []
termination_by xs.length
decreasing_by
  rw [List.length_drop]
  omega

/-- The first chunk, when there is a full one. -/
theorem chunks_of_le {n : ℕ} {xs : List α} (hn : 0 < n) (hle : n ≤ xs.length) :
    chunks n xs = xs.take n :: chunks n (xs.drop n) := by
  rw [chunks, if_pos ⟨hn, hle⟩]

/-- What does not fill a chunk is dropped. -/
theorem chunks_of_lt {n : ℕ} {xs : List α} (hlt : xs.length < n) : chunks n xs = [] := by
  rw [chunks, if_neg fun h => Nat.not_le.mpr hlt h.2]

/-- The places from zero up to `stop`, `step` apart. -/
def strides (stop step : ℕ) : List ℕ := List.range' 0 ((stop + (step - 1)) / step) step

/-- The first place and those behind it. -/
theorem strides_of_le {n len : ℕ} (hn : 0 < n) (hle : n ≤ len) :
    strides (len + 1 - n) n = 0 :: (strides (len - n + 1 - n) n).map (n + ·) := by
  have hcount : (len + 1 - n + (n - 1)) / n = (len - n + 1 - n + (n - 1)) / n + 1 := by
    have hstop : len + 1 - n + (n - 1) = len := by omega
    rw [hstop, Nat.div_eq_sub_div hn hle]
    rcases Nat.lt_or_ge (len - n) n with hlt | hge
    · rw [Nat.div_eq_of_lt hlt, Nat.div_eq_of_lt (by omega)]
    · have hstop' : len - n + 1 - n + (n - 1) = len - n := by omega
      rw [hstop']
  rw [strides, strides, hcount, List.range'_succ, List.map_add_range', Nat.add_comm 0 n]

/-- No stride fits what is shorter than it. -/
theorem strides_of_lt {n len : ℕ} (hlt : len < n) : strides (len + 1 - n) n = [] := by
  have hcount : (len + 1 - n + (n - 1)) / n = 0 := Nat.div_eq_of_lt (by omega)
  rw [strides, hcount, List.range'_zero]

/-- **A striding loop** over the places with a full chunk behind them takes the chunks. -/
theorem map_strides {n : ℕ} (hn : 0 < n) (xs : List α) :
    (strides (xs.length + 1 - n) n).map (fun i => (xs.drop i).take n) = chunks n xs := by
  induction xs using chunks.induct n with
  | case1 xs h ih =>
      rw [List.length_drop] at ih
      rw [strides_of_le hn h.2, List.map_cons, List.map_map, List.drop_zero,
        chunks_of_le hn h.2, ← ih]
      refine congrArg _ (List.map_congr_left fun i _ => ?_)
      rw [Function.comp_apply, List.drop_drop]
  | case2 xs h =>
      have hlt : xs.length < n := Nat.lt_of_not_le fun hle => h ⟨hn, hle⟩
      rw [strides_of_lt hlt, chunks_of_lt hlt, List.map_nil]

end FullChunks
