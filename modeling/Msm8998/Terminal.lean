import Mathlib.Algebra.Group.Nat.Defs
import Mathlib.Data.List.Basic

/-!
# A Page-Clearing Terminal

A terminal without scrolling: text fills a grid of columns and rows, and when the rows are
used up the page is cleared and the text goes on at the top. Each byte is handled once. The
screen is the list of the glyphs drawn since the page was last cleared, each in an ink.

A printable byte is one from space on that is in the font of 96 characters.

## Main results

* `InGrid.put`, `InGrid.contained`: the cursor and the glyphs stay in the grid;
* `put_of_fills`: a byte that uses up the page leaves a blank one with the cursor at home;
* `page_put_eq_iff`: of the bytes that can do so, only a space leaves that page as it is.
-/

/-- A glyph on the screen. -/
structure Glyph (κ : Type*) where
  column : ℕ
  row : ℕ
  char : UInt8
  ink : κ

/-- The cursor, whether the page was ever cleared, and the glyphs drawn since, oldest first. -/
structure Terminal (κ : Type*) where
  column : ℕ
  row : ℕ
  cleared : Bool
  glyphs : List (Glyph κ)

namespace Terminal

variable {κ : Type*}

/-- The terminal before its first byte. -/
def start : Terminal κ := ⟨0, 0, false, []⟩

/-- The terminal with a cleared page. -/
def page : Terminal κ := ⟨0, 0, true, []⟩

/-- A byte that is drawn: a printable one, except a space in the first column. -/
def Drawn (t : Terminal κ) (c : UInt8) : Prop :=
  32 ≤ c.toNat ∧ c.toNat ≤ 127 ∧ ¬ (t.column = 0 ∧ c.toNat = 32)

instance (t : Terminal κ) (c : UInt8) : Decidable (t.Drawn c) :=
  inferInstanceAs (Decidable (_ ∧ _ ∧ _))

/-- Draw a byte at the cursor, which goes on to the next column. -/
def draw (t : Terminal κ) (ink : κ) (c : UInt8) : Terminal κ :=
  { t with column := t.column + 1, glyphs := t.glyphs ++ [⟨t.column, t.row, c, ink⟩] }

variable (columns rows : ℕ)

/-- Go to the first column of the next row; behind the last row the page is cleared. -/
def nextRow (t : Terminal κ) : Terminal κ :=
  if t.row + 1 < rows then { t with column := 0, row := t.row + 1 } else page

/-- Handle one byte. -/
def put (t : Terminal κ) (ink : κ) (c : UInt8) : Terminal κ :=
  if c.toNat = 10 then t.nextRow rows
  else if c.toNat = 13 then { t with column := 0 }
  else if t.Drawn c then
    if t.column + 1 < columns then t.draw ink c else (t.draw ink c).nextRow rows
  else t

/-- Handle a sequence of bytes. -/
def run (t : Terminal κ) (bytes : List (UInt8 × κ)) : Terminal κ :=
  bytes.foldl (fun t b => t.put columns rows b.2 b.1) t

/-- A byte that uses up the last row. -/
def Fills (t : Terminal κ) (c : UInt8) : Prop :=
  rows ≤ t.row + 1 ∧ (c.toNat = 10 ∨ (t.Drawn c ∧ columns ≤ t.column + 1))

instance (t : Terminal κ) (c : UInt8) : Decidable (t.Fills columns rows c) :=
  inferInstanceAs (Decidable (_ ∧ _))

/-- The cursor is on the grid. -/
structure InGrid (t : Terminal κ) : Prop where
  column_lt : t.column < columns
  row_lt : t.row < rows

/-- The glyphs on the screen are on the grid. -/
def Contained (t : Terminal κ) : Prop := ∀ g ∈ t.glyphs, g.column < columns ∧ g.row < rows

variable {columns rows} {t : Terminal κ} {ink : κ} {c : UInt8}

@[simp] theorem nextRow_column : (t.nextRow rows).column = 0 := by
  rw [nextRow]
  split <;> rfl

/-- The next row is one of the page. -/
theorem nextRow_row_lt (h : 0 < rows) : (t.nextRow rows).row < rows := by
  rw [nextRow]
  split
  · assumption
  · exact h

/-- Behind the last row the page is cleared. -/
theorem nextRow_of_le (h : rows ≤ t.row + 1) : t.nextRow rows = page :=
  if_neg (Nat.not_lt.mpr h)

/-- The start of the next row is on the grid. -/
theorem InGrid.nextRow (hcolumns : 0 < columns) (hrows : 0 < rows) :
    InGrid columns rows (t.nextRow rows) :=
  ⟨by rw [nextRow_column]; exact hcolumns, nextRow_row_lt hrows⟩

/-- **The cursor stays on the grid.** -/
theorem InGrid.put (h : InGrid columns rows t) (ink : κ) (c : UInt8) :
    InGrid columns rows (t.put columns rows ink c) := by
  have hcolumns : 0 < columns := Nat.zero_lt_of_lt h.column_lt
  have hrows : 0 < rows := Nat.zero_lt_of_lt h.row_lt
  rw [Terminal.put]
  split
  · exact .nextRow hcolumns hrows
  split
  · exact ⟨hcolumns, h.row_lt⟩
  split
  · split
    · exact ⟨by assumption, h.row_lt⟩
    · exact .nextRow hcolumns hrows
  · exact h

/-- The glyphs stay on the grid, or are cleared. -/
theorem Contained.nextRow (h : t.Contained columns rows) :
    (t.nextRow rows).Contained columns rows := by
  rw [Terminal.nextRow]
  split
  · exact h
  · exact fun g hg => by cases hg

/-- **The glyphs stay on the grid.** -/
theorem InGrid.contained (h : InGrid columns rows t) (hall : t.Contained columns rows) (ink : κ)
    (c : UInt8) : (t.put columns rows ink c).Contained columns rows := by
  have hdraw : (t.draw ink c).Contained columns rows := by
    intro g hg
    rcases List.mem_append.mp hg with hg | hg
    · exact hall g hg
    · obtain rfl := List.mem_singleton.mp hg
      exact ⟨h.column_lt, h.row_lt⟩
  rw [Terminal.put]
  split
  · exact hall.nextRow
  split
  · exact hall
  split
  · split
    · exact hdraw
    · exact hdraw.nextRow
  · exact hall

/-- **A full page** is cleared. -/
theorem put_of_fills (h : t.Fills columns rows c) : t.put columns rows ink c = page := by
  obtain ⟨hrows, hc | ⟨hdrawn, hcolumns⟩⟩ := h
  · rw [put, if_pos hc, nextRow_of_le hrows]
  · have hlo := hdrawn.1
    rw [put, if_neg (by omega), if_neg (by omega), if_pos hdrawn,
      if_neg (Nat.not_lt.mpr hcolumns)]
    exact nextRow_of_le hrows

/-- A byte that can fill a page leaves a blank page as it is only if it is a space. -/
theorem page_put_eq_iff (hrows : 2 ≤ rows) (hc : t.Fills columns rows c) :
    ((page.put columns rows ink c : Terminal κ).column = 0 ∧
      (page.put columns rows ink c : Terminal κ).row = 0) ↔ c.toNat = 32 := by
  rcases hc with ⟨-, hlf | ⟨hdrawn, -⟩⟩
  · have hnext : (page.nextRow rows : Terminal κ) = ⟨0, 1, true, []⟩ := if_pos hrows
    rw [put, if_pos hlf, hnext, hlf]
    simp
  · obtain ⟨hlo, hhi, -⟩ := hdrawn
    rw [put, if_neg (by omega), if_neg (by omega)]
    by_cases hspace : c.toNat = 32
    · have hblank : ¬ (page : Terminal κ).Drawn c := fun h => h.2.2 ⟨rfl, hspace⟩
      rw [if_neg hblank]
      exact iff_of_true ⟨rfl, rfl⟩ hspace
    · have hdrawn : (page : Terminal κ).Drawn c := ⟨hlo, hhi, fun h => hspace h.2⟩
      rw [if_pos hdrawn]
      refine iff_of_false ?_ hspace
      split
      · simp [draw, page]
      · have hnext : ((page.draw ink c).nextRow rows : Terminal κ).row = 1 := by
          rw [nextRow, if_pos]
          · rfl
          · exact hrows
        rw [hnext]
        simp

/-- Bytes that leave a blank page alone. -/
theorem page_put_space (hc : c.toNat = 32) : (page.put columns rows ink c : Terminal κ) = page := by
  have hblank : ¬ (page : Terminal κ).Drawn c := fun h => h.2.2 ⟨rfl, hc⟩
  rw [put, if_neg (by omega), if_neg (by omega), if_neg hblank]

/-- A byte that leaves its row uses up the page if there is no other row. -/
theorem fills_iff (hleaves : c.toNat = 10 ∨ (t.Drawn c ∧ columns ≤ t.column + 1)) :
    t.Fills columns rows c ↔ rows ≤ t.row + 1 :=
  ⟨fun h => h.1, fun hrows => ⟨hrows, hleaves⟩⟩

/-- A byte that stays in its row uses up no page. -/
theorem not_fills_of_stays (hlf : c.toNat ≠ 10) (hroom : t.Drawn c → t.column + 1 < columns) :
    ¬ t.Fills columns rows c := by
  rintro ⟨-, hlf' | ⟨hdrawn, hle⟩⟩
  · exact hlf hlf'
  · exact Nat.not_le_of_lt (hroom hdrawn) hle

/-- A blank page of two rows is not used up by one byte. -/
theorem not_fills_page (hrows : 2 ≤ rows) : ¬ (page : Terminal κ).Fills columns rows c :=
  fun h => Nat.not_succ_le_self 1 (Nat.le_trans hrows h.1)

/-- One more byte. -/
theorem run_append (t : Terminal κ) (bytes : List (UInt8 × κ)) (b : UInt8 × κ) :
    t.run columns rows (bytes ++ [b]) = (t.run columns rows bytes).put columns rows b.2 b.1 :=
  List.foldl_concat _ _ _ _

end Terminal
