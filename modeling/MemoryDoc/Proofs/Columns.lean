/-
# Columns of tables

The cells of a row are placed in the columns that are not held by cells of the rows above.  How long a
column is held is counted down row by row, and a cell that spans rows begins to count anew in each of
its columns, also where an older cell reaches down further.

Main statement: each cell starts in the first column behind the cell before it that the last cell with
rows to span there does not hold, and these are the columns that no cell of the rows above covers if
none of them is cut short (`tableOf_columns`).
-/
import MemoryDoc.Macro.TableText
import MemoryDoc.Text.Reader
import Mathlib.Data.List.Induction

namespace MemoryDoc.TableText

open Site (Cell Table)

/-! ## Where cells are -/

/-- The cell is in the column. -/
def Placed.Over (p : Placed) (column : Nat) : Prop :=
  p.column ≤ column ∧ column < p.column + p.cell.colspan

instance (p : Placed) (column : Nat) : Decidable (p.Over column) :=
  inferInstanceAs (Decidable (_ ∧ _))

/-- Row `r` has the cell. -/
def Has (placed : List (List Placed)) (r : Nat) (p : Placed) : Prop :=
  ∃ row, placed[r]? = some row ∧ p ∈ row

/-- Below the rows `above`, a cell of one of them covers the column. -/
def Covers (above : List (List Placed)) (column : Nat) : Prop :=
  ∃ r p, Has above r p ∧ p.Over column ∧ above.length < r + p.cell.rowspan

/-- The last cell that spans rows in the column is `p` in row `r`. -/
structure Last (above : List (List Placed)) (column r : Nat) (p : Placed) : Prop where
  has : Has above r p
  isOver : p.Over column
  spans : 1 < p.cell.rowspan
  le_of_has : ∀ r' q, Has above r' q → q.Over column → 1 < q.cell.rowspan → r' ≤ r

/-- Below the rows `above`, the last cell that spans rows in the column reaches down to it. -/
def Held (above : List (List Placed)) (column : Nat) : Prop :=
  ∃ r p, Last above column r p ∧ above.length < r + p.cell.rowspan

/-- A cell that spans rows reaches down as far as the cells of the rows above it that it meets. -/
def Uncut (placed : List (List Placed)) : Prop :=
  ∀ r r' p q column, Has placed r p → Has placed r' q → r < r' → p.Over column → q.Over column →
    1 < q.cell.rowspan → r + p.cell.rowspan ≤ r' + q.cell.rowspan

/-- The column is the first from `start` on that is not taken. -/
structure FirstFree (taken : Nat → Prop) (start column : Nat) : Prop where
  start_le : start ≤ column
  free : ¬ taken column
  taken_of_lt : ∀ c, start ≤ c → c < column → taken c

/-- Each cell is in the first column behind the cell before it that is not taken. -/
def InFirstFree (taken : Nat → Prop) : (start : Nat) → List Placed → Prop
  | _, [] => True
  | start, p :: ps =>
    FirstFree taken start p.column ∧ InFirstFree taken (p.column + p.cell.colspan) ps

variable {taken taken' : Nat → Prop} {start column r : Nat} {p q : Placed} {ps row : List Placed}
  {above placed : List (List Placed)} {covered : Covered}

theorem FirstFree.congr (h : FirstFree taken start column) (hsame : ∀ c, taken c ↔ taken' c) :
    FirstFree taken' start column where
  start_le := h.start_le
  free := fun htaken => h.free ((hsame column).2 htaken)
  taken_of_lt c hc hlt := (hsame c).1 (h.taken_of_lt c hc hlt)

theorem InFirstFree.congr (h : InFirstFree taken start ps) (hsame : ∀ c, taken c ↔ taken' c) :
    InFirstFree taken' start ps := by
  induction ps generalizing start with
  | nil => trivial
  | cons p ps ih => exact ⟨h.1.congr hsame, ih h.2⟩

/-- Cells of a row start behind those before them. -/
theorem InFirstFree.start_le (h : InFirstFree taken start ps) (hp : p ∈ ps) : start ≤ p.column := by
  induction ps generalizing start with
  | nil => cases hp
  | cons first ps ih =>
    have hfirst := h.1.start_le
    rcases List.mem_cons.1 hp with rfl | hp
    · exact hfirst
    · have hle := ih h.2 hp
      omega

/-! ## Counting down -/

/-- The number of further rows for which a column is covered. -/
def Covered.rows (covered : Covered) (column : Nat) : Nat :=
  covered.getD column 0

theorem Covered.rows_map_pred (covered : Covered) (column : Nat) :
    Covered.rows (covered.map (· - 1)) column = covered.rows column - 1 := by
  unfold Covered.rows
  rw [List.getD_eq_getElem?_getD, List.getD_eq_getElem?_getD, List.getElem?_map]
  cases covered[column]? <;> rfl

/-- Only the columns from `start` up to `stop` are covered anew. -/
theorem Covered.rows_cover (covered : Covered) {stop : Nat} (hle : start ≤ stop) (rows column : Nat) :
    (covered.cover start stop rows).rows column =
      if start ≤ column ∧ column < stop then rows else covered.rows column := by
  have hfront : (covered.take start ++ List.replicate (start - covered.length) 0).length = start := by
    simp
    omega
  unfold Covered.rows Covered.cover
  rw [List.getD_eq_getElem?_getD, List.getD_eq_getElem?_getD, List.append_assoc]
  by_cases hstart : start ≤ column
  · rw [List.getElem?_append_right (by omega), hfront]
    by_cases hstop : column < stop
    · rw [if_pos ⟨hstart, hstop⟩, List.getElem?_append_left (by simp; omega),
        List.getElem?_replicate_of_lt (by omega)]
      rfl
    · rw [if_neg (by omega), List.getElem?_append_right (by simp; omega), List.length_replicate,
        List.getElem?_drop]
      congr 2
      omega
  · -- The columns in front stay, and there are zeros where there were none.
    rw [if_neg (by omega), List.getElem?_append_left (by omega)]
    by_cases hlength : column < covered.length
    · rw [List.getElem?_append_left (by simp; omega), List.getElem?_take_of_lt (by omega)]
    · rw [List.getElem?_append_right (by simp; omega),
        List.getElem?_eq_none (by omega : covered.length ≤ column),
        List.getElem?_replicate_of_lt (by simp; omega)]
      rfl

/-- A cell that spans rows covers its columns in the rows below. -/
theorem Covered.rows_coverBy (covered : Covered) (p : Placed) (column : Nat) :
    (covered.coverBy p).rows column =
      if p.Over column ∧ 1 < p.cell.rowspan then p.cell.rowspan - 1 else covered.rows column := by
  unfold Covered.coverBy
  by_cases hspans : 1 < p.cell.rowspan
  · rw [if_pos hspans, Covered.rows_cover _ (Nat.le_add_right _ _)]
    simp [Placed.Over, hspans]
  · rw [if_neg hspans]
    simp [hspans]

/-- The column that is found is the first that is not covered. -/
theorem Covered.firstFree_free (covered : Covered) (start : Nat) :
    FirstFree (fun c => 0 < covered.rows c) start (covered.free start) := by
  -- The columns from the start on: those that are covered, and then the free one.
  have hsplit : (covered.drop start).takeWhile (0 < ·) ++ (covered.drop start).dropWhile (0 < ·) =
      covered.drop start := List.takeWhile_append_dropWhile
  unfold Covered.free Covered.rows
  generalize htaken : (covered.drop start).takeWhile (0 < ·) = front at hsplit
  constructor
  · exact Nat.le_add_right _ _
  · rw [List.getD_eq_getElem?_getD, ← List.getElem?_drop, ← hsplit,
      List.getElem?_append_right (Nat.le_refl _), Nat.sub_self, ← List.head?_eq_getElem?]
    have hnot := List.head?_dropWhile_not (fun n => decide (0 < n)) (covered.drop start)
    cases hhead : ((covered.drop start).dropWhile (0 < ·)).head? with
    | none => exact Nat.lt_irrefl 0
    | some n =>
      rw [hhead] at hnot
      simpa using hnot
  · intro c hc hlt
    obtain ⟨k, rfl⟩ := Nat.exists_eq_add_of_le hc
    have hk : k < front.length := by omega
    have hmem : front[k] ∈ (covered.drop start).takeWhile (0 < ·) := htaken ▸ List.getElem_mem hk
    rw [List.getD_eq_getElem?_getD, ← List.getElem?_drop, ← hsplit, List.getElem?_append_left hk,
      List.getElem?_eq_getElem hk]
    have := List.all_eq_true.1 List.all_takeWhile _ hmem
    simpa using this

/-! ## One row -/

/-- What is known of the cells that are placed and of the columns that are covered below them. -/
structure Places (covered below : Covered) (start : Nat) (cells : List Cell)
    (result : List Placed × Covered) : Prop where
  cells_eq : result.1.map (·.cell) = cells
  inFirstFree : InFirstFree (fun c => 0 < covered.rows c) start result.1
  rows_of_over : ∀ p ∈ result.1, ∀ column, p.Over column → 1 < p.cell.rowspan →
    result.2.rows column = p.cell.rowspan - 1
  rows_of_not_over : ∀ column, (∀ p ∈ result.1, p.Over column → ¬ 1 < p.cell.rowspan) →
    result.2.rows column = below.rows column

theorem places_placeCells (covered : Covered) (start : Nat) (below : Covered) (cells : List Cell) :
    Places covered below start cells (placeCells covered start below cells) := by
  induction cells generalizing start below with
  | nil => exact ⟨rfl, trivial, nofun, fun _ _ => rfl⟩
  | cons cell cells ih =>
    have hrest := ih (covered.free start + cell.colspan) (below.coverBy ⟨covered.free start, cell⟩)
    refine ⟨congrArg (cell :: ·) hrest.cells_eq,
      ⟨covered.firstFree_free start, hrest.inFirstFree⟩, ?_, ?_⟩
    · intro p hp column hover hspans
      rcases List.mem_cons.1 hp with rfl | hp
      · -- The cells behind the first do not reach back into its columns.
        have hnone : ∀ q ∈ (placeCells covered (covered.free start + cell.colspan)
            (below.coverBy ⟨covered.free start, cell⟩) cells).1,
            q.Over column → ¬ 1 < q.cell.rowspan := by
          intro q hq hq_over
          have hle := hrest.inFirstFree.start_le hq
          have hlt := hover.2
          have := hq_over.1
          simp only at hlt
          omega
        have hrows := hrest.rows_of_not_over column hnone
        rw [Covered.rows_coverBy, if_pos ⟨hover, hspans⟩] at hrows
        exact hrows
      · exact hrest.rows_of_over p hp column hover hspans
    · intro column hnone
      have hrows := hrest.rows_of_not_over column fun q hq => hnone q (List.mem_cons_of_mem _ hq)
      rw [Covered.rows_coverBy, if_neg fun h => hnone _ List.mem_cons_self h.1 h.2] at hrows
      exact hrows

/-! ## One row more -/

theorem Has.lt (h : Has above r p) : r < above.length := by
  obtain ⟨row, hrow, -⟩ := h
  exact (List.getElem?_eq_some_iff.1 hrow).1

theorem has_append : Has (above ++ [row]) r p ↔ Has above r p ∨ r = above.length ∧ p ∈ row := by
  unfold Has
  grind

/-- A cell of the last row that spans rows is the last. -/
theorem last_append (hp : p ∈ row) (hover : p.Over column) (hspans : 1 < p.cell.rowspan) :
    Last (above ++ [row]) column above.length p where
  has := has_append.2 (.inr ⟨rfl, hp⟩)
  isOver := hover
  spans := hspans
  le_of_has r' q hq _ _ := by
    have hlt := hq.lt
    rw [List.length_append, List.length_singleton] at hlt
    omega

/-- A row without a cell that spans rows in the column changes nothing there. -/
theorem last_append_iff (hnone : ∀ q ∈ row, q.Over column → ¬ 1 < q.cell.rowspan) :
    Last (above ++ [row]) column r p ↔ Last above column r p := by
  have hhas : ∀ r' q, q.Over column → 1 < q.cell.rowspan →
      (Has (above ++ [row]) r' q ↔ Has above r' q) := by
    intro r' q hover hspans
    rw [has_append]
    constructor
    · rintro (h | ⟨-, hq⟩)
      · exact h
      · exact absurd hspans (hnone q hq hover)
    · exact .inl
  constructor
  · intro h
    refine ⟨(hhas r p h.isOver h.spans).1 h.has, h.isOver, h.spans, fun r' q hq hover hspans => ?_⟩
    exact h.le_of_has r' q ((hhas r' q hover hspans).2 hq) hover hspans
  · intro h
    refine ⟨(hhas r p h.isOver h.spans).2 h.has, h.isOver, h.spans, fun r' q hq hover hspans => ?_⟩
    exact h.le_of_has r' q ((hhas r' q hover hspans).1 hq) hover hspans

/-- The number of rows for which each column is still covered is told by its last cell. -/
structure Counts (above : List (List Placed)) (covered : Covered) : Prop where
  rows_of_last : ∀ column r p, Last above column r p →
    covered.rows column = r + p.cell.rowspan - above.length
  rows_of_not_last : ∀ column, (¬ ∃ r p, Last above column r p) → covered.rows column = 0

theorem counts_nil : Counts [] [] where
  rows_of_last column r p h := by
    have hlt := h.has.lt
    cases hlt
  rows_of_not_last _ _ := rfl

/-- **A row is counted down, and its cells that span rows begin to count.** -/
theorem Counts.append (h : Counts above covered) {cells : List Cell}
    {result : List Placed × Covered}
    (hplaces : Places covered (covered.map (· - 1)) 0 cells result) :
    Counts (above ++ [result.1]) result.2 := by
  have hlength : (above ++ [result.1]).length = above.length + 1 := by simp
  constructor
  · intro column r p hlast
    rw [hlength]
    -- The last cell with a rowspan over the column is one of the new row, or the one of before.
    by_cases hnew : ∃ q ∈ result.1, q.Over column ∧ 1 < q.cell.rowspan
    · obtain ⟨q, hq, hover, hspans⟩ := hnew
      have hle := hlast.le_of_has _ q (has_append.2 (.inr ⟨rfl, hq⟩)) hover hspans
      rcases has_append.1 hlast.has with hhas | ⟨rfl, hp⟩
      · have := hhas.lt
        omega
      · rw [hplaces.rows_of_over p hp column hlast.isOver hlast.spans]
        omega
    · have hnone : ∀ q ∈ result.1, q.Over column → ¬ 1 < q.cell.rowspan :=
        fun q hq hover hspans => hnew ⟨q, hq, hover, hspans⟩
      rw [last_append_iff hnone] at hlast
      rw [hplaces.rows_of_not_over column hnone, Covered.rows_map_pred,
        h.rows_of_last column r p hlast]
      omega
  · intro column hno
    have hnone : ∀ q ∈ result.1, q.Over column → ¬ 1 < q.cell.rowspan :=
      fun q hq hover hspans => hno ⟨_, q, last_append hq hover hspans⟩
    rw [hplaces.rows_of_not_over column hnone, Covered.rows_map_pred, h.rows_of_not_last column]
    rintro ⟨r, p, hlast⟩
    exact hno ⟨r, p, (last_append_iff hnone).2 hlast⟩

/-- A column is covered if its last cell that spans rows reaches down so far. -/
theorem Counts.held_iff (h : Counts above covered) (column : Nat) :
    0 < covered.rows column ↔ Held above column := by
  constructor
  · intro hpos
    by_cases hlast : ∃ r p, Last above column r p
    · obtain ⟨r, p, hlast⟩ := hlast
      rw [h.rows_of_last column r p hlast] at hpos
      exact ⟨r, p, hlast, by omega⟩
    · rw [h.rows_of_not_last column hlast] at hpos
      exact absurd hpos (Nat.lt_irrefl 0)
  · rintro ⟨r, p, hlast, hlt⟩
    rw [h.rows_of_last column r p hlast]
    omega

/-! ## All rows -/

theorem cells_placeRows (covered : Covered) (rows : List (List Cell)) :
    (placeRows covered rows).map (·.map (·.cell)) = rows := by
  induction rows generalizing covered with
  | nil => rfl
  | cons cells rows ih =>
    have hplaces := places_placeCells covered 0 (covered.map (· - 1)) cells
    exact congrArg₂ (· :: ·) hplaces.cells_eq (ih _)

/-- **Cells are placed where no last cell that spans rows holds the column.** -/
theorem inFirstFree_placeRows (hcounts : Counts above covered) {rows : List (List Cell)}
    (hrow : (placeRows covered rows)[r]? = some row) :
    InFirstFree (Held (above ++ (placeRows covered rows).take r)) 0 row := by
  induction rows generalizing above covered r with
  | nil => cases hrow
  | cons cells rows ih =>
    have hplaces := places_placeCells covered 0 (covered.map (· - 1)) cells
    cases r with
    | zero =>
      cases hrow
      rw [List.take_zero, List.append_nil]
      exact hplaces.inFirstFree.congr hcounts.held_iff
    | succ r =>
      have hnext := ih (hcounts.append hplaces) hrow
      rwa [List.append_assoc, List.singleton_append] at hnext

/-! ## Cells that are not cut short -/

theorem covers_of_held (h : Held above column) : Covers above column := by
  obtain ⟨r, p, hlast, hlt⟩ := h
  exact ⟨r, p, hlast.has, hlast.isOver, hlt⟩

/-- A cell that spans rows is the last in its columns, or the last is in a row below. -/
theorem Has.exists_last (h : Has above r p) (hover : p.Over column) (hspans : 1 < p.cell.rowspan) :
    ∃ r' q, Last above column r' q ∧ (r < r' ∨ r' = r ∧ q = p) := by
  induction above using List.reverseRecOn with
  | nil => exact absurd h.lt (Nat.not_lt_zero r)
  | append_singleton above row ih =>
    rcases has_append.1 h with hhas | ⟨rfl, hp⟩
    · by_cases hnew : ∃ q ∈ row, q.Over column ∧ 1 < q.cell.rowspan
      · obtain ⟨q, hq, hq_over, hq_spans⟩ := hnew
        exact ⟨_, q, last_append hq hq_over hq_spans, .inl hhas.lt⟩
      · obtain ⟨r', q, hlast, hle⟩ := ih hhas
        have hnone : ∀ q ∈ row, q.Over column → ¬ 1 < q.cell.rowspan :=
          fun q hq hover hspans => hnew ⟨q, hq, hover, hspans⟩
        exact ⟨r', q, (last_append_iff hnone).2 hlast, hle⟩
    · exact ⟨_, p, last_append hp hover hspans, .inr ⟨rfl, rfl⟩⟩

/-- Where no cell is cut short, the last cells hold all columns that are covered. -/
theorem Uncut.held_of_covers (h : Uncut above) (hcovers : Covers above column) :
    Held above column := by
  obtain ⟨r, p, hhas, hover, hlt⟩ := hcovers
  have hspans : 1 < p.cell.rowspan := by
    have := hhas.lt
    omega
  obtain ⟨r', q, hlast, hbelow | ⟨rfl, rfl⟩⟩ := hhas.exists_last hover hspans
  · have hle := h r r' p q column hhas hlast.has hbelow hover hlast.isOver hlast.spans
    exact ⟨r', q, hlast, by omega⟩
  · exact ⟨r', q, hlast, hlt⟩

/-- **Cells pass over the columns that the last cells above them hold.**  The cells of a table are
those that are written, each with the class of the column that it starts in.  That column is the first
behind the cell before it that is not held: a column is held if the last cell above that spans rows
there reaches down to it, so a column that is held is covered.  If no cell above the row was cut short
by one that spans less rows in the same column, each cell starts in the first column that no cell above
covers. -/
theorem tableOf_columns {body cls : Text} {classes : List Text} {table : Table}
    (h : tableOf body cls classes = .ok table) :
    ∃ rows, rowsOf body = .ok rows ∧ (placeRows [] rows).map (·.map (·.cell)) = rows ∧
      table = ⟨cls, (placeRows [] rows).map
        (·.map fun p => { p.cell with cls := (classes[p.column]?).getD [] })⟩ ∧
      ∀ r row, (placeRows [] rows)[r]? = some row →
        InFirstFree (Held ((placeRows [] rows).take r)) 0 row ∧
        (∀ column, Held ((placeRows [] rows).take r) column →
          Covers ((placeRows [] rows).take r) column) ∧
        (Uncut ((placeRows [] rows).take r) →
          InFirstFree (Covers ((placeRows [] rows).take r)) 0 row) := by
  obtain ⟨rows, hrows, h⟩ := Reader.outcome_bind_eq_ok.1 h
  cases h
  refine ⟨rows, hrows, cells_placeRows [] rows, rfl, fun r row hrow => ?_⟩
  have hheld := inFirstFree_placeRows counts_nil hrow
  rw [List.nil_append] at hheld
  refine ⟨hheld, fun column => covers_of_held, fun huncut => ?_⟩
  exact hheld.congr fun column => ⟨covers_of_held, huncut.held_of_covers⟩

/-- A cell of two rows and two columns is passed over in the second row. -/
def spanning : Text := "\x7b =c2,r2 A | B \x7d \x7b C | =h D \x7d"

theorem tableOf_columns_spanning :
    tableOf spanning [] ["a".toList, "b".toList, "c".toList] = .ok ⟨[],
      [[{ contents := "A", colspan := 2, rowspan := 2, cls := "a" }, { contents := "B", cls := "c" }],
        [{ contents := "C", cls := "c" }, { contents := "D", header := true }]]⟩ ∧
    ∃ rows, rowsOf spanning = .ok rows ∧
      (placeRows [] rows).map (·.map (·.column)) = [[0, 2], [2, 3]] ∧
      ∀ row, (placeRows [] rows)[1]? = some row →
        InFirstFree (Covers ((placeRows [] rows).take 1)) 0 row := by
  have htable : tableOf spanning [] ["a".toList, "b".toList, "c".toList] = .ok ⟨[],
      [[{ contents := "A", colspan := 2, rowspan := 2, cls := "a" }, { contents := "B", cls := "c" }],
        [{ contents := "C", cls := "c" }, { contents := "D", header := true }]]⟩ := by
    decide +kernel
  obtain ⟨rows, hrows, -, -, hplaced⟩ := tableOf_columns htable
  have hcolumns : (rowsOf spanning).map (fun rows => (placeRows [] rows).map (·.map (·.column))) =
      .ok [[0, 2], [2, 3]] := by
    decide +kernel
  rw [hrows] at hcolumns
  refine ⟨htable, rows, hrows, Except.ok.inj hcolumns, fun row hrow => ?_⟩
  refine (hplaced 1 row hrow).2.2 fun r r' p q _ hp hq hlt _ _ _ => ?_
  -- There is one row above, so that none of its cells is cut short.
  have := hp.lt
  have := hq.lt
  rw [List.length_take] at *
  omega

/-- A cell of four rows is cut short by one of two rows that is put over it. -/
def cutShort : Text :=
  "\x7b A | =r4 B \x7d \x7b =c2,r2 C \x7d \x7b D \x7d \x7b E | F \x7d"

/-- A cell may start in a column that a cell of the rows above covers. -/
theorem exists_covered_column :
    ∃ rows row p, rowsOf cutShort = .ok rows ∧ (placeRows [] rows)[3]? = some row ∧ p ∈ row ∧
      p.cell.contents = "F".toList ∧ Covers ((placeRows [] rows).take 3) p.column := by
  have hrows : rowsOf cutShort = .ok
      [[{ contents := "A" }, { contents := "B", rowspan := 4 }],
        [{ contents := "C", colspan := 2, rowspan := 2 }], [{ contents := "D" }],
        [{ contents := "E" }, { contents := "F" }]] := by
    decide +kernel
  refine ⟨_, _, ⟨1, { contents := "F" }⟩, hrows, rfl, by decide, rfl, ?_⟩
  exact ⟨0, ⟨1, { contents := "B", rowspan := 4 }⟩, ⟨_, rfl, by decide⟩, by decide, by decide⟩

end MemoryDoc.TableText
