/-
# Printed tables

Tables are printed row by row.  Each cell begins with a marker that tells all that is known of it, bars
stand between the cells of a row, and the rows are set off by blanks.  What is written in a cell must
not be taken for anything else: its bars are inside brackets, no closing brace in it is set off, and
the word that ends a table is not in it.

Main statement: what is printed is read as the table that was printed, and the macro around it turns
into that table and leaves what is behind the word that ends it (`tableOf_text`).
-/
import MemoryDoc.Expansion
import MemoryDoc.Proofs.Columns
import MemoryDoc.Proofs.PrintedParameters
import MemoryDoc.Text.Word
import Mathlib.Data.List.TakeWhile

namespace MemoryDoc.TableText

open Site (Cell Table)
open Text (isBlank isAsciiBlank Balanced Closes)

/-! ## Tables that can be printed -/

/-- No closing brace in the text is set off, between the characters before and behind the text. -/
def Unclosed (prev : Option Char) (t : Text) (next : Option Char) : Prop :=
  ∀ before after, t = before ++ '}' :: after →
    ¬ (setsOff (before.getLast?.or prev) = true ∧ setsOff (after.head?.or next) = true)

/-- The text is in one cell: its brackets are balanced, and its bars are inside them. -/
structure InCell (t : Text) : Prop where
  balanced : Balanced t
  bar_inside : ∀ before after, t = before ++ '|' :: after → before.count ')' < before.count '('

/-- The text has no blanks at its ends. -/
structure Tight (t : Text) : Prop where
  head : ∀ c ∈ t.head?, isBlank c = false
  last : ∀ c ∈ t.getLast?, isBlank c = false

/-- What holds wherever a character is in a text can be checked at each place. -/
theorem forall_eq_append_cons_iff {t : Text} {c : Char} {P : Text → Text → Prop} :
    (∀ before after, t = before ++ c :: after → P before after) ↔
      ∀ k < t.length, t[k]? = some c → P (t.take k) (t.drop (k + 1)) := by
  constructor
  · intro h k hk hc
    apply h
    obtain ⟨-, rfl⟩ := List.getElem?_eq_some_iff.1 hc
    rw [← List.drop_eq_getElem_cons hk, List.take_append_drop]
  · rintro h before after rfl
    simpa using h before.length (by simp)

instance (prev : Option Char) (t : Text) (next : Option Char) : Decidable (Unclosed prev t next) :=
  decidable_of_iff _ forall_eq_append_cons_iff.symm

instance (t : Text) : Decidable (InCell t) :=
  decidable_of_iff (Reader.closing (t ++ [')']) = some (t, []) ∧
      ∀ k < t.length, t[k]? = some '|' → (t.take k).count ')' < (t.take k).count '(')
    ⟨fun h => ⟨(Reader.closing_eq_some_iff.1 h.1).1, forall_eq_append_cons_iff.2 h.2⟩,
      fun h => ⟨Reader.closing_eq_some_iff.2 ⟨h.balanced, rfl⟩,
        forall_eq_append_cons_iff.1 h.bar_inside⟩⟩

/-- A text is tight if neither its first nor its last character is blank. -/
theorem tight_iff {t : Text} :
    t.head?.all (!isBlank ·) = true ∧ t.getLast?.all (!isBlank ·) = true ↔ Tight t := by
  have hall (o : Option Char) : o.all (!isBlank ·) = true ↔ ∀ c ∈ o, isBlank c = false := by
    cases o <;> simp
  rw [hall, hall]
  exact ⟨fun h => ⟨h.1, h.2⟩, fun h => ⟨h.head, h.last⟩⟩

instance (t : Text) : Decidable (Tight t) :=
  decidable_of_iff _ tight_iff

/-- A cell that can be printed. -/
structure WrittenCell where
  contents : Text
  header : Bool := false
  transparent : Bool := false
  colspan : UInt32 := 1
  rowspan : UInt32 := 1
  colspan_pos : 0 < colspan := by decide
  rowspan_pos : 0 < rowspan := by decide
  tight : Tight contents := by decide
  inCell : InCell contents := by decide
  unclosed : Unclosed none contents none := by decide
  unended : ¬ "TABLE#".toList <:+: contents := by decide +kernel

namespace WrittenCell

/-- The cell, without a class. -/
def cell (w : WrittenCell) : Cell where
  contents := w.contents
  header := w.header
  transparent := w.transparent
  colspan := w.colspan.toNat
  rowspan := w.rowspan.toNat

/-- What the marker of the cell tells. -/
def indicators (w : WrittenCell) : List Text :=
  ['c' :: Numeral.decimal w.colspan.toNat, 'r' :: Numeral.decimal w.rowspan.toNat]
    ++ (if w.header then [['h']] else []) ++ (if w.transparent then [['t']] else [])

def marker (w : WrittenCell) : Text :=
  Text.join "," w.indicators

/-- The cell as it is printed. -/
def text (w : WrittenCell) : Text :=
  '=' :: (w.marker ++ ' ' :: w.contents)

end WrittenCell

/-- The row as it is printed. -/
def rowText (row : List WrittenCell) : Text :=
  "\x7b " ++ Text.join " | " (row.map WrittenCell.text) ++ " \x7d"

/-- The text can stand between two rows: it has only blanks, and sets off the braces at its ends. -/
structure Apart (gap : Text) : Prop where
  ne_nil : gap ≠ []
  blank : ∀ c ∈ gap, isBlank c = true
  head : setsOff gap.head? = true
  last : setsOff gap.getLast? = true

/-- A table that can be printed: the first row, and the others with what stands in front of them. -/
structure WrittenTable where
  first : List WrittenCell
  others : List (Text × List WrittenCell)
  first_ne_nil : first ≠ []
  ne_nil : ∀ other ∈ others, other.2 ≠ []
  apart : ∀ other ∈ others, Apart other.1

namespace WrittenTable

def rows (t : WrittenTable) : List (List Cell) :=
  (t.first :: t.others.map (·.2)).map (·.map WrittenCell.cell)

/-- The rows behind the first as they are printed. -/
def othersText (others : List (Text × List WrittenCell)) : Text :=
  others.flatMap fun other => other.1 ++ rowText other.2

/-- The table as it is printed. -/
def text (t : WrittenTable) : Text :=
  rowText t.first ++ othersText t.others

end WrittenTable

variable {t u : Text} {prev next : Option Char} {depth : Nat} {row : List WrittenCell}

/-! ## Blanks at the ends -/

/-- Blanks in front are trimmed away. -/
theorem trimmed_append_left {front : Text} (h : ∀ c ∈ front, isBlank c = true) (t : Text) :
    trimmed (front ++ t) = trimmed t := by
  unfold trimmed Text.trim Text.trimFront
  rw [List.dropWhile_append_of_pos h]

theorem trimmed_append_right {back : Text} (h : ∀ c ∈ back, isBlank c = true) (t : Text) :
    trimmed (t ++ back) = trimmed t := by
  have hnone : back.dropWhile isBlank = [] := List.dropWhile_eq_nil_iff.2 h
  have hreverse : ∀ c ∈ back.reverse, isBlank c = true := fun c hc => h c (List.mem_reverse.1 hc)
  unfold trimmed Text.trim Text.trimFront
  rw [List.dropWhile_append]
  split
  · next hempty => rw [hnone, List.isEmpty_iff.1 hempty]
  · rw [List.reverse_append, List.dropWhile_append_of_pos hreverse]

/-- A text without blanks at its front is not shortened there. -/
theorem dropWhile_of_head (h : ∀ c, t.head? = some c → isBlank c = false) :
    t.dropWhile isBlank = t := by
  cases t with
  | nil => rfl
  | cons c t => exact List.dropWhile_cons_of_neg (by simp [h c rfl])

/-- A tight text has nothing to be trimmed. -/
theorem Tight.trimmed_eq (h : Tight t) : trimmed t = t := by
  unfold trimmed Text.trim Text.trimFront
  rw [dropWhile_of_head h.head, dropWhile_of_head, List.reverse_reverse]
  intro c hc
  rw [List.head?_reverse] at hc
  exact h.last c hc

/-- What is left out are blanks. -/
theorem exists_trimmed (t : Text) :
    ∃ front back, (∀ c ∈ front, isBlank c = true) ∧ (∀ c ∈ back, isBlank c = true) ∧
      t = front ++ (trimmed t ++ back) := by
  refine ⟨t.takeWhile isBlank, ((t.dropWhile isBlank).reverse.takeWhile isBlank).reverse, ?_, ?_, ?_⟩
  · exact fun c hc => List.all_eq_true.1 List.all_takeWhile c hc
  · exact fun c hc => List.all_eq_true.1 List.all_takeWhile c (List.mem_reverse.1 hc)
  · unfold trimmed Text.trim Text.trimFront
    rw [← List.reverse_append, List.takeWhile_append_dropWhile, List.reverse_reverse,
      List.takeWhile_append_dropWhile]

/-! ## Bars -/

/-- A text without brackets and bars stays in its cell. -/
theorem inCell_of_not_mem (hopen : '(' ∉ t) (hclose : ')' ∉ t) (hbar : '|' ∉ t) : InCell t where
  balanced := Text.balanced_of_not_mem hopen hclose
  bar_inside := by
    rintro before after rfl
    exact absurd (by simp) hbar

/-- Cells go on behind text whose bars are all inside brackets. -/
theorem cellsFrom_append_of_closes (cell rest : Text) (h : Closes depth t)
    (hbar : ∀ before after, t = before ++ '|' :: after →
      before.count ')' < before.count '(' + depth) :
    cellsFrom depth cell (t ++ rest) = cellsFrom 0 (t.reverse ++ cell) rest := by
  -- The depth tells how many brackets are still open, and `hbar` goes along with it.
  induction t generalizing depth cell with
  | nil =>
    rw [Text.closes_nil.1 h]
    rfl
  | cons c t ih =>
    rw [List.cons_append, cellsFrom, List.reverse_cons, List.append_assoc, List.singleton_append]
    by_cases hopen : c = '('
    · subst hopen
      rw [if_pos rfl]
      apply ih _ (Text.closes_cons_open.1 h)
      rintro before after rfl
      have := hbar ('(' :: before) after rfl
      simp at this
      omega
    · rw [if_neg hopen]
      by_cases hclose : c = ')'
      · subst hclose
        obtain ⟨d, rfl, hd⟩ := Text.closes_cons_close.1 h
        rw [if_pos rfl]
        apply ih _ hd
        rintro before after rfl
        have := hbar (')' :: before) after rfl
        simp at this
        omega
      · -- A bar that is not inside brackets would end the cell.
        have hdepth : ¬ (c = '|' ∧ depth = 0) := by
          rintro ⟨rfl, rfl⟩
          have := hbar [] t rfl
          simp at this
        rw [if_neg hclose, if_neg hdepth]
        apply ih _ ((Text.closes_cons_other hopen hclose).1 h)
        rintro before after rfl
        have := hbar (c :: before) after rfl
        rwa [List.count_cons_of_ne hopen, List.count_cons_of_ne hclose] at this

/-- A text that stays in its cell is added to it. -/
theorem InCell.cellsFrom_append (h : InCell t) (cell rest : Text) :
    cellsFrom 0 cell (t ++ rest) = cellsFrom 0 (t.reverse ++ cell) rest :=
  cellsFrom_append_of_closes cell rest h.balanced h.bar_inside

/-- Texts of cells follow each other in one cell. -/
theorem InCell.append (ht : InCell t) (hu : InCell u) : InCell (t ++ u) where
  balanced := Closes.append ht.balanced hu.balanced
  bar_inside before after h := by
    have hcount := ht.balanced.count_eq
    rcases List.append_eq_append_iff.1 h with ⟨v, rfl, hv⟩ | ⟨v, rfl, hv⟩
    · have := hu.bar_inside v after hv
      rw [List.count_append, List.count_append]
      omega
    · cases v with
      | nil =>
        have := hu.bar_inside [] after hv.symm
        simp at this
      | cons c v =>
        cases hv
        exact ht.bar_inside before v rfl

/-- **The cells of a row are those between the bars.** -/
theorem cells_join {parts : List Text} (h : ∀ part ∈ parts, InCell part) (hne : parts ≠ []) :
    cells (Text.join "|" parts) = parts.map trimmed := by
  induction parts with
  | nil => exact absurd rfl hne
  | cons part parts ih =>
    have hpart := h part List.mem_cons_self
    cases parts with
    | nil =>
      have hlast := hpart.cellsFrom_append [] []
      rw [List.append_nil, List.append_nil] at hlast
      simpa [cells, Text.join, cellsFrom] using hlast
    | cons second parts =>
      have hrest := ih (fun part hp => h part (List.mem_cons_of_mem _ hp)) (List.cons_ne_nil _ _)
      have hjoin : Text.join "|" (part :: second :: parts) =
          part ++ '|' :: Text.join "|" (second :: parts) := by
        simp [Text.join]
      rw [hjoin, cells, hpart.cellsFrom_append, cellsFrom, if_neg (by decide), if_neg (by decide),
        if_pos ⟨rfl, rfl⟩, List.append_nil, List.reverse_reverse]
      exact congrArg (trimmed part :: ·) hrest

/-- Blanks in front of a cell do not matter. -/
theorem cellsFrom_append_blank {front : Text} (h : ∀ c ∈ front, isBlank c = true) (cell t : Text) :
    cellsFrom depth (cell ++ front.reverse) t = cellsFrom depth cell t := by
  induction t generalizing depth cell with
  | nil =>
    rw [cellsFrom, cellsFrom, List.reverse_append, List.reverse_reverse, trimmed_append_left h]
  | cons c t ih =>
    have htrimmed : trimmed (cell ++ front.reverse).reverse = trimmed cell.reverse := by
      rw [List.reverse_append, List.reverse_reverse, trimmed_append_left h]
    simp only [cellsFrom, ← List.cons_append, ih, htrimmed]

/-- Blanks are in the cell in front of them, and do not matter there. -/
theorem cellsFrom_blank {back : Text} (h : ∀ c ∈ back, isBlank c = true) (cell : Text) :
    cellsFrom depth cell back = [trimmed cell.reverse] := by
  induction back generalizing depth cell with
  | nil => rfl
  | cons c back ih =>
    have hblank := h c List.mem_cons_self
    have hopen : c ≠ '(' := by rintro rfl; cases hblank
    have hclose : c ≠ ')' := by rintro rfl; cases hblank
    have hbar : c ≠ '|' := by rintro rfl; cases hblank
    rw [cellsFrom, if_neg hopen, if_neg hclose, if_neg fun hc => hbar hc.1,
      ih (fun c hc => h c (List.mem_cons_of_mem _ hc)), List.reverse_cons,
      trimmed_append_right (List.forall_mem_singleton.2 hblank)]

/-- Blanks behind the last cell do not matter. -/
theorem cellsFrom_append_right {back : Text} (h : ∀ c ∈ back, isBlank c = true) (cell t : Text) :
    cellsFrom depth cell (t ++ back) = cellsFrom depth cell t := by
  induction t generalizing depth cell with
  | nil =>
    rw [List.nil_append, cellsFrom_blank h]
    rfl
  | cons c t ih => simp only [List.cons_append, cellsFrom, ih]

/-- **Blanks at the ends of a row do not matter.** -/
theorem cells_trimmed (t : Text) : cells (trimmed t) = cells t := by
  obtain ⟨front, back, hfront, hback, ht⟩ := exists_trimmed t
  have hincell : InCell front := by
    have hnot {c : Char} (hc : isBlank c = false) : c ∉ front := by
      intro hmem
      rw [hfront c hmem] at hc
      cases hc
    exact inCell_of_not_mem (hnot (by decide)) (hnot (by decide)) (hnot (by decide))
  conv => rhs; rw [ht]
  -- What is in front stays in the first cell, and what is behind in the last.
  rw [cells, cells, hincell.cellsFrom_append, List.append_nil, cellsFrom_append_right hback]
  exact (cellsFrom_append_blank hfront [] _).symm

/-! ## Braces -/

/-- A text is read up to the brace that closes it. -/
theorem blocksFrom_some_append {block rest : Text} (h : Unclosed prev t rest.head?) :
    blocksFrom (some block) prev (t ++ rest) =
      blocksFrom (some (t.reverse ++ block)) (t.getLast?.or prev) rest := by
  induction t generalizing block prev with
  | nil => rfl
  | cons c t ih =>
    have hclose : ¬ (c = '}' ∧ setsOff prev = true ∧ setsOff (t ++ rest).head? = true) := by
      rintro ⟨rfl, hprev, hnext⟩
      rw [List.head?_append] at hnext
      exact h [] t rfl ⟨hprev, hnext⟩
    have hrest : Unclosed (some c) t rest.head? := by
      rintro before after rfl ⟨hbefore, hafter⟩
      refine h (c :: before) after rfl ⟨?_, hafter⟩
      cases hlast : before.getLast? <;> simpa [List.getLast?_cons, hlast] using hbefore
    rw [List.cons_append, blocksFrom, if_neg hclose, ih hrest, List.getLast?_cons]
    cases t.getLast? <;> simp

/-- A text is read over while no block is open. -/
theorem blocksFrom_none_append {rest : Text} (h : '{' ∉ t) :
    blocksFrom none prev (t ++ rest) = blocksFrom none (t.getLast?.or prev) rest := by
  induction t generalizing prev with
  | nil => rfl
  | cons c t ih =>
    have hopen : c ≠ '{' := fun hc => h (hc ▸ List.mem_cons_self)
    rw [List.cons_append, blocksFrom, if_neg fun hc => hopen hc.1,
      ih fun hc => h (List.mem_cons_of_mem _ hc), List.getLast?_cons]
    cases t.getLast? <;> simp

/-- **A block is what is between braces that are set off.** -/
theorem blocksFrom_block {inside rest : Text} (hprev : setsOff prev = true)
    (hhead : setsOff inside.head? = true) (hlast : setsOff inside.getLast? = true)
    (hrest : setsOff rest.head? = true) (hne : inside ≠ [])
    (h : Unclosed (some '{') inside (some '}')) :
    blocksFrom none prev ('{' :: (inside ++ '}' :: rest)) =
      trimmed inside :: blocksFrom none (some '}') rest := by
  have hopen : setsOff (inside ++ '}' :: rest).head? = true := by
    rw [List.head?_append]
    cases inside with
    | nil => exact absurd rfl hne
    | cons c inside => exact hhead
  have hclose : setsOff (inside.getLast?.or (some '{')) = true := by
    cases hinside : inside.getLast? with
    | none => exact absurd (List.getLast?_eq_none_iff.1 hinside) hne
    | some c =>
      rw [hinside] at hlast
      exact hlast
  rw [blocksFrom, if_pos ⟨rfl, hprev, hopen⟩, blocksFrom_some_append h, blocksFrom,
    if_pos ⟨rfl, hclose, hrest⟩, List.append_nil, List.reverse_reverse]

/-- A text is unclosed if its parts in front of and behind another character are. -/
theorem Unclosed.append_cons {c : Char} (ht : Unclosed prev t (some c))
    (hu : Unclosed (some c) u next) (hc : c ≠ '}') : Unclosed prev (t ++ c :: u) next := by
  rintro before after h ⟨hbefore, hafter⟩
  rcases List.append_eq_append_iff.1 h with ⟨v, rfl, hv⟩ | ⟨v, rfl, hv⟩
  · cases v with
    | nil => exact hc (List.cons.inj hv).1
    | cons d v =>
      cases hv
      refine hu v after rfl ⟨?_, hafter⟩
      cases hlast : v.getLast? <;>
        simpa [List.getLast?_append, List.getLast?_cons, hlast] using hbefore
  · cases v with
    | nil => exact hc (List.cons.inj hv).1.symm
    | cons d v =>
      cases hv
      refine ht before v rfl ⟨hbefore, ?_⟩
      cases hhead : v.head? <;> simpa [List.head?_append, hhead] using hafter

/-- A text without a closing brace closes nothing. -/
theorem unclosed_of_not_mem (h : '}' ∉ t) : Unclosed prev t next := by
  rintro before after rfl
  exact absurd (by simp) h

/-! ## Markers -/

theorem not_blank_of_isDigit {c : Char} (h : c.isDigit = true) : isBlank c = false := by
  have hascii : c.toNat < 128 := by
    have hval : c.toNat = c.val.toNat := rfl
    have hnine : ('9'.val).toNat = 57 := rfl
    simp only [Char.isDigit, Bool.and_eq_true, decide_eq_true_eq, UInt32.le_iff_toNat_le] at h
    omega
  revert h
  refine Parameter.Arguments.of_forall_ascii
    (P := fun c => c.isDigit = true → isBlank c = false) ?_ hascii
  decide +kernel

/-- What is printed of a number of rows or columns is read as that number. -/
theorem spanOf_decimal {n : UInt32} (h : 0 < n) (kind : Text) (letter : Char) :
    spanOf kind (letter :: Numeral.decimal n.toNat) = .ok n.toNat := by
  have hread : Numeral.unsigned? 10 (Numeral.decimal n.toNat) = some n := by
    rw [Numeral.unsigned?, Numeral.digits_decimal, Numeral.valueFrom?_decimal]
    simp [Numeral.decimal_ne_nil]
  have hne : n ≠ 0 := by
    rintro rfl
    exact absurd h (by decide)
  simp only [spanOf, List.tail_cons, hread, if_neg hne]

namespace WrittenCell

variable (w : WrittenCell)

/-- An indicator is a letter and digits. -/
theorem mem_indicators {indicator : Text} (h : indicator ∈ w.indicators) :
    ∃ letter digits, indicator = letter :: digits ∧ letter ∈ "crht".toList ∧
      ∀ c ∈ digits, c.isDigit = true := by
  simp only [indicators, List.mem_append, List.mem_cons, List.not_mem_nil, or_false] at h
  rcases h with ((rfl | rfl) | h) | h
  · exact ⟨_, _, rfl, by decide, fun _ => Numeral.isDigit_of_mem_decimal⟩
  · exact ⟨_, _, rfl, by decide, fun _ => Numeral.isDigit_of_mem_decimal⟩
  · split at h
    · exact ⟨_, _, List.mem_singleton.1 h, by decide, nofun⟩
    · cases h
  · split at h
    · exact ⟨_, _, List.mem_singleton.1 h, by decide, nofun⟩
    · cases h

/-- Indicators are made of their letters and of digits. -/
theorem not_mem_indicators {indicator : Text} (h : indicator ∈ w.indicators) {c : Char}
    (hletter : c ∉ "crht".toList) (hdigit : c.isDigit = false) : c ∉ indicator := by
  obtain ⟨letter, digits, rfl, hmem, hdigits⟩ := w.mem_indicators h
  intro hc
  rcases List.mem_cons.1 hc with rfl | hc
  · exact hletter hmem
  · rw [hdigits c hc] at hdigit
    cases hdigit

theorem indicators_ne_nil : w.indicators ≠ [] := by
  simp [indicators]

theorem not_mem_marker {c : Char} (hletter : c ∉ ",crht".toList) (hdigit : c.isDigit = false) :
    c ∉ w.marker := by
  intro hc
  rcases Text.mem_join hc with hc | ⟨indicator, hindicator, hc⟩
  · obtain rfl : c = ',' := List.mem_singleton.1 hc
    exact hletter (by decide)
  · exact w.not_mem_indicators hindicator (fun hmem => hletter (List.mem_cons_of_mem _ hmem)) hdigit hc

theorem not_blank_of_mem_marker {c : Char} (h : c ∈ w.marker) : isBlank c = false := by
  by_contra hblank
  have hletter : c ∉ ",crht".toList := by
    intro hc
    simp at hc
    rcases hc with rfl | rfl | rfl | rfl | rfl <;> exact hblank (by decide)
  have hdigit : c.isDigit = false := by
    by_contra hdigit
    exact hblank (not_blank_of_isDigit (by simpa using hdigit))
  exact w.not_mem_marker hletter hdigit h

theorem marker_ne_nil : w.marker ≠ [] := by
  have hfirst : 'c' :: Numeral.decimal w.colspan.toNat ∈ w.indicators := by simp [indicators]
  exact List.ne_nil_of_mem (Text.subset_join hfirst List.mem_cons_self)

/-- The marker is taken apart into what it tells. -/
theorem splitOn_marker : w.marker.splitOn ',' = w.indicators :=
  List.splitOn_intercalate ',' (fun _ h => w.not_mem_indicators h (by decide) (by decide))
    w.indicators_ne_nil

/-- **What a marker tells is the cell.** -/
theorem foldlM_indicators :
    w.indicators.foldlM applyIndicator { contents := w.contents } = .ok w.cell := by
  have hcolspan (cell : Cell) : applyIndicator cell ('c' :: Numeral.decimal w.colspan.toNat) =
      .ok { cell with colspan := w.colspan.toNat } := by
    rw [applyIndicator, List.head?_cons]
    simp only [spanOf_decimal w.colspan_pos]
    rfl
  have hrowspan (cell : Cell) : applyIndicator cell ('r' :: Numeral.decimal w.rowspan.toNat) =
      .ok { cell with rowspan := w.rowspan.toNat } := by
    rw [applyIndicator, List.head?_cons]
    simp only [spanOf_decimal w.rowspan_pos]
    rfl
  rw [indicators, List.append_assoc, List.foldlM_append, List.foldlM_cons, hcolspan]
  show List.foldlM applyIndicator _ _ >>= _ = _
  rw [List.foldlM_cons, hrowspan]
  unfold cell
  cases w.header <;> cases w.transparent <;> rfl

/-! ## Cells -/

/-- The blanks at the ends of the contents are those of the cell. -/
theorem exists_trimmed_text : ∃ behind, trimmed w.text = '=' :: (w.marker ++ behind) ∧
    (∀ c, behind.head? = some c → isBlank c = true) ∧
    Text.trimFront isBlank behind = w.contents := by
  have hmark : isBlank '=' = false := by decide
  by_cases hcontents : w.contents = []
  · -- Without contents, the blank behind the marker is at the end of the cell.
    refine ⟨[], ?_, nofun, hcontents.symm⟩
    have htight : Tight ('=' :: w.marker) := by
      constructor
      · intro c hc
        cases hc
        exact hmark
      · intro c hc
        rcases List.mem_cons.1 (List.mem_of_getLast? hc) with rfl | hc
        · exact hmark
        · exact w.not_blank_of_mem_marker hc
    have htext : w.text = ('=' :: w.marker) ++ [' '] := by simp [text, hcontents]
    rw [htext, trimmed_append_right (List.forall_mem_singleton.2 (by decide)), htight.trimmed_eq,
      List.append_nil]
  · refine ⟨' ' :: w.contents, ?_, ?_, ?_⟩
    · have htight : Tight w.text := by
        constructor
        · intro c hc
          cases hc
          exact hmark
        · intro c hc
          refine w.tight.last c ?_
          have htext : w.text = ('=' :: (w.marker ++ [' '])) ++ w.contents := by simp [text]
          rw [htext, List.getLast?_append_of_ne_nil _ hcontents] at hc
          exact hc
      exact htight.trimmed_eq
    · intro c hc
      cases hc
      decide
    · exact dropWhile_of_head w.tight.head

/-- **A cell that is printed is read as the cell.** -/
theorem cellOf_text : cellOf (trimmed w.text) = .ok w.cell := by
  obtain ⟨behind, htext, hbehind, hcontents⟩ := w.exists_trimmed_text
  have hmarker : ∀ c ∈ w.marker, (!isBlank c) = true := by
    intro c hc
    rw [w.not_blank_of_mem_marker hc]
    rfl
  have htake : (w.marker ++ behind).takeWhile (fun c => !isBlank c) = w.marker := by
    rw [List.takeWhile_append_of_pos hmarker]
    cases behind with
    | nil => exact List.append_nil _
    | cons c behind => simp [hbehind c rfl]
  have hdrop : (w.marker ++ behind).dropWhile (fun c => !isBlank c) = behind := by
    rw [List.dropWhile_append_of_pos hmarker]
    cases behind with
    | nil => rfl
    | cons c behind => simp [hbehind c rfl]
  rw [htext, cellOf]
  simp only [htake, hdrop, hcontents, if_neg w.marker_ne_nil, w.splitOn_marker]
  exact w.foldlM_indicators

/-- The cell as it is printed, with the blanks around it. -/
def padded : Text :=
  ' ' :: (w.text ++ [' '])

/-- The padding of a cell is trimmed away. -/
theorem trimmed_padded : trimmed w.padded = trimmed w.text := by
  have hblank : ∀ c ∈ [' '], isBlank c = true := List.forall_mem_singleton.2 (by decide)
  rw [padded, ← List.singleton_append, trimmed_append_left hblank, trimmed_append_right hblank]

/-- A printed cell stays in its cell. -/
theorem inCell_padded : InCell w.padded := by
  have hmarker : InCell (' ' :: '=' :: (w.marker ++ [' '])) := by
    have hnot {c : Char} (hmem : c ∉ " =".toList) (hletter : c ∉ ",crht".toList)
        (hdigit : c.isDigit = false) : c ∉ ' ' :: '=' :: (w.marker ++ [' ']) := by
      have := w.not_mem_marker hletter hdigit
      simp at hmem ⊢
      tauto
    exact inCell_of_not_mem (hnot (by decide) (by decide) (by decide))
      (hnot (by decide) (by decide) (by decide)) (hnot (by decide) (by decide) (by decide))
  have hblank : InCell [' '] := inCell_of_not_mem (by decide) (by decide) (by decide)
  have hpadded : w.padded = (' ' :: '=' :: (w.marker ++ [' '])) ++ (w.contents ++ [' ']) := by
    simp [padded, text]
  rw [hpadded]
  exact hmarker.append (w.inCell.append hblank)

/-- No closing brace in a cell that is printed is set off. -/
theorem unclosed_padded : Unclosed prev w.padded next := by
  have hcontents : Unclosed (some ' ') w.contents (some ' ') := by
    rintro before after h ⟨hbefore, hafter⟩
    refine w.unclosed before after h ⟨?_, ?_⟩
    · cases hlast : before.getLast? <;> simp_all [setsOff]
    · cases hhead : after.head? <;> simp_all [setsOff]
  have hmarker : '}' ∉ ' ' :: '=' :: w.marker := by
    simp [w.not_mem_marker]
  have hpadded : w.padded = (' ' :: '=' :: w.marker) ++ ' ' :: (w.contents ++ ' ' :: []) := by
    simp [padded, text]
  rw [hpadded]
  exact (unclosed_of_not_mem hmarker).append_cons
    (hcontents.append_cons (unclosed_of_not_mem (List.not_mem_nil)) (by decide)) (by decide)

/-- The word that ends a table is not in a cell that is printed. -/
theorem unended_padded : ¬ "TABLE#".toList <:+: w.padded := by
  have hmarker : 'T' ∉ ' ' :: '=' :: w.marker := by
    simp [w.not_mem_marker]
  have hpadded : w.padded = (' ' :: '=' :: w.marker) ++ ' ' :: (w.contents ++ ' ' :: []) := by
    simp [padded, text]
  rw [hpadded, Text.infix_append_cons_iff (by decide), Text.infix_append_cons_iff (by decide)]
  rintro (h | h | h)
  · exact Text.not_infix_of_not_mem (by decide) hmarker h
  · exact w.unended h
  · exact absurd h (by decide)

end WrittenCell

/-! ## Rows -/

/-- What is printed between the braces of a row. -/
def inside (row : List WrittenCell) : Text :=
  Text.join "|" (row.map WrittenCell.padded)

theorem inside_singleton (w : WrittenCell) : inside [w] = w.padded := by
  simp [inside, Text.join]

theorem inside_cons_cons (w v : WrittenCell) (row : List WrittenCell) :
    inside (w :: v :: row) = w.padded ++ '|' :: inside (v :: row) := by
  simp [inside, Text.join]

/-- The cells of a row are printed with bars and blanks between them. -/
theorem inside_eq (hne : row ≠ []) :
    inside row = ' ' :: (Text.join " | " (row.map WrittenCell.text) ++ [' ']) := by
  induction row with
  | nil => exact absurd rfl hne
  | cons w row ih =>
    cases row with
    | nil => simp [inside_singleton, Text.join, WrittenCell.padded]
    | cons v row =>
      rw [inside_cons_cons, ih (List.cons_ne_nil _ _)]
      simp [Text.join, WrittenCell.padded]

/-- A row is printed between braces. -/
theorem rowText_eq (hne : row ≠ []) : rowText row = '{' :: (inside row ++ ['}']) := by
  rw [inside_eq hne]
  simp [rowText]

/-- What succeeds for each element succeeds for all. -/
theorem mapM_map_eq_ok {α β γ ε : Type} {f : β → Except ε γ} {g : α → β} {r : α → γ} {as : List α}
    (h : ∀ a ∈ as, f (g a) = .ok (r a)) : (as.map g).mapM f = .ok (as.map r) := by
  induction as with
  | nil => rfl
  | cons a as ih =>
    rw [List.map_cons, List.mapM_cons, h a List.mem_cons_self,
      ih fun a ha => h a (List.mem_cons_of_mem _ ha)]
    rfl

/-- **A row is read cell by cell.** -/
theorem mapM_cellOf_inside (hne : row ≠ []) :
    (cells (trimmed (inside row))).mapM cellOf = .ok (row.map WrittenCell.cell) := by
  have hcells : cells (inside row) = (row.map WrittenCell.padded).map trimmed := by
    refine cells_join (fun part hpart => ?_) (by simpa using hne)
    obtain ⟨w, -, rfl⟩ := List.mem_map.1 hpart
    exact w.inCell_padded
  rw [cells_trimmed, hcells, List.map_map]
  refine mapM_map_eq_ok fun w _ => ?_
  rw [Function.comp_apply, w.trimmed_padded, w.cellOf_text]

theorem unclosed_inside : Unclosed prev (inside row) next := by
  induction row generalizing prev with
  | nil => exact unclosed_of_not_mem List.not_mem_nil
  | cons w row ih =>
    cases row with
    | nil =>
      rw [inside_singleton]
      exact w.unclosed_padded
    | cons v row =>
      rw [inside_cons_cons]
      exact w.unclosed_padded.append_cons ih (by decide)

theorem unended_inside (row : List WrittenCell) : ¬ "TABLE#".toList <:+: inside row := by
  induction row with
  | nil => decide
  | cons w row ih =>
    cases row with
    | nil =>
      rw [inside_singleton]
      exact w.unended_padded
    | cons v row =>
      rw [inside_cons_cons, Text.infix_append_cons_iff (by decide)]
      exact not_or.2 ⟨w.unended_padded, ih⟩

/-- **A row is read as a block** where its braces are set off. -/
theorem blocksFrom_rowText {rest : Text} (hne : row ≠ []) (hprev : setsOff prev = true)
    (hrest : setsOff rest.head? = true) :
    blocksFrom none prev (rowText row ++ rest) =
      trimmed (inside row) :: blocksFrom none (some '}') rest := by
  have hinside := inside_eq hne
  have hlast : setsOff (inside row).getLast? = true := by
    rw [hinside, ← List.cons_append, List.getLast?_concat]
    decide
  have hhead : setsOff (inside row).head? = true := by
    rw [hinside]
    rfl
  rw [rowText_eq hne, List.cons_append, List.append_assoc, List.singleton_append]
  exact blocksFrom_block hprev hhead hlast hrest (by rw [hinside]; exact List.cons_ne_nil _ _)
    unclosed_inside

/-- The word that ends a table is not in a row that is printed, nor across its end. -/
theorem unended_rowText_append {rest : Text} (hne : row ≠ []) (hrest : ¬ "TABLE#".toList <:+: rest) :
    ¬ "TABLE#".toList <:+: rowText row ++ rest := by
  have htext : rowText row ++ rest = [] ++ '{' :: (inside row ++ '}' :: rest) := by
    simp [rowText_eq hne]
  rw [htext, Text.infix_append_cons_iff (by decide), Text.infix_append_cons_iff (by decide)]
  rintro (h | h | h)
  · exact absurd h (by decide)
  · exact unended_inside row h
  · exact hrest h

/-! ## Tables -/

namespace WrittenTable

variable {others : List (Text × List WrittenCell)}

/-- What is printed behind a row sets it off. -/
theorem setsOff_othersText (h : ∀ other ∈ others, Apart other.1) :
    setsOff (othersText others).head? = true := by
  cases others with
  | nil => rfl
  | cons other others =>
    have hapart := h other List.mem_cons_self
    obtain ⟨c, gap, hgap⟩ := List.exists_cons_of_ne_nil hapart.ne_nil
    have hhead := hapart.head
    rw [hgap] at hhead
    simpa [othersText, hgap] using hhead

/-- The rows behind the first are read one by one. -/
theorem blocksFrom_othersText (hne : ∀ other ∈ others, other.2 ≠ [])
    (hapart : ∀ other ∈ others, Apart other.1) :
    blocksFrom none prev (othersText others) = others.map fun other => trimmed (inside other.2) := by
  induction others generalizing prev with
  | nil => rfl
  | cons other others ih =>
    have hgap := hapart other List.mem_cons_self
    have hrest := fun o (ho : o ∈ others) => hapart o (List.mem_cons_of_mem _ ho)
    have hbrace : '{' ∉ other.1 := by
      intro hmem
      cases hgap.blank _ hmem
    have hprev : setsOff (other.1.getLast?.or prev) = true := by
      rw [List.getLast?_eq_some_getLast hgap.ne_nil]
      have hlast := hgap.last
      rwa [List.getLast?_eq_some_getLast hgap.ne_nil] at hlast
    have htext : othersText (other :: others) = other.1 ++ (rowText other.2 ++ othersText others) := by
      simp [othersText]
    rw [htext, blocksFrom_none_append hbrace,
      blocksFrom_rowText (hne other List.mem_cons_self) hprev (setsOff_othersText hrest),
      ih (fun o ho => hne o (List.mem_cons_of_mem _ ho)) hrest]
    rfl

variable (t : WrittenTable)

/-- **The rows of the table are the blocks of the text.** -/
theorem blocks_text :
    blocks t.text = (t.first :: t.others.map (·.2)).map fun row => trimmed (inside row) := by
  rw [blocks, text, blocksFrom_rowText t.first_ne_nil rfl (setsOff_othersText t.apart),
    blocksFrom_othersText t.ne_nil t.apart, List.map_cons, List.map_map]
  rfl

/-- **What is printed is read as the rows that were printed.** -/
theorem rowsOf_text : rowsOf t.text = .ok t.rows := by
  have hne : ∀ row ∈ t.first :: t.others.map (·.2), row ≠ [] := by
    intro row hrow
    rcases List.mem_cons.1 hrow with rfl | hrow
    · exact t.first_ne_nil
    · obtain ⟨other, hother, rfl⟩ := List.mem_map.1 hrow
      exact t.ne_nil other hother
  rw [rowsOf, blocks_text, rows]
  exact mapM_map_eq_ok fun row hrow => mapM_cellOf_inside (hne row hrow)

/-- The word that ends a table is not in the rows behind the first, nor across their end. -/
theorem unended_othersText_append {rest : Text} (hne : ∀ other ∈ others, other.2 ≠ [])
    (hapart : ∀ other ∈ others, Apart other.1) (hrest : ¬ "TABLE#".toList <:+: rest) :
    ¬ "TABLE#".toList <:+: othersText others ++ rest := by
  induction others with
  | nil => exact hrest
  | cons other others ih =>
    have hgap := hapart other List.mem_cons_self
    have hletter : 'T' ∉ other.1 := by
      intro hmem
      cases hgap.blank _ hmem
    have htail := ih (fun o ho => hne o (List.mem_cons_of_mem _ ho))
      (fun o ho => hapart o (List.mem_cons_of_mem _ ho))
    have htext : othersText (other :: others) ++ rest =
        other.1 ++ '{' :: (inside other.2 ++ '}' :: (othersText others ++ rest)) := by
      simp [othersText, rowText_eq (hne other List.mem_cons_self)]
    rw [htext, Text.infix_append_cons_iff (by decide)]
    rintro (h | h)
    · exact Text.not_infix_of_not_mem (by decide) hletter h
    · have hrow := unended_rowText_append (hne other List.mem_cons_self) htail
      rw [rowText_eq (hne other List.mem_cons_self)] at hrow
      exact hrow (by simpa using List.infix_cons h)

/-- The cell without its class. -/
def unclassed (c : Cell) : Cell :=
  { c with cls := [] }

/-- Classes are all that is added to the rows. -/
theorem exists_tableOf_text (cls : Text) (classes : List Text) :
    ∃ table, tableOf t.text cls classes = .ok table ∧ table.cls = cls ∧
      table.rows.map (·.map unclassed) = t.rows := by
  refine ⟨⟨cls, (placeRows [] t.rows).map (·.map (Placed.classed classes))⟩, ?_, rfl, ?_⟩
  · rw [tableOf, t.rowsOf_text]
    rfl
  · calc ((placeRows [] t.rows).map (·.map (Placed.classed classes))).map (·.map unclassed)
        = ((placeRows [] t.rows).map (·.map (·.cell))).map (·.map unclassed) := by
          simp [Function.comp_def, unclassed, Placed.classed]
      _ = t.rows.map (·.map unclassed) := by rw [cells_placeRows]
      _ = t.rows := by
          simp [rows, Function.comp_def, unclassed, WrittenCell.cell]

/-! ## The macro for tables -/

/-- The classes that are listed with commas between them. -/
def listed (names : Option Text) : List Text :=
  ((names.getD []).splitOn ',').map trimmed

/-- The classes in brackets, if there are any, and the table. -/
def body (t : WrittenTable) (names : Option Text) : Text :=
  names.elim [] Parameter.inBrackets ++ t.text

/-- The text of a table begins with a brace. -/
theorem exists_text_eq : ∃ behind, t.text = '{' :: behind := by
  rw [text, rowText_eq t.first_ne_nil]
  exact ⟨_, rfl⟩

/-- No letter follows the name of the macro. -/
theorem takeWhile_body_append (names : Option Text) (rest : Text) :
    (t.body names ++ rest).takeWhile Marker.isNameLetter = [] := by
  obtain ⟨behind, htext⟩ := t.exists_text_eq
  cases names with
  | none =>
    rw [body, htext]
    rfl
  | some n => rfl

section

variable {names : Option Text} (hnames : ∀ n ∈ names, Balanced n ∧ ¬ "TABLE#".toList <:+: n)

include hnames

/-- **The table goes up to the first word that ends tables.** -/
theorem cutWord_body (rest : Text) :
    Text.cutWord "TABLE#" (t.body names ++ ("TABLE#" ++ rest)) = some (t.body names, rest) := by
  refine Text.cutWord_append rest ?_
  have htext : ¬ "TABLE#".toList <:+: t.text ++ "TABLE#".toList.dropLast := by
    rw [text, List.append_assoc]
    exact unended_rowText_append t.first_ne_nil
      (unended_othersText_append t.ne_nil t.apart (by decide))
  cases names with
  | none => exact htext
  | some n =>
    have hbody : t.body (some n) ++ "TABLE#".toList.dropLast =
        [] ++ '(' :: (n ++ ')' :: (t.text ++ "TABLE#".toList.dropLast)) := by
      simp [body, Parameter.inBrackets]
    rw [hbody, Text.infix_append_cons_iff (by decide), Text.infix_append_cons_iff (by decide)]
    rintro (h | h | h)
    · exact absurd h (by decide)
    · exact (hnames n rfl).2 h
    · exact htext h

/-- The classes are read in front of the table. -/
theorem tableMarkup_body {table : Table}
    (htable : tableOf t.text ((listed names).headD []) (listed names).tail = .ok table) :
    Wording.tableMarkup (t.body names) = .ok (Site.Markup.table table) := by
  have hopen : names = none → t.text.head? ≠ some '(' := by
    intro _
    obtain ⟨behind, htext⟩ := t.exists_text_eq
    rw [htext]
    nofun
  have hread := Parameter.optionalBracketed_name (fun n hn => (hnames n hn).1) hopen
  have hmarkup : Wording.tableMarkup (t.body names) =
      (tableOf t.text ((listed names).headD []) (listed names).tail).map Site.Markup.table := by
    rw [Wording.tableMarkup, body, hread]
    rfl
  rw [hmarkup, htable]
  rfl

end

/-- **What is printed is read as the table that was printed.**  Each cell has the flags, the spans and
the contents that are printed, in the same rows and in the same order.  The macro for tables, with
classes in brackets or without, reads up to the first word that ends tables, turns into the table, and
leaves what is behind the word. -/
theorem tableOf_text :
    (∀ cls classes, ∃ table, tableOf t.text cls classes = .ok table ∧ table.cls = cls ∧
      table.rows.map (·.map unclassed) = t.rows) ∧
    ∀ (names : Option Text) (rest : Text),
      (∀ n ∈ names, Balanced n ∧ ¬ "TABLE#".toList <:+: n) →
      Text.cutWord "TABLE#" (t.body names ++ ("TABLE#" ++ rest)) = some (t.body names, rest) ∧
      ∃ table, tableOf t.text ((listed names).headD []) (listed names).tail = .ok table ∧
        ∀ {σ : Type} (env : Environment σ) (cwd : Text) (s : Session σ),
          Session.run env cwd (.text .table) (t.body names ++ ("TABLE#" ++ rest)) s =
            (.ok (Site.Markup.table table, rest), s) ∧
          Session.step env cwd
            ('#' :: ((MacroName.text .table).name ++ (t.body names ++ ("TABLE#" ++ rest)))) s =
              .replaced [] (Site.Markup.table table ++ rest) s := by
  refine ⟨t.exists_tableOf_text, fun names rest hnames => ?_⟩
  obtain ⟨table, htable, -, -⟩ := t.exists_tableOf_text ((listed names).headD []) (listed names).tail
  have hcut := t.cutWord_body hnames rest
  refine ⟨hcut, table, htable, fun env cwd s => ?_⟩
  have hrun : Session.run env cwd (.text .table) (t.body names ++ ("TABLE#" ++ rest)) s =
      (.ok (Site.Markup.table table, rest), s) := by
    rw [Session.run, Session.runText, TextMacro.handler, Wording.block, hcut]
    simp only [t.tableMarkup_body hnames htable]
  exact ⟨hrun, Session.step_name_append (t.takeWhile_body_append names _) hrun⟩

/-- Two rows with a bar in brackets, a closing brace that is not set off, an empty cell, and contents
that look like a marker. -/
def sample : WrittenTable where
  first := [{ contents := "(a|b) \x7dc", header := true, colspan := 2 },
    { contents := [], transparent := true, rowspan := 2 }]
  others := [("\n\u00a0\t", [{ contents := "=h \x7b" }])]
  first_ne_nil := List.cons_ne_nil _ _
  ne_nil := List.forall_mem_singleton.2 (List.cons_ne_nil _ _)
  apart := List.forall_mem_singleton.2 ⟨by decide, List.all_eq_true.1 (by decide), by decide, by decide⟩

/-- A table with spans, blanks of all kinds and a name in brackets is read back. -/
theorem tableOf_text_sample :
    sample.body (some "wide, left") = "(wide, left)\x7b =c2,r1,h (a|b) \x7dc | =c1,r2,t  \x7d".toList
      ++ "\n\u00a0\t\x7b =c1,r1 =h \x7b \x7d".toList ∧
    (∃ table, tableOf sample.text "wide" ["left".toList] = .ok table ∧ table.cls = "wide".toList ∧
      table.rows.map (·.map unclassed) = sample.rows) ∧
    (∀ n ∈ some "wide, left".toList, Balanced n ∧ ¬ "TABLE#".toList <:+: n) ∧
    Text.cutWord "TABLE#" (sample.body (some "wide, left") ++ ("TABLE#" ++ "TABLE#".toList)) =
      some (sample.body (some "wide, left"), "TABLE#".toList) := by
  have hnames : ∀ n ∈ some "wide, left".toList, Balanced n ∧ ¬ "TABLE#".toList <:+: n := by
    intro n hn
    cases hn
    exact ⟨Text.balanced_of_not_mem (by decide) (by decide), by decide +kernel⟩
  obtain ⟨hread, hmacro⟩ := sample.tableOf_text
  obtain ⟨hcut, -⟩ := hmacro (some "wide, left") "TABLE#" hnames
  exact ⟨by decide +kernel, hread "wide" ["left".toList], hnames, hcut⟩

end WrittenTable

/-- Rows are not read one by one if the blank between them is one of Unicode that is not in ASCII. -/
theorem rowsOf_wideBlank :
    isBlank '\u00a0' = true ∧
    rowsOf (rowText [{ contents := "a" }] ++ '\u00a0' :: rowText [{ contents := "b" }]) =
      .ok [[{ contents := "a \x7d\u00a0\x7b =c1,r1 b" }]] := by
  decide +kernel

end MemoryDoc.TableText
