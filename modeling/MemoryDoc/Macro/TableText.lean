/-
# Tables and lists in a text

The rows of a table and the items of a list stand between braces that are set off by blanks.  The
cells of a row are separated by bars that are not inside brackets.  A cell may start with a marker
`=h,t,cN,rN`: it is a header, is transparent, spans `N` columns, or spans `N` rows.  Each cell gets
the class of the column that it starts in, where columns that a cell of an earlier row covers are
passed over.
-/
import MemoryDoc.Fault
import MemoryDoc.Site.Markup

namespace MemoryDoc.TableText

open Site (Cell Table)

/-- The text without blanks at its ends. -/
def trimmed (t : Text) : Text :=
  Text.trim Text.isBlank t

/-! ## Rows and items -/

/-- An end of the text, or a blank. -/
def setsOff (c : Option Char) : Bool :=
  c.all Text.isAsciiBlank

/-- The blocks in a text, without the blanks at their ends.  `inside` is the block that has been
read so far, backwards, and `prev` the character before the text.  A block that is not closed goes
to the end. -/
def blocksFrom : (inside : Option Text) → (prev : Option Char) → Text → List Text
  | none, _, [] => []
  | some block, _, [] => [trimmed block.reverse]
  | none, prev, c :: t =>
    if c = '{' ∧ setsOff prev ∧ setsOff t.head? then blocksFrom (some []) (some c) t
    else blocksFrom none (some c) t
  | some block, prev, c :: t =>
    if c = '}' ∧ setsOff prev ∧ setsOff t.head? then
      trimmed block.reverse :: blocksFrom none (some c) t
    else blocksFrom (some (c :: block)) (some c) t

/-- The blocks between braces in a text. -/
def blocks (t : Text) : List Text :=
  blocksFrom none none t

/-! ## Cells -/

/-- The cells in a row, without the blanks at their ends, when `cell` has been read so far,
backwards, and `depth` brackets are open. -/
def cellsFrom : (depth : Nat) → (cell : Text) → Text → List Text
  | _, cell, [] => [trimmed cell.reverse]
  | depth, cell, c :: t =>
    if c = '(' then cellsFrom (depth + 1) (c :: cell) t
    else if c = ')' then cellsFrom (depth - 1) (c :: cell) t
    else if c = '|' ∧ depth = 0 then trimmed cell.reverse :: cellsFrom 0 [] t
    else cellsFrom depth (c :: cell) t

/-- The texts of the cells in a row. -/
def cells (row : Text) : List Text :=
  cellsFrom 0 [] row

/-- The number of rows or columns that an indicator asks for. -/
def spanOf (kind indicator : Text) : Except Fault Nat :=
  match Numeral.unsigned? 10 indicator.tail with
  | some n => if n = 0 then .error (.badSpan kind indicator) else .ok n.toNat
  | none => .error (.badSpan kind indicator)

/-- Apply an indicator of a marker to a cell.  Unknown indicators mean nothing. -/
def applyIndicator (cell : Cell) (indicator : Text) : Except Fault Cell :=
  match indicator.head? with
  | some 'h' => .ok { cell with header := true }
  | some 't' => .ok { cell with transparent := true }
  | some 'c' => (spanOf "colspan" indicator).map fun n => { cell with colspan := n }
  | some 'r' => (spanOf "rowspan" indicator).map fun n => { cell with rowspan := n }
  | _ => .ok cell

/-- The cell that a text writes. -/
def cellOf (source : Text) : Except Fault Cell :=
  match source with
  | '=' :: marked =>
    let marker := marked.takeWhile fun c => !Text.isBlank c
    let contents := Text.trimFront Text.isBlank (marked.dropWhile fun c => !Text.isBlank c)
    if marker = [] then .ok { contents := source }
    else (marker.splitOn ',').foldlM applyIndicator { contents }
  | _ => .ok { contents := source }

/-! ## Columns -/

/-- For how many further rows each column is covered. -/
abbrev Covered := List Nat

/-- The first column from `column` on that is not covered. -/
def Covered.free (covered : Covered) (column : Nat) : Nat :=
  column + ((covered.drop column).takeWhile (0 < ·)).length

/-- Cover the columns from `start` up to `stop` for `rows` further rows. -/
def Covered.cover (covered : Covered) (start stop rows : Nat) : Covered :=
  covered.take start ++ List.replicate (start - covered.length) 0
    ++ List.replicate (stop - start) rows ++ covered.drop stop

/-- A cell and the column that it starts in. -/
structure Placed where
  column : Nat
  cell : Cell
deriving DecidableEq, Repr

/-- Cover what a cell covers in the rows below. -/
def Covered.coverBy (covered : Covered) (p : Placed) : Covered :=
  if 1 < p.cell.rowspan then
    covered.cover p.column (p.column + p.cell.colspan) (p.cell.rowspan - 1)
  else covered

/-- Place cells from `column` on in a row in which the columns `covered` are covered.  In the rows
below, the columns `below` are covered so far. -/
def placeCells (covered : Covered) :
    (column : Nat) → (below : Covered) → List Cell → List Placed × Covered
  | _, below, [] => ([], below)
  | column, below, cell :: cells =>
    let p : Placed := ⟨covered.free column, cell⟩
    match placeCells covered (p.column + cell.colspan) (below.coverBy p) cells with
    | (placed, below) => (p :: placed, below)

/-- Place the cells of a row in which the columns `covered` are covered, and tell which are covered
in the rows below. -/
def placeRow (covered : Covered) (cells : List Cell) : List Placed × Covered :=
  placeCells covered 0 (covered.map (· - 1)) cells

/-- Place rows one below the other. -/
def placeRows : Covered → List (List Cell) → List (List Placed)
  | _, [] => []
  | covered, row :: rows =>
    match placeRow covered row with
    | (placed, below) => placed :: placeRows below rows

/-- The cell with the class of its column. -/
def Placed.classed (classes : List Text) (p : Placed) : Cell :=
  { p.cell with cls := classes.getD p.column [] }

/-- The cells of the rows that a text writes. -/
def rowsOf (body : Text) : Except Fault (List (List Cell)) :=
  (blocks body).mapM fun row => (cells row).mapM cellOf

/-- The table that a text writes, with a class for the table and classes for its columns. -/
def tableOf (body cls : Text) (classes : List Text) : Except Fault Table := do
  let rows ← rowsOf body
  return ⟨cls, (placeRows [] rows).map (·.map (Placed.classed classes))⟩

end MemoryDoc.TableText
