/-
# Scanning tables and lists

The text of a table or list is cut out of the whole text in front of the word that closes it, and
cells are cut out of rows.  Rows are placed as soon as their cells are read: the columns that are
busy in the rows below are kept in a list, which is made longer before a part of it is filled.

Main statements: nothing is cut at a place that is no boundary and nothing filled beyond the end of
the list, so that the tables are those of the text (`tableOf?_eq`), and tables and lists are scanned
as they are read (`follows_table`, `follows_list`).
-/
import MemoryDoc.Macro.Wording
import MemoryDoc.Proofs.Bytewise.Blocks
import MemoryDoc.Proofs.Bytewise.Parameters

namespace MemoryDoc

namespace TableText

open Site (Cell Table)
open Text (dropBytes? byteSize slice?)

/-! ## Cells -/

/-- The cells in a row from the place `i` on, when the last cell began at `start` and `depth`
brackets are open.  `t` is what is left at `i`. -/
def cellsAt? (row : Text) : (depth start i : Nat) → (t : Text) → Option (List Text)
  | _, start, _, [] => do
    let last ← slice? row start (byteSize row)
    return [trimmed last]
  | depth, start, i, c :: t =>
    if c = '(' then cellsAt? row (depth + 1) start (i + c.utf8Size) t
    else if c = ')' ∧ 0 < depth then cellsAt? row (depth - 1) start (i + c.utf8Size) t
    else if c = '|' ∧ depth = 0 then do
      let cell ← slice? row start i
      return trimmed cell :: (← cellsAt? row depth (i + 1) (i + c.utf8Size) t)
    else cellsAt? row depth start (i + c.utf8Size) t

/-- The texts of the cells in a row. -/
def cells? (row : Text) : Option (List Text) :=
  cellsAt? row 0 0 0 row

/-- The number of rows or columns that an indicator asks for behind its first byte. -/
def spanOf? (kind indicator : Text) : ExceptT Fault Option Nat := do
  let digits ← slice? indicator 1 (byteSize indicator)
  match Numeral.unsigned? 10 digits with
  | some n => if n = 0 then throw (.badSpan kind indicator) else return n.toNat
  | none => throw (.badSpan kind indicator)

/-- Apply an indicator of a marker to a cell. -/
def applyIndicator? (cell : Cell) (indicator : Text) : ExceptT Fault Option Cell := do
  match indicator.head? with
  | some 'h' => return { cell with header := true }
  | some 't' => return { cell with transparent := true }
  | some 'c' => return { cell with colspan := ← spanOf? "colspan" indicator }
  | some 'r' => return { cell with rowspan := ← spanOf? "rowspan" indicator }
  | _ => return cell

/-- The cell that a text writes.  Its marker is cut off where the first blank is. -/
def cellOf? (source : Text) : ExceptT Fault Option Cell := do
  match source with
  | '=' :: marked =>
    let stop := Scanner.skipWhile (fun c => !Text.isBlank c) marked 0
    let marker ← slice? marked 0 stop
    let behind ← slice? marked stop (byteSize marked)
    if marker = [] then
      return { contents := source }
    else
      (marker.splitOn ',').foldlM applyIndicator? { contents := Text.trimFront Text.isBlank behind }
  | _ => return { contents := source }

/-- **A row is cut into cells at the places of its separators.**  The cell that is being read starts
at a boundary and ends where the row is looked at. -/
theorem cellsAt?_eq {row t : Text} (cell : Text) (depth : Nat) {start : Nat}
    (h : dropBytes? start row = some (cell.reverse ++ t)) :
    cellsAt? row depth start (start + byteSize cell.reverse) t = some (cellsFrom depth cell t) := by
  induction t generalizing depth start cell with
  | nil =>
    rw [List.append_nil] at h
    rw [cellsAt?, Text.slice?_end h, cellsFrom]
    rfl
  | cons c t ih =>
    -- Every character but a bar outside brackets is one of the cell.
    have hmore {depth : Nat} :
        cellsAt? row depth start (start + byteSize cell.reverse + c.utf8Size) t =
          some (cellsFrom depth (c :: cell) t) := by
      have hcell : dropBytes? start row = some ((c :: cell).reverse ++ t) := by
        rw [List.reverse_cons, List.append_assoc]
        exact h
      have := ih (c :: cell) depth hcell
      rwa [List.reverse_cons, Text.byteSize_append, Text.byteSize_cons, Text.byteSize_nil,
        Nat.add_zero, ← Nat.add_assoc] at this
    rw [cellsAt?, cellsFrom]
    split
    · exact hmore
    · by_cases hc : c = ')'
      · rw [if_pos hc]
        by_cases hdepth : 0 < depth
        · rw [if_pos ⟨hc, hdepth⟩]
          exact hmore
        · rw [if_neg (by simp [hdepth]), if_neg (by simp [hc])]
          rw [show depth - 1 = depth by omega]
          exact hmore
      · rw [if_neg (by simp [hc]), if_neg hc]
        split
        · next hbar =>
          obtain ⟨rfl, rfl⟩ := hbar
          have hnext : dropBytes? (start + byteSize cell.reverse + 1) row = some t :=
            Text.dropBytes?_cons (Text.dropBytes?_append h)
          have hgo := ih [] 0 hnext
          rw [List.reverse_nil, Text.byteSize_nil, Nat.add_zero] at hgo
          rw [Text.slice?_append h, show '|'.utf8Size = 1 from rfl, hgo]
          rfl
        · exact hmore

theorem cells?_eq (row : Text) : cells? row = some (cells row) :=
  cellsAt?_eq [] 0 (Text.dropBytes?_zero row)

theorem spanOf?_eq (kind : Text) {c : Char} (hc : c.utf8Size = 1) (digits : Text) :
    spanOf? kind (c :: digits) = certain (spanOf kind (c :: digits)) := by
  have hnext : dropBytes? 1 (c :: digits) = some digits := by
    have := Text.dropBytes?_cons (Text.dropBytes?_zero (c :: digits))
    rwa [Nat.zero_add, hc] at this
  unfold spanOf? spanOf
  rw [Text.slice?_end hnext, List.tail_cons]
  show (match Numeral.unsigned? 10 digits with
    | some n => _
    | none => _ : ExceptT Fault Option Nat) = _
  cases Numeral.unsigned? 10 digits with
  | none => rfl
  | some n =>
    simp only
    split <;> rfl

/-- An indicator is taken apart at boundaries. -/
theorem applyIndicator?_eq (cell : Cell) (indicator : Text) :
    applyIndicator? cell indicator = certain (applyIndicator cell indicator) := by
  unfold applyIndicator?
  cases indicator with
  | nil => rfl
  | cons c digits =>
    rw [List.head?_cons]
    split
    · next h =>
      cases h
      rfl
    · next h =>
      cases h
      rfl
    · next h =>
      cases h
      unfold applyIndicator
      rw [spanOf?_eq _ rfl]
      cases spanOf "colspan" ('c' :: digits) <;> rfl
    · next h =>
      cases h
      unfold applyIndicator
      rw [spanOf?_eq _ rfl]
      cases spanOf "rowspan" ('r' :: digits) <;> rfl
    · next hh ht hc hr =>
      unfold applyIndicator
      rw [List.head?_cons]
      split
      · next h => exact absurd h hh
      · next h => exact absurd h ht
      · next h => exact absurd h hc
      · next h => exact absurd h hr
      · rfl

theorem cellOf?_eq (source : Text) : cellOf? source = certain (cellOf source) := by
  unfold cellOf?
  split
  · next marked =>
    unfold cellOf
    have hsplit : marked = marked.takeWhile (fun c => !Text.isBlank c) ++
        marked.dropWhile fun c => !Text.isBlank c := List.takeWhile_append_dropWhile.symm
    have hstop := Scanner.skipWhile_eq (fun c => !Text.isBlank c) (Text.dropBytes?_zero marked)
    rw [Nat.zero_add] at hstop
    have hbehind := Scanner.dropBytes?_readWhile (fun c => !Text.isBlank c)
      (Text.dropBytes?_zero marked)
    rw [Nat.zero_add] at hbehind
    simp only
    rw [hstop, Text.slice?_zero hsplit, Text.slice?_end hbehind]
    show (if _ then _ else _) = _
    split
    · rfl
    · exact foldlM_certain applyIndicator?_eq _ _
  · next hmarked =>
    unfold cellOf
    split
    · next marked => exact absurd rfl (hmarked marked)
    · rfl

/-! ## Rows -/

/-- The first column from `column` on that is not occupied. -/
def freeColumn (occupied : List Bool) (column : Nat) : Nat :=
  if _h : occupied[column]? = some true then freeColumn occupied (column + 1) else column
termination_by occupied.length - column
decreasing_by
  obtain ⟨hlt, -⟩ := List.getElem?_eq_some_iff.1 _h
  omega

/-- The list with zeros behind it, so that it has `n` elements at least. -/
def lengthen (busy : List Nat) (n : Nat) : List Nat :=
  if busy.length < n then busy ++ List.replicate (n - busy.length) 0 else busy

/-- The list with the part between two places filled, which have to be places of it in order. -/
def fill? (busy : List Nat) (start stop n : Nat) : Option (List Nat) :=
  if start ≤ stop ∧ stop ≤ busy.length then
    some (busy.take start ++ List.replicate (stop - start) n ++ busy.drop stop)
  else none

/-- Cover what a cell covers in the rows below. -/
def coverBy? (busy : List Nat) (p : Placed) : Option (List Nat) :=
  let next := p.column + p.cell.colspan
  if 1 < p.cell.rowspan then fill? (lengthen busy next) p.column next (p.cell.rowspan - 1)
  else some busy

/-- Read the cells of a row and place them from `column` on, where columns are `occupied` and `busy`
in the rows below. -/
def rowAt? (classes : List Text) (occupied : List Bool) :
    (column : Nat) → (busy : List Nat) → (sources : List Text) →
      ExceptT Fault Option (List Cell × List Nat)
  | _, busy, [] => return ([], busy)
  | column, busy, source :: sources => do
    let cell ← cellOf? source
    let p : Placed := ⟨freeColumn occupied column, cell⟩
    let busy ← coverBy? busy p
    let (row, busy) ← rowAt? classes occupied (p.column + cell.colspan) busy sources
    return (p.classed classes :: row, busy)

/-- Read rows and place them one below the other. -/
def rowsAt? (classes : List Text) :
    (busy : List Nat) → (sources : List Text) → ExceptT Fault Option (List (List Cell))
  | _, [] => return []
  | busy, source :: sources => do
    let occupied := busy.map fun n => decide (0 < n)
    let cells ← cells? source
    let (row, busy) ← rowAt? classes occupied 0 (busy.map (· - 1)) cells
    return row :: (← rowsAt? classes busy sources)

/-- The table that a text writes, with a class for the table and classes for its columns. -/
def tableOf? (body cls : Text) (classes : List Text) : ExceptT Fault Option Table := do
  let sources ← blocks? body
  return ⟨cls, ← rowsAt? classes [] sources⟩

/-- The free column is told by which countdowns are still running. -/
theorem freeColumn_eq (covered : Covered) (column : Nat) :
    freeColumn (covered.map fun n => decide (0 < n)) column = covered.free column := by
  fun_induction freeColumn (covered.map fun n => decide (0 < n)) column with
  | case1 column h ih =>
    rw [List.getElem?_map, Option.map_eq_some_iff] at h
    obtain ⟨n, hn, hpos⟩ := h
    obtain ⟨hlt, rfl⟩ := List.getElem?_eq_some_iff.1 hn
    rw [ih, Covered.free, Covered.free, List.drop_eq_getElem_cons hlt, List.takeWhile_cons, hpos]
    simp only [if_true, List.length_cons]
    omega
  | case2 column h =>
    rw [Covered.free]
    cases hd : covered.drop column with
    | nil => rfl
    | cons n rest =>
      have hn : covered[column]? = some n := by
        rw [← List.head?_drop, hd, List.head?_cons]
      have hpos : ¬ 0 < n := fun hpos => h (by rw [List.getElem?_map, hn]; simp [hpos])
      rw [List.takeWhile_cons, decide_eq_false hpos]
      rfl

/-- A list that was made long enough can be filled. -/
theorem fill?_lengthen (busy : List Nat) {start stop : Nat} (h : start ≤ stop) (n : Nat) :
    fill? (lengthen busy stop) start stop n = some (Covered.cover busy start stop n) := by
  unfold fill? lengthen Covered.cover
  by_cases hlen : busy.length < stop
  · have hsize : (busy ++ List.replicate (stop - busy.length) 0).length = stop := by
      rw [List.length_append, List.length_replicate]
      omega
    rw [if_pos hlen, if_pos ⟨h, by omega⟩, List.drop_eq_nil_of_le (by omega),
      List.drop_eq_nil_of_le (by omega : busy.length ≤ stop), List.take_append,
      List.take_replicate, Nat.min_eq_left (by omega)]
  · rw [if_neg hlen, if_pos ⟨h, by omega⟩, Nat.sub_eq_zero_of_le (by omega : start ≤ busy.length)]
    simp

/-- A cell covers columns that are there. -/
theorem coverBy?_eq (busy : List Nat) (p : Placed) :
    coverBy? busy p = some (Covered.coverBy busy p) := by
  unfold coverBy? Covered.coverBy
  simp only
  split
  · exact fill?_lengthen busy (Nat.le_add_right _ _) _
  · rfl

/-- **A row is placed cell by cell as its cells are placed together.** -/
theorem rowAt?_eq (classes : List Text) (covered : Covered) (column : Nat) (busy : List Nat)
    (sources : List Text) :
    rowAt? classes (covered.map fun n => decide (0 < n)) column busy sources = certain (do
      let row ← sources.mapM cellOf
      let (placed, below) := placeCells covered column busy row
      return (placed.map (Placed.classed classes), below)) := by
  induction sources generalizing column busy with
  | nil => rfl
  | cons source sources ih =>
    rw [rowAt?, List.mapM_cons, bind_assoc, certain_bind, cellOf?_eq]
    refine bind_congr fun cell => ?_
    rw [freeColumn_eq]
    simp only
    rw [coverBy?_eq]
    show rowAt? _ _ _ _ sources >>= _ = _
    rw [ih, bind_assoc, certain_bind, certain_bind, bind_assoc]
    rfl

/-- **Rows are placed one below the other as they are placed together.** -/
theorem rowsAt?_eq (classes : List Text) (covered : Covered) (sources : List Text) :
    rowsAt? classes covered sources = certain (do
      let rows ← sources.mapM fun row => (cells row).mapM cellOf
      return (placeRows covered rows).map (·.map (Placed.classed classes))) := by
  induction sources generalizing covered with
  | nil => rfl
  | cons source sources ih =>
    rw [rowsAt?, List.mapM_cons, bind_assoc, certain_bind, cells?_eq]
    show rowAt? _ _ _ _ (cells source) >>= _ = _
    rw [rowAt?_eq, certain_bind, bind_assoc]
    refine bind_congr fun row => ?_
    show rowsAt? classes _ sources >>= _ = _
    rw [ih, bind_assoc, certain_bind, certain_bind, bind_assoc]
    rfl

/-- **The tables that are read row by row are those of the text.** -/
theorem tableOf?_eq (body cls : Text) (classes : List Text) :
    tableOf? body cls classes = certain (tableOf body cls classes) := by
  unfold tableOf? tableOf rowsOf
  rw [blocks?_eq, certain_bind]
  show rowsAt? classes [] (blocks body) >>= _ = _
  rw [rowsAt?_eq, certain_bind, bind_assoc]
  rfl

end TableText

/-! ## Blocks of the whole text -/

namespace Scanner

open Text (dropBytes? byteSize)

/-- The places before and behind the first `word` that is left. -/
def terminator (word kind : Text) : Scanner MacroError (Nat × Nat) := do
  let index ← place
  match Text.cutWord word (← sliceFrom index) with
  | some (before, _) =>
    return (index + byteSize before, index + byteSize before + byteSize word)
  | none => throw (.fault (.noTerminator kind))

/-- Scan another text from the same place on. -/
def within {α : Type} (body : Text) (m : Scanner Fault α) : Scanner Fault α := fun _ => m body

/-- Turn the text up to a closing word into something else, with a text in brackets at its front. -/
def block (word kind : Text) (f? : Option Text → Text → ExceptT Fault Option Text) :
    Scanner MacroError Text := do
  let (bodyEnd, stop) ← terminator word kind
  let body ← slice 0 bodyEnd
  let classes ← within body optionalBracketed
  let inside ← slice (← place) bodyEnd
  let markup ← outcome (f? classes inside)
  moveTo stop
  return markup

/-- `[(class,...)] rows` -/
def tableMarkup? (classes : Option Text) (rows : Text) : ExceptT Fault Option Text := do
  let classes := ((classes.getD []).splitOn ',').map TableText.trimmed
  let table ← TableText.tableOf? rows (classes.headD []) classes.tail
  return Site.Markup.table table

/-- `[(class)] items` -/
def listMarkup? (cls : Option Text) (items : Text) : ExceptT Fault Option Text := do
  return Site.Markup.list (TableText.trimmed (cls.getD [])) (← TableText.blocks? items)

/-- A block is scanned as it is read, if what is inside it is. -/
theorem follows_block {f? : Option Text → Text → ExceptT Fault Option Text}
    {f : Option Text → Text → Except Fault Text} {g : Text → Except Fault Text}
    (hf : ∀ classes inside, f? classes inside = certain (f classes inside))
    (hg : ∀ body, g body = Reader.optionalBracketed body >>= fun p => f p.1 p.2)
    (word kind : Text) : Follows (block word kind f?) (Wording.block word kind g) := by
  intro t n rest hn
  unfold block terminator Wording.block
  rw [bind_assoc, place_bind, bind_assoc, sliceFrom_bind hn]
  cases hcut : Text.cutWord word rest with
  | none => exact .error _
  | some found =>
    obtain ⟨before, after⟩ := found
    have hrest := Text.eq_of_cutWord hcut
    rw [hrest] at hn
    obtain ⟨front, ht, hfront⟩ := Text.dropBytes?_eq_some_iff.1 hn
    have hend := Text.dropBytes?_append hn
    have hstop := Text.dropBytes?_append hend
    have hbody : Text.dropBytes? n (front ++ before) = some before :=
      Text.dropBytes?_eq_some_iff.2 ⟨front, rfl, hfront⟩
    have hfirst : Text.consumed t (word ++ after) = front ++ before := by
      rw [ht, ← List.append_assoc, Text.consumed_append_left]
    have hread := follows_optionalBracketed hbody
    simp only
    rw [pure_bind, slice_bind (Nat.zero_le _) (Text.dropBytes?_zero t) hend, hfirst,
      lift_bind_apply, hg before]
    unfold within
    generalize optionalBracketed (front ++ before) n = o at hread ⊢
    generalize Reader.optionalBracketed before = x at hread ⊢
    cases hread with
    | error e => exact .error _
    | @ok classes k inside hle hk =>
      -- The text in brackets was scanned in the part of the text that ends before the word.
      obtain ⟨front', hfront', rfl⟩ := Text.dropBytes?_eq_some_iff.1 hk
      have hinside : Text.dropBytes? (byteSize front') t = some (inside ++ (word ++ after)) := by
        rw [ht, ← List.append_assoc, hfront', List.append_assoc]
        exact Text.dropBytes?_byteSize _ _
      have hkend : byteSize front' ≤ n + byteSize before := by
        rw [← hfront, ← Text.byteSize_append, hfront', Text.byteSize_append]
        omega
      simp only
      rw [place_bind, slice_bind hkend hinside hend, Text.consumed_append_left, hf,
        lift_bind_apply]
      have hbind : ((.ok (classes, inside) : Except Fault _) >>= fun p => f p.1 p.2) =
          f classes inside := rfl
      rw [hbind]
      cases f classes inside with
      | error e => exact .error _
      | ok markup => exact .ok (by omega) hstop

theorem follows_table :
    Follows (block "TABLE#" "table" tableMarkup?)
      (Wording.block "TABLE#" "table" Wording.tableMarkup) := by
  refine follows_block (f := fun classes rows => do
    let classes := ((classes.getD []).splitOn ',').map TableText.trimmed
    let table ← TableText.tableOf rows (classes.headD []) classes.tail
    return Site.Markup.table table) (fun classes rows => ?_) (fun _ => rfl) _ _
  unfold tableMarkup?
  simp only
  rw [TableText.tableOf?_eq, certain_bind]
  rfl

theorem follows_list :
    Follows (block "LIST#" "list" listMarkup?)
      (Wording.block "LIST#" "list" Wording.listMarkup) := by
  refine follows_block (f := fun cls items => .ok <|
    Site.Markup.list (TableText.trimmed (cls.getD [])) (TableText.blocks items))
    (fun cls items => ?_) (fun _ => rfl) _ _
  unfold listMarkup?
  rw [TableText.blocks?_eq]
  rfl

end Scanner

end MemoryDoc
