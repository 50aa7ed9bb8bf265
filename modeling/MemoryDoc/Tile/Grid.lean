/-
# Grids of tiles

A grid is a list of rows of tiles, from top to bottom.  To flip or turn a grid, its tiles are
flipped or turned one by one and then moved to their new places.  Rows may differ in length: a
grid is as wide as its first row, and turning takes the tiles of that many columns.
-/
import MemoryDoc.Tile.Basic

namespace MemoryDoc

/-- Rows of tiles, from top to bottom, each from left to right. -/
abbrev Grid := List (List Tile)

namespace Grid

/-- The number of tiles in the first row. -/
def width (g : Grid) : Nat :=
  (g.head?.getD []).length

/-- The grid whose tiles are changed by `f`. -/
def mapTiles (f : Tile → Tile) (g : Grid) : Grid :=
  g.map (·.map f)

/-- The first `n` columns, each read downwards.  Rows that are too short have no tile in a column. -/
def columns : (n : Nat) → Grid → Grid
  | 0, _ => []
  | n + 1, g => g.filterMap List.head? :: columns n (g.map List.tail)

/-- The grid with its rows and their tiles in the order that a flip mode asks for. -/
def reorder (mode : UInt32) (g : Grid) : Grid :=
  let g := if Tile.flipsSideways mode then g.map List.reverse else g
  if Tile.flipsUpright mode then g.reverse else g

/-- The grid flipped as a flip mode asks. -/
def flip (mode : UInt32) (g : Grid) : Grid :=
  reorder mode (g.mapTiles (Tile.flip mode))

/-- The tiles moved to the places that they have after `n` quarters, for `n` below four. -/
def turned (g : Grid) : (n : Nat) → Grid
  | 1 => (columns g.width g).map List.reverse
  | 2 => g.reverse.map List.reverse
  | 3 => (columns g.width g).reverse
  | _ => g

/-- The grid turned clockwise by quarters, `times` times. -/
def rotate (times : UInt32) (g : Grid) : Grid :=
  turned (g.mapTiles (Tile.rotate times)) (Tile.quarters times)

/-- Column `i` holds the tiles at place `i` of the rows that are long enough. -/
theorem getElem?_columns (n : Nat) (g : Grid) {i : Nat} (h : i < n) :
    (columns n g)[i]? = some (g.filterMap (·[i]?)) := by
  induction n generalizing g i with
  | zero => omega
  | succ n ih =>
    cases i with
    | zero =>
      have hhead : (List.head? : List Tile → Option Tile) = (·[0]?) := by
        funext row
        exact List.head?_eq_getElem?
      simp [columns, hhead]
    | succ i =>
      simp only [columns, List.getElem?_cons_succ]
      rw [ih _ (by omega), List.filterMap_map]
      have htail : ((·[i]?) ∘ List.tail : List Tile → Option Tile) = (·[i + 1]?) := by
        funext row
        exact List.getElem?_tail
      rw [htail]

theorem length_columns (n : Nat) (g : Grid) : (columns n g).length = n := by
  induction n generalizing g with
  | zero => rfl
  | succ n ih => rw [columns, List.length_cons, ih]

/-- A column has the tiles of all rows that are long enough. -/
theorem mem_columns_iff {n : Nat} {g : Grid} {tiles : List Tile} :
    tiles ∈ columns n g ↔ ∃ i < n, g.filterMap (·[i]?) = tiles := by
  rw [List.mem_iff_getElem?]
  constructor
  · rintro ⟨i, hi⟩
    have hlt : i < n := by
      have hlength := (List.getElem?_eq_some_iff.1 hi).1
      rwa [length_columns] at hlength
    rw [getElem?_columns n g hlt, Option.some.injEq] at hi
    exact ⟨i, hlt, hi⟩
  · rintro ⟨i, hlt, rfl⟩
    exact ⟨i, getElem?_columns n g hlt⟩

/-! ## Tiles that are changed -/

section

variable (f : Tile → Tile) (g : Grid)

@[simp] theorem width_mapTiles : (g.mapTiles f).width = g.width := by
  cases g with
  | nil => rfl
  | cons row g => exact List.length_map f

@[simp] theorem length_mapTiles : (g.mapTiles f).length = g.length :=
  List.length_map _

/-- Moving tiles does not look at them. -/
theorem mapTiles_reorder (mode : UInt32) :
    (reorder mode g).mapTiles f = reorder mode (g.mapTiles f) := by
  unfold reorder mapTiles
  cases Tile.flipsSideways mode <;> cases Tile.flipsUpright mode <;> simp [Function.comp_def]

/-- Tiles may be changed before or after the columns are taken. -/
theorem mapTiles_columns (n : Nat) : (columns n g).mapTiles f = columns n (g.mapTiles f) := by
  induction n generalizing g with
  | zero => rfl
  | succ n ih =>
    have htails : mapTiles f (g.map List.tail) = (g.mapTiles f).map List.tail := by
      simp [mapTiles]
    have hheads : (g.filterMap List.head?).map f = (g.mapTiles f).filterMap List.head? := by
      rw [mapTiles, List.map_filterMap, List.filterMap_map]
      exact congrArg (List.filterMap · g) (funext fun _ => List.head?_map.symm)
    rw [columns, columns, ← hheads, ← htails, ← ih]
    rfl

/-- Tiles may be changed before or after the grid is turned. -/
theorem mapTiles_turned (n : Nat) : (turned g n).mapTiles f = turned (g.mapTiles f) n := by
  have hcolumns := mapTiles_columns f g g.width
  match n with
  | 0 => rfl
  | 1 =>
    rw [turned, turned, width_mapTiles, ← hcolumns]
    simp [mapTiles]
  | 2 => simp [turned, mapTiles]
  | 3 =>
    rw [turned, turned, width_mapTiles, ← hcolumns]
    simp [mapTiles]
  | _ + 4 => rfl

end

end Grid

end MemoryDoc
