/-
# Drawings

A drawing says where the tiles of a picture come from and how they are put together.  It becomes a
frame when it is taken from a memory.

Main statements: tiles that are cut into rows are in order (`Grid.flatten_ofTiles`), and come to be
there one after the other (`Grid.ofTiles_eq_foldl_push`), group by group
(`GridSource.grid_tiles_flatten`).
-/
import MemoryDoc.Memory.Tiles
import MemoryDoc.Picture.Frame

namespace MemoryDoc

/-- Where a single tile comes from. -/
structure TileSource where
  attr : UInt8
  address : UInt32
  /-- The distance of the bytes of the tile. -/
  step : UInt32
  /-- The number that is added to the bytes of the tile. -/
  increment : UInt8
  /-- Where the mask comes from: an address and the distance of its bytes. -/
  mask : Option (UInt32 × UInt32)
deriving DecidableEq, Repr

/-- The tile that is taken from a memory.  Nothing is added to the bytes of the mask. -/
def TileSource.tile (s : TileSource) (m : Memory) : Tile where
  attr := s.attr
  data := (m.bitmap s.address s.step).map (· + s.increment)
  mask := s.mask.map fun (address, step) => m.bitmap address step

/-- Tiles in rows of `width`.  Only the last row may be shorter; without tiles there is an empty
row. -/
def Grid.ofTiles (width : Nat) (tiles : List Tile) : Grid :=
  match _h : tiles.drop width with
  | [] => [tiles]
  | next :: rest =>
    if _hw : width = 0 then [tiles] else tiles.take width :: Grid.ofTiles width (next :: rest)
termination_by tiles.length
decreasing_by
  have hlen := congrArg List.length _h
  simp only [List.length_drop, List.length_cons] at hlen ⊢
  omega

namespace Grid

/-- Tiles that fit in a row are one row. -/
theorem ofTiles_of_le {width : Nat} {tiles : List Tile} (h : tiles.length ≤ width) :
    ofTiles width tiles = [tiles] := by
  unfold ofTiles
  split
  · rfl
  · next hcons =>
    rw [List.drop_of_length_le h] at hcons
    cases hcons

/-- Tiles that do not fit in a row go on in further rows. -/
theorem ofTiles_of_lt {width : Nat} {tiles : List Tile} (hpos : 0 < width)
    (h : width < tiles.length) :
    ofTiles width tiles = tiles.take width :: ofTiles width (tiles.drop width) := by
  conv => lhs; unfold ofTiles
  split
  · next hnil =>
    have := List.drop_eq_nil_iff.1 hnil
    omega
  · next next rest hcons => rw [dif_neg (by omega), hcons]

/-- Rows of no tiles would never end, so there is one row. -/
theorem ofTiles_zero (tiles : List Tile) : ofTiles 0 tiles = [tiles] := by
  unfold ofTiles
  split <;> rfl

/-- Putting tiles in rows neither loses any nor changes their order. -/
theorem flatten_ofTiles (width : Nat) (tiles : List Tile) : (ofTiles width tiles).flatten = tiles := by
  fun_induction ofTiles width tiles with
  | case1 tiles h => exact List.append_nil tiles
  | case2 tiles next rest h hwidth => exact List.append_nil tiles
  | case3 tiles next rest h hwidth ih => rw [List.flatten_cons, ih, ← h, List.take_append_drop]

/-- Putting tiles in rows does not look at them. -/
theorem mapTiles_ofTiles (f : Tile → Tile) (width : Nat) (tiles : List Tile) :
    (ofTiles width tiles).mapTiles f = ofTiles width (tiles.map f) := by
  fun_induction ofTiles width tiles with
  | case1 tiles h =>
    have hle : (tiles.map f).length ≤ width := by
      rw [List.length_map]
      exact List.drop_eq_nil_iff.1 h
    rw [ofTiles_of_le hle]
    rfl
  | case2 tiles next rest h hwidth =>
    rw [hwidth, ofTiles_zero]
    rfl
  | case3 tiles next rest h hwidth ih =>
    have hlt : width < (tiles.map f).length := by
      have hlen := congrArg List.length h
      rw [List.length_drop, List.length_cons] at hlen
      rw [List.length_map]
      omega
    rw [ofTiles_of_lt (Nat.pos_of_ne_zero hwidth) hlt, ← List.map_take, ← List.map_drop, h, ← ih]
    rfl

/-! ## One tile after the other -/

/-- The grid with one more tile, which is put in the last row unless that is full. -/
def push (width : Nat) (g : Grid) (tile : Tile) : Grid :=
  match g.getLast? with
  | none => [[tile]]
  | some last =>
    if last.length < width then g.dropLast ++ [last ++ [tile]] else g ++ [[tile]]

variable {width : Nat}

/-- A tile goes into the last row as long as that is not full, and else into a row of its own. -/
theorem push_append (width : Nat) (full : Grid) (last : List Tile) (tile : Tile) :
    push width (full ++ [last]) tile =
      if last.length < width then full ++ [last ++ [tile]] else full ++ [last] ++ [[tile]] := by
  simp [push]

/-- A row that is not full has room for a tile. -/
theorem length_snoc_le {last : List Tile} (h : last.length < width) (tile : Tile) :
    (last ++ [tile]).length ≤ width := by
  rw [List.length_append]
  exact h

/-- Tiles that are put in behind full rows and a last one go on in the last one. -/
theorem foldl_push_append (hwidth : 0 < width) (full : Grid) (last : List Tile)
    (hlast : last.length ≤ width) (tiles : List Tile) :
    tiles.foldl (push width) (full ++ [last]) = full ++ ofTiles width (last ++ tiles) := by
  induction tiles generalizing full last with
  | nil => rw [List.append_nil, ofTiles_of_le hlast, List.foldl_nil]
  | cons tile tiles ih =>
    rw [List.foldl_cons, push_append]
    split
    · next hlt =>
      rw [ih full _ (length_snoc_le hlt tile), List.append_assoc, List.singleton_append]
    · next hge =>
      obtain rfl : last.length = width := by omega
      have hone : [tile].length ≤ last.length := hwidth
      have hrow : ofTiles last.length (last ++ tile :: tiles) =
          last :: ofTiles last.length (tile :: tiles) := by
        rw [ofTiles_of_lt hwidth (by simp), List.take_left, List.drop_left]
      rw [ih _ _ hone, hrow, List.append_assoc]
      rfl

/-- **Cutting tiles into rows is putting them in one after the other.** -/
theorem ofTiles_eq_foldl_push (hwidth : 0 < width) (tiles : List Tile) :
    ofTiles width tiles = tiles.foldl (push width) [[]] :=
  (foldl_push_append hwidth [] [] (Nat.zero_le width) tiles).symm

end Grid

/-- Where the tiles of a picture come from. -/
inductive GridSource where
  /-- Single tiles, in rows of `width`. -/
  | tiles (width : Nat) (sources : List TileSource)
  /-- A part of the screen. -/
  | screen (area : Memory.ScreenArea)
  /-- The glyphs of a message in a font. -/
  | glyphs (font : UInt32) (attr : UInt8) (message : Text)
deriving DecidableEq, Repr

/-- The grid that is taken from a memory. -/
def GridSource.grid (m : Memory) : GridSource → Grid
  | tiles width sources => Grid.ofTiles width (sources.map (·.tile m))
  | screen area => m.screen area
  | glyphs font attr message => m.glyphs font attr message

/-- **The grid of groups of tiles is put together group by group**: the tiles of each group go on in
the row in which those of the group before ended. -/
theorem GridSource.grid_tiles_flatten (m : Memory) {width : Nat} (hwidth : 0 < width)
    (groups : List (List TileSource)) :
    (tiles width groups.flatten).grid m =
      groups.foldl (fun g sources => (sources.map (·.tile m)).foldl (Grid.push width) g) [[]] := by
  rw [grid, Grid.ofTiles_eq_foldl_push hwidth, List.map_flatten, List.foldl_flatten, List.foldl_map]

/-- What a picture shows. -/
structure Drawing where
  source : GridSource
  flip : UInt32 := 0
  rotate : UInt32 := 0
  scale : UInt32
  mask : MaskMode := .ignored
  crop : Crop
deriving DecidableEq, Repr

/-- The frame of a drawing that is taken from a memory.  The grid is flipped before it is turned. -/
def Drawing.frame (d : Drawing) (m : Memory) : Except Frame.TooLarge Frame :=
  Frame.make (((d.source.grid m).flip d.flip).rotate d.rotate) d.scale d.mask d.crop

end MemoryDoc
