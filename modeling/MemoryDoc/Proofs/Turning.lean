/-
# Flipped and turned pictures

To flip or turn a rectangular grid is to flip or turn the whole picture.  The tiles change places
and are changed themselves, and the two come together: a pixel is as far from an edge of the picture
as the tile that it is part of, and as it is from the edge of that tile.

Main statements: where the pixels of a flipped and of a turned grid come from (`picture_flip`,
`picture_turned_one`, `picture_turned_two`, `picture_turned_three`), and the rasters of their frames
(`rasterise_flip_rotate`).
-/
import Mathlib.Logic.Function.Iterate
import MemoryDoc.Proofs.Upscaling
import MemoryDoc.Tile.Bytes

namespace MemoryDoc

/-! ## Rasters -/

namespace Raster

/-- The colour in column `i` of row `j`, and black beyond the raster. -/
def colour (r : Raster) (i j : Nat) : Colour :=
  (r.pixel? i j).getD .black

/-- The raster flipped left to right if `sideways`, and top to bottom if `upright`. -/
def flip (sideways upright : Bool) (r : Raster) : Raster :=
  ofFn r.width r.height fun i j =>
    r.colour (if sideways then r.width - 1 - i else i) (if upright then r.height - 1 - j else j)

/-- The raster turned clockwise by a quarter: its leftmost column, read upwards, comes on top. -/
def turn (r : Raster) : Raster :=
  ofFn r.height r.width fun i j => r.colour j (r.height - 1 - i)

section

variable {width height : Nat} {f g : Nat → Nat → Colour}

/-- Rasters that are told alike inside are one raster. -/
theorem ofFn_congr (h : ∀ i < width, ∀ j < height, f i j = g i j) :
    ofFn width height f = ofFn width height g := by
  have harray : (Array.ofFn fun k : Fin (width * height) => f (k % width) (k / width))
      = Array.ofFn fun k : Fin (width * height) => g (k % width) (k / width) := by
    congr 1
    funext k
    have hpos : 0 < width := Nat.pos_of_mul_pos_right (Nat.zero_lt_of_lt k.isLt)
    exact h _ (Nat.mod_lt _ hpos) _ (Nat.div_lt_of_lt_mul k.isLt)
  rw [ofFn, ofFn, harray]

/-- A raster that is told pixel by pixel has these colours. -/
theorem colour_ofFn {i j : Nat} (hi : i < width) (hj : j < height) :
    (ofFn width height f).colour i j = f i j := by
  rw [colour, pixel?_ofFn f hi hj, Option.getD_some]

/-- A flip is told by the pixels that come from the other end. -/
theorem flip_ofFn (sideways upright : Bool) :
    (ofFn width height f).flip sideways upright = ofFn width height fun i j =>
      f (if sideways then width - 1 - i else i) (if upright then height - 1 - j else j) := by
  refine ofFn_congr fun i hi j hj => colour_ofFn ?_ ?_
  · change i < width at hi
    change (if sideways then width - 1 - i else i) < width
    split <;> omega
  · change j < height at hj
    change (if upright then height - 1 - j else j) < height
    split <;> omega

/-- A turn is told by the pixels that come from the columns, from the bottom up. -/
theorem turn_ofFn :
    (ofFn width height f).turn = ofFn height width fun i j => f j (height - 1 - i) := by
  refine ofFn_congr fun i hi j hj => colour_ofFn hj ?_
  change i < height at hi
  change height - 1 - i < height
  omega

/-- Three quarters clockwise are a quarter back. -/
theorem turn_turn_turn_ofFn :
    (ofFn width height f).turn.turn.turn = ofFn height width fun i j => f (width - 1 - j) i := by
  rw [turn_ofFn, turn_ofFn, turn_ofFn]
  refine ofFn_congr fun i hi j hj => ?_
  rw [show height - 1 - (height - 1 - i) = i by omega]

end

end Raster

/-! ## Pixels of tiles -/

/-- A tile whose bitmaps are changed shows what it showed where the pixels come from. -/
theorem Tile.colour_mapRows {f : Rows → Rows} {y x y' x' : Fin 8}
    (h : ∀ r : Rows, (f r).pixel y x = r.pixel y' x') (mode : MaskMode) (t : Tile) :
    (t.mapRows f).colour mode y x = t.colour mode y' x' := by
  have hmask : (t.mapRows f).maskPixel? mode y x = t.maskPixel? mode y' x' := by
    cases mode <;> simp [maskPixel?, mapRows, Function.comp_def, h]
  have hdata : (t.mapRows f).data.pixel y x = t.data.pixel y' x' := h t.data
  unfold colour
  rw [hmask, hdata, attr_mapRows]

namespace Grid

/-- A pixel of the picture of a grid is one of the tile over it. -/
theorem picture_place (mode : MaskMode) (g : Grid) (column row : Nat) (x y : Fin 8) :
    g.picture mode (8 * column + x) (8 * row + y) =
      ((g.tile? row column).map (·.colour mode y x)).getD .black := by
  have hdiv (n : Nat) (k : Fin 8) : (8 * n + k.val) / 8 = n := by omega
  have hmod (n : Nat) (k : Fin 8) : Fin.ofNat 8 (8 * n + k.val) = k := by
    apply Fin.ext
    change (8 * n + k.val) % 8 = k
    omega
  rw [picture, hdiv, hdiv]
  cases g.tile? row column with
  | none => rfl
  | some t =>
    simp only [Option.map_some, Option.getD_some]
    rw [← Tile.colour_ofNat, hmod, hmod]

/-- A grid shows at a place what another shows elsewhere, if the tile there comes from the other
place and so does the pixel in the tile. -/
theorem picture_eq_of_tile? {g g' : Grid} (f : Rows → Rows) {row column row' column' : Nat}
    {y x y' x' : Fin 8} (htile : g'.tile? row column = (g.tile? row' column').map (·.mapRows f))
    (hpixel : ∀ r : Rows, (f r).pixel y x = r.pixel y' x') (mode : MaskMode) :
    g'.picture mode (8 * column + x) (8 * row + y) =
      g.picture mode (8 * column' + x') (8 * row' + y') := by
  rw [picture_place, picture_place, htile, Option.map_map]
  have hcolour : (fun t : Tile => t.colour mode y x) ∘ (fun t : Tile => t.mapRows f)
      = fun t : Tile => t.colour mode y' x' := by
    funext t
    exact Tile.colour_mapRows hpixel mode t
  rw [hcolour]

/-! ## Places of tiles -/

/-- If every element of a list is mapped to something, they keep their places. -/
theorem getElem?_filterMap {α β : Type} {f : α → Option β} {l : List α}
    (h : ∀ a ∈ l, (f a).isSome) (i : Nat) : (l.filterMap f)[i]? = l[i]?.bind f := by
  induction l generalizing i with
  | nil => rfl
  | cons a l ih =>
    obtain ⟨b, hb⟩ := Option.isSome_iff_exists.1 (h a (by simp))
    rw [List.filterMap_cons_some hb]
    cases i with
    | zero => exact hb.symm
    | succ i => exact ih (fun a ha => h a (by simp [ha])) i

/-- All rows of a grid have the same number of tiles. -/
def IsRectangle (g : Grid) (columns : Nat) : Prop :=
  ∀ row ∈ g, row.length = columns

section

variable {g : Grid} {m n row column : Nat}

/-- The width of a rectangle is the length of its rows. -/
theorem IsRectangle.width_eq (h : IsRectangle g n) (hg : g ≠ []) : g.width = n := by
  obtain ⟨row, rows, rfl⟩ := List.exists_cons_of_ne_nil hg
  exact h row (by simp)

/-- A rectangle stays one if its rows are put upside down. -/
theorem IsRectangle.reverse (h : IsRectangle g n) : IsRectangle g.reverse n :=
  fun row hrow => h row (List.mem_reverse.1 hrow)

theorem IsRectangle.map_reverse (h : IsRectangle g n) : IsRectangle (g.map List.reverse) n := by
  intro row hrow
  obtain ⟨row, hmem, rfl⟩ := List.mem_map.1 hrow
  rw [List.length_reverse, h row hmem]

theorem IsRectangle.mapTiles (h : IsRectangle g n) (f : Tile → Tile) :
    IsRectangle (g.mapTiles f) n := by
  intro row hrow
  obtain ⟨row, hmem, rfl⟩ := List.mem_map.1 hrow
  rw [List.length_map, h row hmem]

theorem IsRectangle.reorder (h : IsRectangle g n) (mode : UInt32) :
    IsRectangle (reorder mode g) n := by
  unfold Grid.reorder
  cases Tile.flipsSideways mode <;> cases Tile.flipsUpright mode
  · exact h
  · exact h.reverse
  · exact h.map_reverse
  · exact h.map_reverse.reverse

/-- The columns of a rectangle have a tile in each row. -/
theorem IsRectangle.isSome_getElem? (h : IsRectangle g n) (hcolumn : column < n) :
    ∀ row ∈ g, row[column]?.isSome := by
  intro row hrow
  rw [List.getElem?_eq_getElem (by rw [h row hrow]; exact hcolumn)]
  rfl

/-- The columns of a rectangle are as long as it is high. -/
theorem IsRectangle.columns (h : IsRectangle g n) : IsRectangle (columns n g) g.length := by
  intro tiles htiles
  obtain ⟨i, hlt, rfl⟩ := mem_columns_iff.1 htiles
  exact List.filterMap_length_eq_length.2 (h.isSome_getElem? hlt)

/-- A tile that is changed stays in its place. -/
theorem tile?_mapTiles (f : Tile → Tile) (g : Grid) (row column : Nat) :
    (g.mapTiles f).tile? row column = (g.tile? row column).map f := by
  rw [tile?, tile?, mapTiles, List.getElem?_map]
  cases g[row]? with
  | none => rfl
  | some tiles => exact List.getElem?_map

/-- Upside down, a row is as far from the bottom as it was from the top. -/
theorem tile?_reverse (h : row < g.length) (column : Nat) :
    tile? g.reverse row column = g.tile? (g.length - 1 - row) column := by
  rw [tile?, tile?, List.getElem?_reverse h]

/-- In reverse, a tile is as far from the right as it was from the left. -/
theorem tile?_map_reverse (h : IsRectangle g n) (row : Nat) (hcolumn : column < n) :
    tile? (g.map List.reverse) row column = g.tile? row (n - 1 - column) := by
  rw [tile?, tile?, List.getElem?_map]
  cases hrow : g[row]? with
  | none => rfl
  | some tiles =>
    have hlen := h tiles (List.mem_of_getElem? hrow)
    simp only [Option.map_some, Option.bind_some]
    rw [List.getElem?_reverse (by omega), hlen]

/-- Row `row` of the columns of a rectangle is its column `row`. -/
theorem tile?_columns (h : IsRectangle g n) (hrow : row < n) (column : Nat) :
    tile? (columns n g) row column = g.tile? column row := by
  rw [tile?, tile?, getElem?_columns n g hrow, Option.bind_some]
  exact getElem?_filterMap (h.isSome_getElem? hrow) column

end

/-! ## Where pixels come from -/

/-- A place in a row of `n` tiles, counted from the other end. -/
theorem sub_place {column n : Nat} (h : column < n) (x : Fin 8) :
    8 * n - 1 - (8 * column + x.val) = 8 * (n - 1 - column) + x.rev.val := by
  rw [Fin.val_rev]
  omega

/-- A pixel is in one of the tiles, and in one of eight places there. -/
theorem exists_place {x n : Nat} (h : x < 8 * n) :
    ∃ (column : Nat) (k : Fin 8), column < n ∧ x = 8 * column + k :=
  ⟨x / 8, Fin.ofNat 8 x, by omega, (Nat.div_add_mod x 8).symm⟩

section

variable {g : Grid} {n : Nat}

/-- **A flip takes each tile from the other end and flips it.** -/
theorem tile?_flip (h : IsRectangle g n) (mode : UInt32) {row column : Nat} (hrow : row < g.length)
    (hcolumn : column < n) :
    (g.flip mode).tile? row column =
      (g.tile? (if Tile.flipsUpright mode then g.length - 1 - row else row)
        (if Tile.flipsSideways mode then n - 1 - column else column)).map (Tile.flip mode) := by
  have hmap := h.mapTiles (Tile.flip mode)
  -- Rows are moved after their tiles, so the sides are asked of the grid in between.
  have hlen : row < (g.mapTiles (Tile.flip mode)).length := by rwa [length_mapTiles]
  have hlen' : row < ((g.mapTiles (Tile.flip mode)).map List.reverse).length := by
    rwa [List.length_map]
  rw [flip, reorder]
  cases Tile.flipsSideways mode <;> cases Tile.flipsUpright mode
  · exact tile?_mapTiles ..
  · simp only [Bool.false_eq_true, if_true, if_false]
    rw [tile?_reverse hlen, tile?_mapTiles, length_mapTiles]
  · simp only [Bool.false_eq_true, if_true, if_false]
    rw [tile?_map_reverse hmap _ hcolumn, tile?_mapTiles]
  · simp only [if_true]
    rw [tile?_reverse hlen', tile?_map_reverse hmap _ hcolumn, tile?_mapTiles, List.length_map,
      length_mapTiles]

/-- **The pixels of a flipped grid come from the places that mirror theirs.** -/
theorem picture_flip (h : IsRectangle g n) (mode : UInt32) (mask : MaskMode) {x y : Nat}
    (hx : x < 8 * n) (hy : y < 8 * g.length) :
    (g.flip mode).picture mask x y =
      g.picture mask (if Tile.flipsSideways mode then 8 * n - 1 - x else x)
        (if Tile.flipsUpright mode then 8 * g.length - 1 - y else y) := by
  obtain ⟨column, a, hcolumn, rfl⟩ := exists_place hx
  obtain ⟨row, b, hrow, rfl⟩ := exists_place hy
  rw [sub_place hcolumn, sub_place hrow]
  rw [picture_eq_of_tile? _ (tile?_flip h mode hrow hcolumn) (fun r => r.pixel_flip _ _ b a) mask]
  cases Tile.flipsSideways mode <;> cases Tile.flipsUpright mode <;> rfl

/-- A quarter turn takes the tiles of a row from a column, from the bottom up. -/
theorem tile?_turned_one (h : IsRectangle g n) (hg : g ≠ []) {row column : Nat} (hrow : row < n)
    (hcolumn : column < g.length) :
    (turned g 1).tile? row column = g.tile? (g.length - 1 - column) row := by
  rw [turned, h.width_eq hg, tile?_map_reverse h.columns _ hcolumn, tile?_columns h hrow]

/-- A half turn takes each tile from the opposite corner. -/
theorem tile?_turned_two (h : IsRectangle g n) {row column : Nat} (hrow : row < g.length)
    (hcolumn : column < n) :
    (turned g 2).tile? row column = g.tile? (g.length - 1 - row) (n - 1 - column) := by
  rw [turned, tile?_map_reverse h.reverse _ hcolumn, tile?_reverse hrow]

/-- Three quarter turns take the tiles of a row from a column, which is counted from the right. -/
theorem tile?_turned_three (h : IsRectangle g n) (hg : g ≠ []) {row column : Nat} (hrow : row < n) :
    (turned g 3).tile? row column = g.tile? column (n - 1 - row) := by
  have hlen : row < (columns n g).length := by rwa [length_columns]
  rw [turned, h.width_eq hg, tile?_reverse hlen, length_columns, tile?_columns h (by omega)]

theorem mapTiles_turns_zero (g : Grid) : g.mapTiles (Tile.mapRows (Rows.turns 0)) = g := by
  have hrows : Rows.turns 0 = id := rfl
  have htile : Tile.mapRows (Rows.turns 0) = id := by
    funext t
    rw [Tile.mapRows, hrows, Option.map_id]
    rfl
  rw [mapTiles, htile]
  simp

/-- **The pixels of a grid that is turned by a quarter come from the columns, read upwards.** -/
theorem picture_turned_one (h : IsRectangle g n) (hg : g ≠ []) (mask : MaskMode) {x y : Nat}
    (hx : x < 8 * g.length) (hy : y < 8 * n) :
    (turned (g.mapTiles (Tile.mapRows (Rows.turns 1))) 1).picture mask x y =
      g.picture mask y (8 * g.length - 1 - x) := by
  obtain ⟨column, a, hcolumn, rfl⟩ := exists_place hx
  obtain ⟨row, b, hrow, rfl⟩ := exists_place hy
  rw [sub_place hcolumn, ← mapTiles_turned]
  refine picture_eq_of_tile? (Rows.turns 1) ?_ (fun r => r.pixel_turn b a) mask
  rw [tile?_mapTiles, tile?_turned_one h hg hrow hcolumn]

/-- A half turn takes each pixel from the opposite corner. -/
theorem picture_turned_two (h : IsRectangle g n) (mask : MaskMode) {x y : Nat}
    (hx : x < 8 * n) (hy : y < 8 * g.length) :
    (turned (g.mapTiles (Tile.mapRows (Rows.turns 2))) 2).picture mask x y =
      g.picture mask (8 * n - 1 - x) (8 * g.length - 1 - y) := by
  obtain ⟨column, a, hcolumn, rfl⟩ := exists_place hx
  obtain ⟨row, b, hrow, rfl⟩ := exists_place hy
  rw [sub_place hcolumn, sub_place hrow, ← mapTiles_turned]
  refine picture_eq_of_tile? (Rows.turns 2) ?_ (fun r => ?_) mask
  · rw [tile?_mapTiles, tile?_turned_two h hrow hcolumn]
  · rw [Rows.turns, Rows.turns, Rows.turns, Rows.pixel_turn, Rows.pixel_turn]

/-- Three quarter turns take the pixels of a row from a column, which is counted from the right. -/
theorem picture_turned_three (h : IsRectangle g n) (hg : g ≠ []) (mask : MaskMode) {x y : Nat}
    (hx : x < 8 * g.length) (hy : y < 8 * n) :
    (turned (g.mapTiles (Tile.mapRows (Rows.turns 3))) 3).picture mask x y =
      g.picture mask (8 * n - 1 - y) x := by
  obtain ⟨column, a, hcolumn, rfl⟩ := exists_place hx
  obtain ⟨row, b, hrow, rfl⟩ := exists_place hy
  rw [sub_place hrow, ← mapTiles_turned]
  refine picture_eq_of_tile? (Rows.turns 3) ?_ (fun r => ?_) mask
  · rw [tile?_mapTiles, tile?_turned_three h hg hrow]
  · rw [Rows.turns, Rows.turns, Rows.turns, Rows.turns, Rows.pixel_turn, Rows.pixel_turn,
      Rows.pixel_turn, Fin.rev_rev]

/-! ## Sizes -/

theorem length_flip (mode : UInt32) (g : Grid) : (g.flip mode).length = g.length := by
  rw [flip, reorder]
  cases Tile.flipsSideways mode <;> cases Tile.flipsUpright mode <;> simp

/-- A flip keeps the width. -/
theorem width_flip (h : IsRectangle g n) (hg : g ≠ []) (mode : UInt32) :
    (g.flip mode).width = g.width := by
  have hne : g.flip mode ≠ [] := by
    rw [← List.length_pos_iff, length_flip, List.length_pos_iff]
    exact hg
  have hrect : IsRectangle (g.flip mode) n := (h.mapTiles _).reorder mode
  rw [hrect.width_eq hne, h.width_eq hg]

/-- Turning by an odd number of quarters exchanges the sides of a grid. -/
theorem width_turned (h : IsRectangle g n) (hg : g ≠ []) (hn : 0 < n) {q : Nat} (hq : q < 4) :
    (turned g q).width = if q % 2 = 0 then g.width else g.length := by
  have hcolumns : columns n g ≠ [] := by
    rw [← List.length_pos_iff, length_columns]
    exact hn
  match q with
  | 0 => rfl
  | 1 =>
    rw [turned, h.width_eq hg, h.columns.map_reverse.width_eq (by simpa using hcolumns)]
    rfl
  | 2 =>
    rw [turned, h.reverse.map_reverse.width_eq (by simpa using hg), h.width_eq hg]
    rfl
  | 3 =>
    rw [turned, h.width_eq hg, h.columns.reverse.width_eq (by simpa using hcolumns)]
    rfl

/-- A quarter turn makes rows of the columns. -/
theorem length_turned (g : Grid) {q : Nat} (hq : q < 4) :
    (turned g q).length = if q % 2 = 0 then g.length else g.width := by
  match q with
  | 0 => rfl
  | 1 => simp [turned, length_columns]
  | 2 => simp [turned]
  | 3 => simp [turned, length_columns]

end

end Grid

/-! ## Rasters of frames -/

theorem Raster.div_lt {n s i : Nat} (h : i < n * s) : i / s < n :=
  Nat.div_lt_of_lt_mul (by rwa [Nat.mul_comm])

/-- A place in a side of `n` pixels, each drawn `s` times, counted from the other end. -/
theorem Raster.sub_div {n s i : Nat} (h : i < n * s) : (n * s - 1 - i) / s = n - 1 - i / s := by
  rw [Nat.mul_comm] at h ⊢
  rw [Nat.sub_sub, Nat.add_comm 1 i, Nat.mul_sub_div i s n h, Nat.sub_sub, Nat.add_comm 1]

namespace Frame

variable {g g' : Grid} {scale : UInt32} {mask : MaskMode} {f : Frame}

/-- The raster of a frame that is not cropped is all of the picture, scaled up. -/
theorem rasterise_uncropped (h : make g scale mask {} = .ok f) :
    f.rasterise = Raster.ofFn (8 * g.width * max scale.toNat 1) (8 * g.length * max scale.toNat 1)
      fun i j => g.picture mask (i / max scale.toNat 1) (j / max scale.toNat 1) := by
  have hside (full : Nat) : croppedSide full 0 none = full := Nat.min_self full
  obtain ⟨-, rfl⟩ := make_eq_ok.1 h
  rw [rasterise_eq_picture, hside, hside]
  simp only [UInt32.toNat_zero, Nat.zero_add]

/-- A frame that is not cropped is made unless one of its sides or the whole is too large. -/
theorem exists_make_uncropped_iff :
    (∃ f, make g scale mask {} = .ok f) ↔
      8 * g.width * max scale.toNat 1 ≤ maxSide ∧ 8 * g.length * max scale.toNat 1 ≤ maxSide ∧
        8 * g.width * max scale.toNat 1 * (8 * g.length * max scale.toNat 1) ≤ maxPixels := by
  have hside (full : Nat) : croppedSide full 0 none = full := Nat.min_self full
  constructor
  · rintro ⟨f, hf⟩
    have hbounds := (make_eq_ok.1 hf).1
    rwa [hside, hside] at hbounds
  · intro h
    exact ⟨_, make_eq_ok.2 ⟨by rwa [hside, hside], rfl⟩⟩

/-- **The raster of a flipped grid is the flipped raster.** -/
theorem rasterise_flip {n : Nat} (h : g.IsRectangle n) (hg : g ≠ [])
    (hf : make g scale mask {} = .ok f) (mode : UInt32) :
    ∃ f', make (g.flip mode) scale mask {} = .ok f' ∧
      f'.rasterise = f.rasterise.flip (Tile.flipsSideways mode) (Tile.flipsUpright mode) := by
  have hwidth := Grid.width_flip h hg mode
  have hlength := Grid.length_flip mode g
  obtain ⟨f', hf'⟩ : ∃ f', make (g.flip mode) scale mask {} = .ok f' := by
    rw [exists_make_uncropped_iff, hwidth, hlength]
    exact exists_make_uncropped_iff.1 ⟨f, hf⟩
  refine ⟨f', hf', ?_⟩
  rw [rasterise_uncropped hf', rasterise_uncropped hf, Raster.flip_ofFn, hwidth, hlength,
    h.width_eq hg]
  generalize max scale.toNat 1 = s
  refine Raster.ofFn_congr fun i hi j hj => ?_
  rw [Grid.picture_flip h mode mask (Raster.div_lt hi) (Raster.div_lt hj)]
  cases Tile.flipsSideways mode <;> cases Tile.flipsUpright mode <;>
    simp [Raster.sub_div, hi, hj]

/-- **The raster of a turned grid is the turned raster.** -/
theorem rasterise_rotate {n : Nat} (h : g.IsRectangle n) (hg : g ≠ []) (hn : 0 < n)
    (hf : make g scale mask {} = .ok f) (times : UInt32) :
    ∃ f', make (g.rotate times) scale mask {} = .ok f' ∧
      f'.rasterise = Raster.turn^[Tile.quarters times] f.rasterise := by
  have hq : Tile.quarters times < 4 := Nat.mod_lt _ (by decide)
  have hrotate : g.rotate times =
      (g.mapTiles (Tile.mapRows (Rows.turns (Tile.quarters times)))).turned
        (Tile.quarters times) := rfl
  rw [hrotate]
  generalize Tile.quarters times = q at hq
  have hmap := h.mapTiles (Tile.mapRows (Rows.turns q))
  have hwidth := Grid.width_turned hmap (by simpa [Grid.mapTiles] using hg) hn hq
  have hlength := Grid.length_turned (g.mapTiles (Tile.mapRows (Rows.turns q))) hq
  rw [Grid.width_mapTiles, Grid.length_mapTiles] at hwidth hlength
  obtain ⟨f', hf'⟩ : ∃ f',
      make ((g.mapTiles (Tile.mapRows (Rows.turns q))).turned q) scale mask {} = .ok f' := by
    obtain ⟨hw, hl, harea⟩ := exists_make_uncropped_iff.1 ⟨f, hf⟩
    rw [exists_make_uncropped_iff, hwidth, hlength]
    split
    · exact ⟨hw, hl, harea⟩
    · exact ⟨hl, hw, by rwa [Nat.mul_comm]⟩
  refine ⟨f', hf', ?_⟩
  rw [rasterise_uncropped hf', rasterise_uncropped hf, hwidth, hlength, h.width_eq hg]
  generalize max scale.toNat 1 = s
  -- Every pixel of the turned raster comes from the place that as many turns of it lead back to.
  obtain rfl | rfl | rfl | rfl : q = 0 ∨ q = 1 ∨ q = 2 ∨ q = 3 := by omega
  · rw [Grid.mapTiles_turns_zero]
    rfl
  · change _ = Raster.turn _
    rw [Raster.turn_ofFn]
    refine Raster.ofFn_congr fun i hi j hj => ?_
    change i < 8 * g.length * s at hi
    change j < 8 * n * s at hj
    rw [Grid.picture_turned_one h hg mask (Raster.div_lt hi) (Raster.div_lt hj), Raster.sub_div hi]
  · change _ = Raster.turn (Raster.turn _)
    rw [Raster.turn_ofFn, Raster.turn_ofFn]
    refine Raster.ofFn_congr fun i hi j hj => ?_
    change i < 8 * n * s at hi
    change j < 8 * g.length * s at hj
    rw [Grid.picture_turned_two h mask (Raster.div_lt hi) (Raster.div_lt hj), Raster.sub_div hi,
      Raster.sub_div hj]
  · change _ = Raster.turn (Raster.turn (Raster.turn _))
    rw [Raster.turn_turn_turn_ofFn]
    refine Raster.ofFn_congr fun i hi j hj => ?_
    change i < 8 * g.length * s at hi
    change j < 8 * n * s at hj
    rw [Grid.picture_turned_three h hg mask (Raster.div_lt hi) (Raster.div_lt hj),
      Raster.sub_div hj]

/-- **To flip or turn a rectangular grid is to flip or turn the whole picture.**  If the grid has a
frame that is not cropped, so has the grid flipped in any mode, and its raster is mirrored left to
right if bit 0 of the mode is set and top to bottom if bit 1 is.  So has the grid turned any number
of times, and its raster is turned clockwise by as many quarters, of which four come to none.  Tiles
are flipped and turned as they are by bytes, by a table and by bit planes. -/
theorem rasterise_flip_rotate {n : Nat} (h : g.IsRectangle n) (hg : g ≠ []) (hn : 0 < n)
    (hf : make g scale mask {} = .ok f) (mode times : UInt32) :
    (∃ f', make (g.flip mode) scale mask {} = .ok f' ∧
      f'.rasterise = f.rasterise.flip (mode.toNat.testBit 0) (mode.toNat.testBit 1)) ∧
    (∃ f', make (g.rotate times) scale mask {} = .ok f' ∧
      f'.rasterise = Raster.turn^[times.toNat % 4] f.rasterise) ∧
    ∀ t : Tile, t.flip mode = t.flipBytes mode ∧ t.rotate times = t.rotateBytes times :=
  ⟨rasterise_flip h hg hf mode, rasterise_rotate h hg hn hf times,
    fun t => ⟨(t.flipBytes_eq mode).symm, (t.rotateBytes_eq times).symm⟩⟩

/-- Two tiles side by side, of which one has a mask, are flipped both ways, and turned back by a
quarter in seven turns. -/
theorem rasterise_flip_rotate_masked :
    ∃ f f₁ f₂,
      make [[⟨56, .ofList [0x80, 0x41], some (.ofList [0xf0])⟩, ⟨7, .ofList [3], none⟩]] 3 .andOr {}
        = .ok f ∧
      make (Grid.flip 3
        [[⟨56, .ofList [0x80, 0x41], some (.ofList [0xf0])⟩, ⟨7, .ofList [3], none⟩]]) 3 .andOr {}
        = .ok f₁ ∧
      make (Grid.rotate 7
        [[⟨56, .ofList [0x80, 0x41], some (.ofList [0xf0])⟩, ⟨7, .ofList [3], none⟩]]) 3 .andOr {}
        = .ok f₂ ∧
      f₁.rasterise = f.rasterise.flip true true ∧ f₂.rasterise = f.rasterise.turn.turn.turn := by
  obtain ⟨f, hf⟩ : ∃ f, make
      [[⟨56, .ofList [0x80, 0x41], some (.ofList [0xf0])⟩, ⟨7, .ofList [3], none⟩]] 3 .andOr {}
      = .ok f := ⟨_, rfl⟩
  obtain ⟨⟨f₁, hf₁, hflip⟩, ⟨f₂, hf₂, hturn⟩, -⟩ :=
    rasterise_flip_rotate (n := 2) (by intro row hrow; simp_all) (by simp) (by decide) hf 3 7
  exact ⟨f, f₁, f₂, hf, hf₁, hf₂, hflip, hturn⟩

end Frame

end MemoryDoc
