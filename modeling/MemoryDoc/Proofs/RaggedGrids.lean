/-
# Grids with a short row

Tiles are put in rows of which only the last may be shorter.  A grid is measured by its first row:
a quarter turn takes that many columns, and a frame is that wide.  So nothing is lost as long as the
first row is a longest one.  Flipping top to bottom brings the short row to the top, as does half a
turn, and three quarters bring up the shortest column.

Main statement: exactly which flips and turns of which arrays of tiles leave all tiles in the
picture (`shows_ofTiles_iff`).
-/
import MemoryDoc.Macro.Drawing
import MemoryDoc.Proofs.Turning

namespace MemoryDoc

/-! ## Tiles that are shown -/

/-- An uncropped frame shows tiles if each of them is once in its grid, in a cell that lies inside
the frame, and is drawn there. -/
structure Frame.Shows (f : Frame) (tiles : List Tile) : Prop where
  /-- The tiles of the grid are these. -/
  perm : f.tiles.flatten.Perm tiles
  /-- The cells that hold tiles end inside the frame. -/
  inside : ∀ row column, (f.tiles.tile? row column).isSome →
    8 * (column + 1) * f.scale ≤ f.fullWidth ∧ 8 * (row + 1) * f.scale ≤ f.fullHeight
  /-- A pixel over a tile has its colour in the raster. -/
  drawn : ∀ px py t, f.tileAt px py = some t →
    f.rasterise.pixel? px py = some (t.shade f.mask (px / f.scale) (py / f.scale))

namespace Grid

/-- The first row is a longest one. -/
def FirstLongest (g : Grid) : Prop :=
  ∀ row ∈ g, row.length ≤ g.width

/-- A grid keeps tiles if each of them is once in it and its first row is a longest one. -/
structure Keeps (g : Grid) (tiles : List Tile) : Prop where
  perm : g.flatten.Perm tiles
  firstLongest : g.FirstLongest

section

variable {g : Grid} {row column : Nat}

/-- A tile is there if its row is there and long enough. -/
theorem isSome_tile?_iff :
    (g.tile? row column).isSome ↔ ∃ tiles, g[row]? = some tiles ∧ column < tiles.length := by
  rw [tile?]
  cases g[row]? with
  | none => simp
  | some tiles => simp

theorem lt_length_of_tile? (h : (g.tile? row column).isSome) : row < g.length := by
  obtain ⟨tiles, htiles, -⟩ := isSome_tile?_iff.1 h
  exact (List.getElem?_eq_some_iff.1 htiles).1

/-- Where no row is longer than the first, every tile is in one of the columns. -/
theorem FirstLongest.lt_width (h : g.FirstLongest) (htile : (g.tile? row column).isSome) :
    column < g.width := by
  obtain ⟨tiles, htiles, hlt⟩ := isSome_tile?_iff.1 htile
  exact Nat.lt_of_lt_of_le hlt (h tiles (List.mem_of_getElem? htiles))

end

end Grid

namespace Frame

variable {g : Grid} {scale : UInt32} {mask : MaskMode} {f : Frame}

/-- **A frame shows the tiles that its grid keeps.** -/
theorem shows_iff_keeps (hf : make g scale mask {} = .ok f) (tiles : List Tile) :
    f.Shows tiles ↔ g.Keeps tiles := by
  have hraster := rasterise_uncropped hf
  obtain ⟨-, rfl⟩ := make_eq_ok.1 hf
  have hscale : 0 < max scale.toNat 1 := by omega
  constructor
  · rintro ⟨hperm, hinside, -⟩
    refine ⟨hperm, fun row hrow => ?_⟩
    obtain ⟨i, hi⟩ := List.mem_iff_getElem?.1 hrow
    -- The last tile of a row is inside only if the first row goes as far.
    rcases Nat.eq_zero_or_pos row.length with hzero | hpos
    · omega
    · have htile : (g.tile? i (row.length - 1)).isSome :=
        Grid.isSome_tile?_iff.2 ⟨row, hi, by omega⟩
      have hle := Nat.le_of_mul_le_mul_right (hinside i _ htile).1 hscale
      omega
  · rintro ⟨hperm, hfirst⟩
    refine ⟨hperm, fun row column htile => ⟨?_, ?_⟩, fun px py t ht => ?_⟩
    · have hlt := hfirst.lt_width htile
      exact Nat.mul_le_mul_right _ (by omega)
    · have hlt : row < g.length := Grid.lt_length_of_tile? htile
      exact Nat.mul_le_mul_right _ (by omega)
    · rw [tileAt_eq] at ht
      have hsome := Option.isSome_of_eq_some ht
      have hpx := hfirst.lt_width hsome
      have hpy := Grid.lt_length_of_tile? hsome
      simp only at ht hpx hpy ⊢
      have hleft : px < 8 * g.width * max scale.toNat 1 := by
        rw [← Nat.div_lt_iff_lt_mul hscale]
        omega
      have htop : py < 8 * g.length * max scale.toNat 1 := by
        rw [← Nat.div_lt_iff_lt_mul hscale]
        omega
      rw [hraster, Raster.pixel?_ofFn _ hleft htop, Grid.picture, ht]

end Frame

/-! ## Columns -/

namespace Grid

/-- The tiles of the first columns are those at the heads of the rows, and those of the first
columns of the rest. -/
theorem perm_heads_append (n : Nat) (g : Grid) :
    (g.filterMap List.head? ++ ((g.map List.tail).map (List.take n)).flatten).Perm
      (g.map (List.take (n + 1))).flatten := by
  induction g with
  | nil => exact .nil
  | cons row g ih =>
    cases row with
    | nil =>
      have hnil : ([] :: g).filterMap List.head? = g.filterMap List.head? := rfl
      rw [hnil]
      simpa using ih
    | cons t row =>
      have hcons : ((t :: row) :: g).filterMap List.head? = t :: g.filterMap List.head? := rfl
      rw [hcons]
      simp only [List.map_cons, List.tail_cons, List.take_succ_cons, List.flatten_cons,
        List.cons_append]
      -- What is left of this row passes the heads of the rows below.
      exact ((List.perm_append_comm_assoc ..).trans (ih.append_left _)).cons t

/-- The first `n` columns have the first `n` tiles of each row. -/
theorem flatten_columns_perm (n : Nat) (g : Grid) :
    (columns n g).flatten.Perm (g.map (List.take n)).flatten := by
  induction n generalizing g with
  | zero =>
    have hnil : (g.map (List.take 0)).flatten = [] := by simp
    rw [hnil]
    exact .nil
  | succ n ih =>
    rw [columns, List.flatten_cons]
    exact ((ih (g.map List.tail)).append_left _).trans (perm_heads_append n g)

/-- The fronts of the rows have no more tiles than the rows. -/
theorem length_flatten_take_le (n : Nat) (g : Grid) :
    (g.map (List.take n)).flatten.length ≤ g.flatten.length := by
  induction g with
  | nil => exact Nat.le_refl 0
  | cons row g ih =>
    rw [List.map_cons, List.flatten_cons, List.flatten_cons, List.length_append,
      List.length_append, List.length_take]
    omega

/-- Where the fronts of the rows have all the tiles, no row is longer. -/
theorem length_le_of_length_flatten_take {n : Nat} {g : Grid}
    (h : (g.map (List.take n)).flatten.length = g.flatten.length) :
    ∀ row ∈ g, row.length ≤ n := by
  induction g with
  | nil => simp
  | cons row g ih =>
    have hle := length_flatten_take_le n g
    rw [List.map_cons, List.flatten_cons, List.flatten_cons, List.length_append,
      List.length_append, List.length_take] at h
    rw [List.forall_mem_cons]
    exact ⟨by omega, ih (by omega)⟩

/-- The first `n` columns have all tiles if no row is longer. -/
theorem flatten_columns_perm_iff {n : Nat} {g : Grid} :
    (columns n g).flatten.Perm g.flatten ↔ ∀ row ∈ g, row.length ≤ n := by
  constructor
  · intro h
    exact length_le_of_length_flatten_take ((flatten_columns_perm n g).symm.trans h).length_eq
  · intro h
    have htake : g.map (List.take n) = g :=
      (List.map_congr_left fun row hrow => List.take_of_length_le (h row hrow)).trans
        (List.map_id' g)
    have hperm := flatten_columns_perm n g
    rwa [htake] at hperm

/-- Reversing each row keeps the tiles. -/
theorem flatten_map_reverse_perm (g : Grid) : (g.map List.reverse).flatten.Perm g.flatten := by
  induction g with
  | nil => exact .nil
  | cons row g ih => exact (row.reverse_perm).append ih

theorem flatten_reverse_perm (g : Grid) : g.reverse.flatten.Perm g.flatten :=
  (g.reverse_perm).flatten

end Grid

/-! ## Turns -/

namespace Grid

variable {g : Grid} {n : Nat} {tiles : List Tile}

/-- In a rectangle no row is longer than the first. -/
theorem IsRectangle.firstLongest (h : IsRectangle g n) : g.FirstLongest := by
  intro row hrow
  have hwidth := h.width_eq (List.ne_nil_of_mem hrow)
  exact Nat.le_of_eq ((h row hrow).trans hwidth.symm)

/-- Reversing each row keeps the lengths. -/
theorem firstLongest_map_reverse : FirstLongest (g.map List.reverse) ↔ g.FirstLongest := by
  have hwidth : width (g.map List.reverse) = g.width := by
    cases g with
    | nil => rfl
    | cons row g => exact List.length_reverse
  simp only [FirstLongest, hwidth, List.forall_mem_map, List.length_reverse]

/-- If all rows have a tile, the first column is a longest one. -/
theorem firstLongest_columns (hrows : ∀ row ∈ g, row ≠ []) (n : Nat) :
    FirstLongest (columns n g) := by
  cases n with
  | zero => simp [columns, FirstLongest]
  | succ n =>
    have hwidth : width (columns (n + 1) g) = g.length := by
      change (g.filterMap List.head?).length = g.length
      rw [List.filterMap_length_eq_length]
      exact fun row hrow => List.isSome_head?.2 (hrows row hrow)
    intro tiles htiles
    obtain ⟨i, -, rfl⟩ := mem_columns_iff.1 htiles
    rw [hwidth]
    exact List.length_filterMap_le ..

/-- The last column is a longest one only in a rectangle. -/
theorem firstLongest_reverse_columns_iff (hrows : ∀ row ∈ g, row ≠ []) (h : g.FirstLongest) :
    FirstLongest (columns g.width g).reverse ↔ ∃ n, g.IsRectangle n := by
  constructor
  · intro hfirst
    refine ⟨g.width, fun row hrow => ?_⟩
    have hpos : 0 < g.width :=
      Nat.lt_of_lt_of_le (List.length_pos_iff.2 (hrows row hrow)) (h row hrow)
    -- The last column is as long as the first, so no row is too short for it.
    have hwidth : width (columns g.width g).reverse = (g.filterMap (·[g.width - 1]?)).length := by
      rw [width, List.head?_reverse, List.getLast?_eq_getElem?, length_columns,
        getElem?_columns _ _ (by omega)]
      rfl
    have hmem : g.filterMap (·[0]?) ∈ (columns g.width g).reverse :=
      List.mem_reverse.2 (mem_columns_iff.2 ⟨0, hpos, rfl⟩)
    have hlength : (g.filterMap (·[0]?)).length = g.length := by
      rw [List.filterMap_length_eq_length]
      intro row hrow
      rw [List.getElem?_eq_getElem (List.length_pos_iff.2 (hrows row hrow))]
      rfl
    have hle := hfirst _ hmem
    rw [hwidth, hlength] at hle
    have heq : (g.filterMap (·[g.width - 1]?)).length = g.length :=
      Nat.le_antisymm (List.length_filterMap_le ..) hle
    have hsome := List.filterMap_length_eq_length.1 heq row hrow
    have hlast : g.width - 1 < row.length := by simpa using hsome
    have := h row hrow
    omega
  · rintro ⟨n, hrect⟩
    rcases eq_or_ne g [] with rfl | hg
    · simp [columns, width, FirstLongest]
    · rw [hrect.width_eq hg]
      exact hrect.columns.reverse.firstLongest

/-- A grid that is not turned keeps its tiles if no row is longer than the first, which tells the
width. -/
theorem keeps_turned_zero (hperm : g.flatten.Perm tiles) :
    (turned g 0).Keeps tiles ↔ g.FirstLongest :=
  ⟨fun h => h.firstLongest, fun h => ⟨hperm, h⟩⟩

/-- A quarter turn keeps the tiles if no row is longer than the first. -/
theorem keeps_turned_one (hperm : g.flatten.Perm tiles) (hrows : ∀ row ∈ g, row ≠ []) :
    (turned g 1).Keeps tiles ↔ g.FirstLongest := by
  have hcolumns := flatten_map_reverse_perm (columns g.width g)
  constructor
  · rintro ⟨hkept, -⟩
    -- A tile of a longer row is in none of the columns that are taken.
    exact flatten_columns_perm_iff.1 (hcolumns.symm.trans (hkept.trans hperm.symm))
  · intro h
    exact ⟨hcolumns.trans ((flatten_columns_perm_iff.2 h).trans hperm),
      firstLongest_map_reverse.2 (firstLongest_columns hrows _)⟩

/-- A half turn keeps the tiles if no row is longer than the last. -/
theorem keeps_turned_two (hperm : g.flatten.Perm tiles) :
    (turned g 2).Keeps tiles ↔ FirstLongest g.reverse := by
  constructor
  · intro h
    exact firstLongest_map_reverse.1 h.firstLongest
  · intro h
    exact ⟨(flatten_map_reverse_perm _).trans ((flatten_reverse_perm g).trans hperm),
      firstLongest_map_reverse.2 h⟩

/-- Three quarter turns keep the tiles of rectangles only. -/
theorem keeps_turned_three (hperm : g.flatten.Perm tiles) (hrows : ∀ row ∈ g, row ≠ []) :
    (turned g 3).Keeps tiles ↔ ∃ n, g.IsRectangle n := by
  have hcolumns := flatten_reverse_perm (columns g.width g)
  constructor
  · rintro ⟨hkept, hlongest⟩
    have hfirst : g.FirstLongest :=
      flatten_columns_perm_iff.1 (hcolumns.symm.trans (hkept.trans hperm.symm))
    exact (firstLongest_reverse_columns_iff hrows hfirst).1 hlongest
  · rintro ⟨n, hrect⟩
    have hfirst := hrect.firstLongest
    exact ⟨hcolumns.trans ((flatten_columns_perm_iff.2 hfirst).trans hperm),
      (firstLongest_reverse_columns_iff hrows hfirst).2 ⟨n, hrect⟩⟩

end Grid

/-! ## Rows of an array of tiles -/

namespace Grid

section

variable {g : Grid} {w k r : Nat}

/-- The rows of an array are full but for the last. -/
theorem exists_lengths_ofTiles (hw : 0 < w) {tiles : List Tile} (h : tiles ≠ []) :
    ∃ k r, 0 < r ∧ r ≤ w ∧ tiles.length = w * k + r ∧
      (ofTiles w tiles).map List.length = List.replicate k w ++ [r] := by
  fun_induction ofTiles w tiles with
  | case1 tiles hdrop =>
    have hle := List.drop_eq_nil_iff.1 hdrop
    exact ⟨0, tiles.length, List.length_pos_iff.2 h, hle, by omega, rfl⟩
  | case2 tiles next rest hdrop hzero => omega
  | case3 tiles next rest hdrop hzero ih =>
    -- Tiles are left for another row, so this one is full.
    obtain ⟨k, r, hr, hrw, hlength, hlengths⟩ := ih (List.cons_ne_nil next rest)
    have hlen := congrArg List.length hdrop
    rw [List.length_drop, hlength] at hlen
    refine ⟨k + 1, r, hr, hrw, ?_, ?_⟩
    · rw [Nat.mul_succ]
      omega
    · rw [List.map_cons, hlengths, List.length_take, Nat.min_eq_left (by omega)]
      rfl

theorem width_eq_head?_lengths (g : Grid) : g.width = (g.map List.length).head?.getD 0 := by
  cases g with
  | nil => rfl
  | cons row g => rfl

-- From here on the rows of the grid are `k` rows of `w` tiles and then one of `r`.
variable (h : g.map List.length = List.replicate k w ++ [r])

include h

/-- A grid of full rows and a last one has the two lengths of these. -/
theorem forall_length_iff (p : Nat → Prop) :
    (∀ row ∈ g, p row.length) ↔ (k = 0 ∨ p w) ∧ p r := by
  rw [← List.forall_mem_map, h, List.forall_mem_append, List.forall_mem_singleton]
  have hfull : (∀ n ∈ List.replicate k w, p n) ↔ k = 0 ∨ p w := by
    simp only [List.mem_replicate, ne_eq, and_imp, forall_eq_apply_imp_iff]
    exact Decidable.or_iff_not_imp_left.symm
  rw [hfull]

/-- A row that is not longer comes last. -/
theorem firstLongest_of_lengths (hr : r ≤ w) : g.FirstLongest := by
  rw [FirstLongest, forall_length_iff h (· ≤ g.width), width_eq_head?_lengths, h]
  cases k with
  | zero => exact ⟨.inl rfl, Nat.le_refl r⟩
  | succ k => exact ⟨.inr (Nat.le_refl w), hr⟩

/-- A row that is not longer comes first. -/
theorem firstLongest_reverse_iff (hr : r ≤ w) : FirstLongest g.reverse ↔ k = 0 ∨ r = w := by
  have hwidth : width g.reverse = r := by
    rw [width_eq_head?_lengths, List.map_reverse, h, List.reverse_concat]
    rfl
  simp only [FirstLongest, hwidth, List.mem_reverse]
  rw [forall_length_iff h (· ≤ r)]
  omega

/-- A grid of full rows and a last one is a rectangle if the last one is full or the only one. -/
theorem isRectangle_iff_of_lengths : (∃ n, g.IsRectangle n) ↔ k = 0 ∨ r = w := by
  have hrect (n : Nat) : g.IsRectangle n ↔ (k = 0 ∨ w = n) ∧ r = n :=
    forall_length_iff h (· = n)
  simp only [hrect, exists_eq_right']
  omega

theorem ne_nil_of_lengths (hr : 0 < r) (hw : 0 < w) : ∀ row ∈ g, row ≠ [] := by
  have hpos := (forall_length_iff h (0 < ·)).2 ⟨.inr hw, hr⟩
  exact fun row hrow => List.length_pos_iff.1 (hpos row hrow)

variable {tiles : List Tile} {q : Nat} (hr : 0 < r) (hrw : r ≤ w)
  (hperm : g.flatten.Perm tiles) (hq : q < 4)

include hr hrw hperm hq

/-- With the short row at the bottom, tiles are kept if the grid is not turned by more than a
quarter. -/
theorem keeps_turned_iff : (turned g q).Keeps tiles ↔ (k = 0 ∨ r = w) ∨ q ≤ 1 := by
  have hrows := ne_nil_of_lengths h hr (Nat.lt_of_lt_of_le hr hrw)
  have hfirst := firstLongest_of_lengths h hrw
  match q with
  | 0 => simp [keeps_turned_zero hperm, hfirst]
  | 1 => simp [keeps_turned_one hperm hrows, hfirst]
  | 2 =>
    rw [keeps_turned_two hperm, firstLongest_reverse_iff h hrw]
    omega
  | 3 =>
    rw [keeps_turned_three hperm hrows, isRectangle_iff_of_lengths h]
    omega

/-- With the short row on top, they are kept only if the grid is turned by half a turn. -/
theorem keeps_turned_reverse_iff :
    (turned g.reverse q).Keeps tiles ↔ (k = 0 ∨ r = w) ∨ q = 2 := by
  have hrows : ∀ row ∈ g.reverse, row ≠ [] := fun row hrow =>
    ne_nil_of_lengths h hr (Nat.lt_of_lt_of_le hr hrw) row (List.mem_reverse.1 hrow)
  have hfirst := firstLongest_of_lengths h hrw
  replace hperm := (flatten_reverse_perm g).trans hperm
  -- Upside down the short row is on top, so only a half turn brings the longest one there.
  match q with
  | 0 =>
    rw [keeps_turned_zero hperm, firstLongest_reverse_iff h hrw]
    omega
  | 1 =>
    rw [keeps_turned_one hperm hrows, firstLongest_reverse_iff h hrw]
    omega
  | 2 => simp [keeps_turned_two hperm, hfirst]
  | 3 =>
    have hrect : (∃ n, IsRectangle g.reverse n) ↔ ∃ n, g.IsRectangle n := by
      simp [IsRectangle]
    rw [keeps_turned_three hperm hrows, hrect, isRectangle_iff_of_lengths h]
    omega

end

/-- **Which arrays of tiles are kept when they are moved by a flip and then by a turn.** -/
theorem keeps_turned_reorder_iff {w q : Nat} {tiles : List Tile} (hw : 0 < w)
    (htiles : tiles ≠ []) (mode : UInt32) (hq : q < 4) :
    (turned (reorder mode (ofTiles w tiles)) q).Keeps tiles ↔
      tiles.length ≤ w ∨ w ∣ tiles.length ∨
        if Tile.flipsUpright mode then q = 2 else q ≤ 1 := by
  obtain ⟨k, r, hr, hrw, hlength, hlengths⟩ := exists_lengths_ofTiles hw htiles
  -- Rows are full and the array is a rectangle, or there is only one row.
  have hfull : tiles.length ≤ w ∨ w ∣ tiles.length ↔ k = 0 ∨ r = w := by
    rw [hlength, Nat.dvd_add_right (Nat.dvd_mul_right w k)]
    constructor
    · rintro (hle | hdvd)
      · rcases Nat.eq_zero_or_pos k with hk | hk
        · exact .inl hk
        · have := Nat.le_mul_of_pos_right w hk
          omega
      · exact .inr (Nat.le_antisymm hrw (Nat.le_of_dvd hr hdvd))
    · rintro (rfl | rfl)
      · exact .inl (by omega)
      · exact .inr (Nat.dvd_refl r)
  rw [← or_assoc, hfull]
  have hperm : (ofTiles w tiles).flatten.Perm tiles := .of_eq (flatten_ofTiles w tiles)
  have hlengths' : ((ofTiles w tiles).map List.reverse).map List.length
      = List.replicate k w ++ [r] := by
    rw [← hlengths, List.map_map]
    simp [Function.comp_def]
  have hperm' := (flatten_map_reverse_perm (ofTiles w tiles)).trans hperm
  rw [reorder]
  cases Tile.flipsSideways mode <;> cases Tile.flipsUpright mode
  · exact keeps_turned_iff hlengths hr hrw hperm hq
  · exact keeps_turned_reverse_iff hlengths hr hrw hperm hq
  · exact keeps_turned_iff hlengths' hr hrw hperm' hq
  · exact keeps_turned_reverse_iff hlengths' hr hrw hperm' hq

end Grid

/-! ## Pictures of arrays -/

namespace Frame

/-- **Which flips and turns of an array of tiles leave all of them in the picture.**  Tiles are put
in rows of `w`, flipped and then turned, and there is a frame that is not cropped.  It shows every
tile if there is only one row or no short row.  With a short row, it does if the grid is not flipped
top to bottom and turned by a quarter or not at all, or if it is flipped and turned by half a turn.
In all other cases there are tiles that the grid has lost, or that lie outside the frame. -/
theorem shows_ofTiles_iff {w : Nat} {tiles : List Tile} {mode times scale : UInt32}
    {mask : MaskMode} {f : Frame} (hw : 0 < w) (htiles : tiles ≠ [])
    (hf : make (((Grid.ofTiles w tiles).flip mode).rotate times) scale mask {} = .ok f) :
    f.Shows (tiles.map fun t => (t.flip mode).rotate times) ↔
      tiles.length ≤ w ∨ w ∣ tiles.length ∨
        if mode.toNat.testBit 1 then times.toNat % 4 = 2 else times.toNat % 4 ≤ 1 := by
  have hgrid : ((Grid.ofTiles w tiles).flip mode).rotate times =
      (Grid.reorder mode (Grid.ofTiles w (tiles.map fun t => (t.flip mode).rotate times))).turned
        (Tile.quarters times) := by
    rw [Grid.rotate, Grid.flip, Grid.mapTiles_reorder, Grid.mapTiles_ofTiles, Grid.mapTiles_ofTiles,
      List.map_map]
    rfl
  rw [hgrid] at hf
  have hne : (tiles.map fun t => (t.flip mode).rotate times) ≠ [] := by simpa using htiles
  have hq : Tile.quarters times < 4 := Nat.mod_lt _ (by decide)
  rw [shows_iff_keeps hf, Grid.keeps_turned_reorder_iff hw hne mode hq, List.length_map]
  rfl

/-- Three tiles, told apart by their attributes. -/
def threeTiles : List Tile :=
  [⟨1, .ofList [], none⟩, ⟨2, .ofList [], none⟩, ⟨3, .ofList [], none⟩]

theorem ofTiles_two_threeTiles : Grid.ofTiles 2 threeTiles =
    [[⟨1, .ofList [], none⟩, ⟨2, .ofList [], none⟩], [⟨3, .ofList [], none⟩]] := by
  rw [Grid.ofTiles_of_lt (by decide) (by decide), Grid.ofTiles_of_le (by decide)]
  rfl

/-- Three tiles in rows of two are all shown when they are flipped top to bottom and then turned by
half a turn. -/
theorem shows_ofTiles_iff_halfTurned :
    ∃ f, make (((Grid.ofTiles 2 threeTiles).flip 2).rotate 2) 1 .ignored {} = .ok f ∧
      f.Shows (threeTiles.map fun t => (t.flip 2).rotate 2) := by
  obtain ⟨f, hf⟩ : ∃ f,
      make (((Grid.ofTiles 2 threeTiles).flip 2).rotate 2) 1 .ignored {} = .ok f := by
    rw [ofTiles_two_threeTiles]
    exact ⟨_, rfl⟩
  exact ⟨f, hf, (shows_ofTiles_iff (by decide) (by decide) hf).2 (by decide)⟩

/-- They are not when they are only flipped: the short row is the first, so the frame is one tile
wide. -/
theorem not_shows_shortRowOnTop :
    ∃ f, make (((Grid.ofTiles 2 threeTiles).flip 2).rotate 0) 1 .ignored {} = .ok f ∧
      ¬ f.Shows (threeTiles.map fun t => (t.flip 2).rotate 0) := by
  rw [ofTiles_two_threeTiles]
  refine ⟨_, rfl, fun h => ?_⟩
  have hinside : 16 ≤ 8 := (h.inside 1 1 rfl).1
  omega

end Frame

end MemoryDoc
