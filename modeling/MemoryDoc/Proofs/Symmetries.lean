/-
# The symmetries of a square

Flips and turns come together as those of a square do.  Two flips make the flip that is asked for by
the bits in which their modes differ, turns add up and four quarters come to none, half a turn flips
both ways, and a quarter turn behind a flip is a turn back in front of it.  This is so for bitmaps, for
tiles with their masks, and for grids, whose tiles are changed and change places at once.  Turns of a
grid by a quarter need all of its rows to be of one length, and at least one tile.

Main statement: the laws of a square hold for tiles and for grids (`squareLaws_tile_and_grid`).
-/
import MemoryDoc.Proofs.RaggedGrids

namespace MemoryDoc

/-- Flips and turns compose as the symmetries of a square do.  The laws of quarter turns are asked of
the things with the property `P`. -/
structure SquareLaws {α : Type} (flip rotate : UInt32 → α → α) (P : α → Prop) : Prop where
  /-- Only the low two bits of a flip mode count. -/
  flip_low : ∀ mode a, flip (mode &&& 3) a = flip mode a
  flip_zero : ∀ a, flip 0 a = a
  /-- What two flips flip twice is as it was. -/
  flip_flip : ∀ mode mode' a, flip mode' (flip mode a) = flip (mode ^^^ mode') a
  rotate_zero : ∀ a, rotate 0 a = a
  /-- Half a turn flips both ways. -/
  rotate_two : ∀ a, rotate 2 a = flip 3 a
  /-- Turns add up, and four quarters come to none. -/
  rotate_rotate : ∀ times times' a, P a →
    rotate times' (rotate times a) = rotate ((times.toNat + times'.toNat) % 4).toUInt32 a
  /-- A quarter turn behind a flip is a quarter back in front of it. -/
  rotate_flip : ∀ a, P a → rotate 1 (flip 1 a) = flip 1 (rotate 3 a)

namespace SquareLaws

variable {α : Type} {flip rotate : UInt32 → α → α} {P : α → Prop}

/-- Flipping twice changes nothing. -/
theorem flip_self (h : SquareLaws flip rotate P) (mode : UInt32) (a : α) :
    flip mode (flip mode a) = a := by
  rw [h.flip_flip, UInt32.xor_self, h.flip_zero]

/-- Four quarter turns change nothing. -/
theorem rotate_four (h : SquareLaws flip rotate P) {a : α} (ha : P a) :
    rotate 1 (rotate 1 (rotate 1 (rotate 1 a))) = a := by
  -- The turns are added up from the inside, as `P` is known of `a` only.
  have htwo : rotate 1 (rotate 1 a) = rotate 2 a := h.rotate_rotate 1 1 a ha
  have hthree : rotate 1 (rotate 2 a) = rotate 3 a := h.rotate_rotate 2 1 a ha
  have hfour : rotate 1 (rotate 3 a) = rotate 0 a := h.rotate_rotate 3 1 a ha
  rw [htwo, hthree, hfour, h.rotate_zero]

end SquareLaws

/-! ## Bitmaps -/

namespace Rows

/-- **Flips add up, each way on its own.** -/
theorem flip_flip (sideways upright sideways' upright' : Bool) (r : Rows) :
    (r.flip sideways upright).flip sideways' upright' =
      r.flip (sideways ^^ sideways') (upright ^^ upright') := by
  apply ext_pixel
  intro y x
  rw [pixel_flip, pixel_flip, pixel_flip]
  cases sideways <;> cases sideways' <;> cases upright <;> cases upright' <;> simp [Fin.rev_rev]

theorem flip_false (r : Rows) : r.flip false false = r := by
  apply ext_pixel
  intro y x
  rw [pixel_flip]
  simp

/-- Quarter turns add up. -/
theorem turns_turns (n n' : Nat) (r : Rows) : turns n' (turns n r) = turns (n + n') r := by
  induction n generalizing r with
  | zero => rw [Nat.zero_add]; rfl
  | succ n ih =>
    rw [show n + 1 + n' = (n + n') + 1 by omega]
    show turns n' (turns n r.turn) = turns (n + n') r.turn
    exact ih r.turn

/-- A half turn is a flip both ways. -/
theorem turns_two (r : Rows) : turns 2 r = r.flip true true := by
  apply ext_pixel
  intro y x
  show r.turn.turn.pixel y x = _
  rw [pixel_turn, pixel_turn, pixel_flip]
  rfl

/-- Four quarter turns change nothing. -/
theorem turns_four (r : Rows) : turns 4 r = r := by
  rw [← turns_turns 2 2, turns_two, turns_two, flip_flip]
  exact flip_false r

/-- Only the remainder by four counts. -/
theorem turns_mod (n : Nat) (r : Rows) : turns (n % 4) r = turns n r := by
  induction n using Nat.strongRecOn with
  | ind n ih =>
    by_cases hn : n < 4
    · rw [Nat.mod_eq_of_lt hn]
    · rw [show n % 4 = (n - 4) % 4 by omega, ih (n - 4) (by omega)]
      conv => rhs; rw [show n = 4 + (n - 4) by omega, ← turns_turns, turns_four]

/-- A turn of a mirrored tile is a mirrored turn the other way round. -/
theorem turn_flip (r : Rows) : (r.flip true false).turn = (turns 3 r).flip true false := by
  apply ext_pixel
  intro y x
  show _ = (r.turn.turn.turn.flip true false).pixel y x
  simp only [pixel_turn, pixel_flip, if_true, Bool.false_eq_true, if_false, Fin.rev_rev]

end Rows

/-! ## Tiles -/

namespace Tile

/-- Two changes of the rows of a tile, one after the other, are one change. -/
theorem mapRows_mapRows (f f' : Rows → Rows) (t : Tile) :
    (t.mapRows f).mapRows f' = t.mapRows fun r => f' (f r) := by
  simp [mapRows, Function.comp_def]

theorem mapRows_congr {f f' : Rows → Rows} (h : ∀ r, f r = f' r) (t : Tile) :
    t.mapRows f = t.mapRows f' := by
  rw [show f = f' from funext h]

theorem mapRows_of_forall {f : Rows → Rows} (h : ∀ r, f r = r) (t : Tile) : t.mapRows f = t := by
  rw [show f = id from funext h, mapRows, Option.map_id]
  rfl

/-- Two modes together flip sideways if just one of them does. -/
theorem flipsSideways_xor (mode mode' : UInt32) :
    flipsSideways (mode ^^^ mode') = (flipsSideways mode ^^ flipsSideways mode') := by
  rw [flipsSideways, UInt32.toNat_xor, Nat.testBit_xor]
  rfl

/-- Two modes together flip upright if just one of them does. -/
theorem flipsUpright_xor (mode mode' : UInt32) :
    flipsUpright (mode ^^^ mode') = (flipsUpright mode ^^ flipsUpright mode') := by
  rw [flipsUpright, UInt32.toNat_xor, Nat.testBit_xor]
  rfl

/-- The two lowest bits of a mode are those that are kept of it. -/
theorem testBit_low (mode : UInt32) {k : Nat} (hk : k < 2) :
    (mode &&& 3).toNat.testBit k = mode.toNat.testBit k := by
  have hbit : Nat.testBit 3 k = true := by
    obtain rfl | rfl : k = 0 ∨ k = 1 := by omega
    · decide
    · decide
  rw [UInt32.toNat_and, Nat.testBit_and]
  show (mode.toNat.testBit k && Nat.testBit 3 k) = _
  rw [hbit, Bool.and_true]

theorem flipsSideways_low (mode : UInt32) : flipsSideways (mode &&& 3) = flipsSideways mode :=
  testBit_low mode (by decide)

theorem flipsUpright_low (mode : UInt32) : flipsUpright (mode &&& 3) = flipsUpright mode :=
  testBit_low mode (by decide)

/-- The quarter turns of a sum are those of its parts. -/
theorem quarters_add (times times' : UInt32) :
    quarters ((times.toNat + times'.toNat) % 4).toUInt32 =
      (quarters times + quarters times') % 4 := by
  have hlt : (times.toNat + times'.toNat) % 4 < UInt32.size := by
    have := Nat.mod_lt (times.toNat + times'.toNat) (show 0 < 4 by decide)
    simp only [UInt32.size]
    omega
  rw [quarters, quarters, quarters]
  rw [show ((times.toNat + times'.toNat) % 4).toUInt32.toNat = (times.toNat + times'.toNat) % 4 from
    UInt32.toNat_ofNat_of_lt' hlt]
  omega

/-- **Tiles are flipped and turned as a square is.** -/
theorem squareLaws : SquareLaws flip rotate fun _ => True where
  flip_low mode t := by
    rw [flip, flip, flipsSideways_low, flipsUpright_low]
  flip_zero t := mapRows_of_forall Rows.flip_false t
  flip_flip mode mode' t := by
    rw [flip, flip, flip, mapRows_mapRows, flipsSideways_xor, flipsUpright_xor]
    exact mapRows_congr (fun r => Rows.flip_flip _ _ _ _ r) t
  rotate_zero t := mapRows_of_forall (fun _ => rfl) t
  rotate_two t := mapRows_congr Rows.turns_two t
  rotate_rotate times times' t _ := by
    rw [rotate, rotate, rotate, mapRows_mapRows, quarters_add]
    apply mapRows_congr
    intro r
    rw [Rows.turns_turns, Rows.turns_mod]
  rotate_flip t _ := by
    rw [rotate, flip, flip, rotate, mapRows_mapRows, mapRows_mapRows]
    exact mapRows_congr Rows.turn_flip t

/-- What no flip and no turn changes: the attribute, and whether there is a mask. -/
def kind (t : Tile) : UInt8 × Bool :=
  (t.attr, t.mask.isSome)

/-- The attribute of a tile stays, and so does whether it has a mask. -/
theorem kind_mapRows (f : Rows → Rows) (t : Tile) : (t.mapRows f).kind = t.kind := by
  rw [kind, attr_mapRows, isSome_mask_mapRows]
  rfl

end Tile

/-! ## Grids -/

namespace Grid

variable {g g' : Grid} {k n q : Nat}

/-- Two changes of the tiles of a grid, one after the other, are one change. -/
theorem mapTiles_mapTiles (f f' : Tile → Tile) (g : Grid) :
    (g.mapTiles f).mapTiles f' = g.mapTiles fun t => f' (f t) := by
  simp [mapTiles, Function.comp_def]

theorem mapTiles_congr {f f' : Tile → Tile} (h : ∀ t, f t = f' t) (g : Grid) :
    g.mapTiles f = g.mapTiles f' := by
  rw [show f = f' from funext h]

theorem mapTiles_of_forall {f : Tile → Tile} (h : ∀ t, f t = t) (g : Grid) : g.mapTiles f = g := by
  rw [show f = id from funext h, mapTiles]
  simp

/-- Rows and columns are put in reverse as two modes together say. -/
theorem reorder_reorder (mode mode' : UInt32) (g : Grid) :
    reorder mode' (reorder mode g) = reorder (mode ^^^ mode') g := by
  have htwice : (List.reverse ∘ List.reverse : List Tile → List Tile) = id :=
    funext List.reverse_reverse
  unfold reorder
  rw [Tile.flipsSideways_xor, Tile.flipsUpright_xor]
  cases Tile.flipsSideways mode <;> cases Tile.flipsSideways mode' <;>
    cases Tile.flipsUpright mode <;> cases Tile.flipsUpright mode' <;>
      simp only [Bool.false_eq_true, if_true, if_false, bne_self_eq_false, Bool.bne_false,
        Bool.bne_true, Bool.not_false, List.map_reverse, List.map_map, htwice, List.map_id,
        List.reverse_reverse]

/-! ### Rectangles -/

/-- A grid of `k` rows with `n` tiles each, and at least one tile. -/
structure IsFull (g : Grid) (k n : Nat) : Prop where
  rows_pos : 0 < k
  columns_pos : 0 < n
  length_eq : g.length = k
  rectangle : g.IsRectangle n

theorem IsFull.ne_nil (h : g.IsFull k n) : g ≠ [] := by
  have hpos := h.rows_pos
  rw [← List.length_pos_iff, h.length_eq]
  exact hpos

theorem IsFull.mapTiles (h : g.IsFull k n) (f : Tile → Tile) : (g.mapTiles f).IsFull k n where
  rows_pos := h.rows_pos
  columns_pos := h.columns_pos
  length_eq := by rw [length_mapTiles, h.length_eq]
  rectangle := h.rectangle.mapTiles f

/-- A grid stays full if its rows are put in reverse. -/
theorem IsFull.map_reverse (h : g.IsFull k n) : IsFull (g.map List.reverse) k n where
  rows_pos := h.rows_pos
  columns_pos := h.columns_pos
  length_eq := by rw [List.length_map, h.length_eq]
  rectangle := h.rectangle.map_reverse

/-- A grid that is turned by a quarter is as wide as it was high. -/
theorem IsFull.turned_one (h : g.IsFull k n) : (turned g 1).IsFull n k := by
  have hwidth := h.rectangle.width_eq h.ne_nil
  refine ⟨h.columns_pos, h.rows_pos, ?_, ?_⟩
  · rw [length_turned g (by decide), if_neg (by decide), hwidth]
  · rw [turned, hwidth, ← h.length_eq]
    exact h.rectangle.columns.map_reverse

/-- A half turn keeps both sides. -/
theorem IsFull.turned_two (h : g.IsFull k n) : (turned g 2).IsFull k n := by
  refine ⟨h.rows_pos, h.columns_pos, ?_, h.rectangle.reverse.map_reverse⟩
  rw [length_turned g (by decide), if_pos (by decide), h.length_eq]

/-- Three quarter turns exchange the sides. -/
theorem IsFull.turned_three (h : g.IsFull k n) : (turned g 3).IsFull n k := by
  have hwidth := h.rectangle.width_eq h.ne_nil
  refine ⟨h.columns_pos, h.rows_pos, ?_, ?_⟩
  · rw [length_turned g (by decide), if_neg (by decide), hwidth]
  · rw [turned, hwidth, ← h.length_eq]
    exact h.rectangle.columns.reverse

/-- Rectangles of the same size are the same if they have the same tiles in all places. -/
theorem IsFull.ext_tile? (h : g.IsFull k n) (h' : g'.IsFull k n)
    (htile : ∀ row < k, ∀ column < n, g.tile? row column = g'.tile? row column) : g = g' := by
  apply List.ext_getElem (h.length_eq.trans h'.length_eq.symm)
  intro row hrow hrow'
  have hlength := h.rectangle _ (List.getElem_mem hrow)
  have hlength' := h'.rectangle _ (List.getElem_mem hrow')
  apply List.ext_getElem (hlength.trans hlength'.symm)
  intro column hcolumn hcolumn'
  have hplace := htile row (by rw [← h.length_eq]; exact hrow) column (by rw [← hlength]; exact hcolumn)
  rw [tile?, tile?, List.getElem?_eq_getElem hrow, List.getElem?_eq_getElem hrow', Option.bind_some,
    Option.bind_some, List.getElem?_eq_getElem hcolumn, List.getElem?_eq_getElem hcolumn'] at hplace
  exact Option.some.inj hplace

/-! ### Turns -/

/-- **One more quarter turn.** -/
theorem IsFull.turned_turned_one (h : g.IsFull k n) (hq : q < 4) :
    turned (turned g q) 1 = turned g ((q + 1) % 4) := by
  have hg := h.ne_nil
  have hlength := h.length_eq
  -- The grids of the two sides are full, so they are one if each tile is the same.
  obtain rfl | rfl | rfl | rfl : q = 0 ∨ q = 1 ∨ q = 2 ∨ q = 3 := by omega
  · rfl
  · have h₁ := h.turned_one
    apply h₁.turned_one.ext_tile? h.turned_two
    intro row hrow column hcolumn
    rw [tile?_turned_one h₁.rectangle h₁.ne_nil hrow (by rw [h₁.length_eq]; exact hcolumn),
      tile?_turned_one h.rectangle hg (by rw [h₁.length_eq]; omega) (by omega),
      tile?_turned_two h.rectangle (by omega) hcolumn, h₁.length_eq]
  · have h₂ := h.turned_two
    apply h₂.turned_one.ext_tile? h.turned_three
    intro row hrow column hcolumn
    rw [tile?_turned_one h₂.rectangle h₂.ne_nil hrow (by rw [h₂.length_eq]; exact hcolumn),
      tile?_turned_two h.rectangle (by rw [h₂.length_eq]; omega) hrow,
      tile?_turned_three h.rectangle hg hrow, h₂.length_eq, hlength]
    rw [show k - 1 - (k - 1 - column) = column by omega]
  · have h₃ := h.turned_three
    apply h₃.turned_one.ext_tile? h
    intro row hrow column hcolumn
    rw [tile?_turned_one h₃.rectangle h₃.ne_nil hrow (by rw [h₃.length_eq]; exact hcolumn),
      tile?_turned_three h.rectangle hg (by rw [h₃.length_eq]; omega), h₃.length_eq]
    rw [show n - 1 - (n - 1 - column) = column by omega]

/-- **Turns of a rectangle add up, and four quarters come to none.** -/
theorem IsFull.turned_turned (h : g.IsFull k n) (hq : q < 4) {q' : Nat} (hq' : q' < 4) :
    turned (turned g q) q' = turned g ((q + q') % 4) := by
  have hfull : ∃ k n, (turned g q).IsFull k n := by
    obtain rfl | rfl | rfl | rfl : q = 0 ∨ q = 1 ∨ q = 2 ∨ q = 3 := by omega
    · exact ⟨k, n, h⟩
    · exact ⟨n, k, h.turned_one⟩
    · exact ⟨k, n, h.turned_two⟩
    · exact ⟨n, k, h.turned_three⟩
  obtain ⟨k', n', h'⟩ := hfull
  -- One quarter after the other is added to those before it.
  induction q' with
  | zero =>
    rw [Nat.add_zero, Nat.mod_eq_of_lt hq]
    rfl
  | succ q' ih =>
    have hstep := h'.turned_turned_one (q := q') (by omega)
    rw [Nat.mod_eq_of_lt hq'] at hstep
    rw [← hstep, ih (by omega), h.turned_turned_one (Nat.mod_lt _ (by decide))]
    rw [show ((q + q') % 4 + 1) % 4 = (q + (q' + 1)) % 4 by omega]

/-- A flipped rectangle that is turned by a quarter is the one turned back that is flipped. -/
theorem IsFull.turned_reorder (h : g.IsFull k n) :
    turned (reorder 1 g) 1 = reorder 1 (turned g 3) := by
  show turned (g.map List.reverse) 1 = (turned g 3).map List.reverse
  have hreverse := h.map_reverse
  have h₃ := h.turned_three
  apply hreverse.turned_one.ext_tile? h₃.map_reverse
  intro row hrow column hcolumn
  rw [tile?_turned_one hreverse.rectangle hreverse.ne_nil hrow (by rw [hreverse.length_eq]; exact hcolumn),
    tile?_map_reverse h.rectangle _ hrow, tile?_map_reverse h₃.rectangle _ hcolumn,
    tile?_turned_three h.rectangle h.ne_nil hrow, hreverse.length_eq]

/-- Half a turn flips both ways, whatever the lengths of the rows are. -/
theorem turned_two (g : Grid) : turned g 2 = reorder 3 g := by
  show g.reverse.map List.reverse = (g.map List.reverse).reverse
  exact List.map_reverse

/-- **Grids are flipped and turned as a square is.** -/
theorem squareLaws : SquareLaws flip rotate fun g => ∃ k n, g.IsFull k n where
  flip_low mode g := by
    rw [flip, flip, reorder, reorder, Tile.flipsSideways_low, Tile.flipsUpright_low]
    rw [mapTiles_congr (Tile.squareLaws.flip_low mode) g]
  flip_zero g := mapTiles_of_forall Tile.squareLaws.flip_zero g
  flip_flip mode mode' g := by
    rw [flip, flip, flip, mapTiles_reorder, mapTiles_mapTiles, reorder_reorder]
    rw [mapTiles_congr (Tile.squareLaws.flip_flip mode mode') g]
  rotate_zero g := mapTiles_of_forall Tile.squareLaws.rotate_zero g
  rotate_two g := by
    rw [flip, ← turned_two, ← mapTiles_congr Tile.squareLaws.rotate_two g]
    rfl
  rotate_rotate times times' g := by
    rintro ⟨k, n, h⟩
    have hlt (times : UInt32) : Tile.quarters times < 4 := Nat.mod_lt _ (by decide)
    have htiles (t : Tile) := Tile.squareLaws.rotate_rotate times times' t trivial
    rw [rotate, rotate, rotate, mapTiles_turned, mapTiles_mapTiles,
      (h.mapTiles _).turned_turned (hlt times) (hlt times'), ← Tile.quarters_add,
      mapTiles_congr htiles g]
  rotate_flip g := by
    rintro ⟨k, n, h⟩
    have htiles (t : Tile) := Tile.squareLaws.rotate_flip t trivial
    rw [rotate, rotate, flip, flip, mapTiles_reorder, mapTiles_turned, mapTiles_mapTiles,
      mapTiles_mapTiles, ← mapTiles_congr htiles g]
    exact (h.mapTiles _).turned_reorder

/-! ### What moved tiles keep -/

/-- The kinds of the tiles, row by row. -/
def kinds (g : Grid) : List (UInt8 × Bool) :=
  g.flatten.map Tile.kind

/-- What keeps the kind of each tile keeps those of all. -/
theorem kinds_mapTiles {f : Tile → Tile} (h : ∀ t, (f t).kind = t.kind) (g : Grid) :
    (g.mapTiles f).kinds = g.kinds := by
  rw [kinds, mapTiles, ← List.map_flatten, List.map_map]
  apply List.map_congr_left
  intro t _
  exact h t

/-- Reversing rows and columns loses no tile. -/
theorem flatten_reorder_perm (mode : UInt32) (g : Grid) :
    (reorder mode g).flatten.Perm g.flatten := by
  unfold reorder
  cases Tile.flipsSideways mode <;> cases Tile.flipsUpright mode
  · exact .refl _
  · exact flatten_reverse_perm g
  · exact flatten_map_reverse_perm g
  · exact (flatten_reverse_perm _).trans (flatten_map_reverse_perm g)

/-- Turning a full grid loses no tile. -/
theorem IsFull.flatten_turned_perm (h : g.IsFull k n) (hq : q < 4) :
    (turned g q).flatten.Perm g.flatten := by
  have hrows : ∀ row ∈ g, row ≠ [] := by
    intro row hrow
    rw [← List.length_pos_iff, h.rectangle row hrow]
    exact h.columns_pos
  have hfirst := h.rectangle.firstLongest
  obtain rfl | rfl | rfl | rfl : q = 0 ∨ q = 1 ∨ q = 2 ∨ q = 3 := by omega
  · exact .refl _
  · exact ((keeps_turned_one (.refl _) hrows).2 hfirst).perm
  · exact ((keeps_turned_two (.refl _)).2 h.rectangle.reverse.firstLongest).perm
  · exact ((keeps_turned_three (.refl _) hrows).2 ⟨n, h.rectangle⟩).perm

/-- **Flips keep attributes and masks.** -/
theorem kinds_flip_perm (mode : UInt32) (g : Grid) : (g.flip mode).kinds.Perm g.kinds := by
  have hkinds : (g.mapTiles (Tile.flip mode)).kinds = g.kinds :=
    kinds_mapTiles (fun t => Tile.kind_mapRows _ t) g
  rw [← hkinds]
  exact (flatten_reorder_perm mode (g.mapTiles (Tile.flip mode))).map Tile.kind

/-- **Turns of a rectangle keep attributes and masks.** -/
theorem IsFull.kinds_rotate_perm (h : g.IsFull k n) (times : UInt32) :
    (g.rotate times).kinds.Perm g.kinds := by
  have hkinds : (g.mapTiles (Tile.rotate times)).kinds = g.kinds :=
    kinds_mapTiles (fun t => Tile.kind_mapRows _ t) g
  have hquarters : Tile.quarters times < 4 := Nat.mod_lt _ (by decide)
  rw [← hkinds]
  exact ((h.mapTiles (Tile.rotate times)).flatten_turned_perm hquarters).map Tile.kind

end Grid

/-! ## Tiles and grids -/

/-- Bytes are flipped by a table and turned by bit planes, and tiles are flipped and turned so. -/
theorem Tile.flipBytes_eq_flip : Tile.flipBytes = Tile.flip := by
  funext mode t
  exact t.flipBytes_eq mode

/-- Turning byte by byte is turning pixel by pixel. -/
theorem Tile.rotateBytes_eq_rotate : Tile.rotateBytes = Tile.rotate := by
  funext times t
  exact t.rotateBytes_eq times

/-- **Flips and turns of tiles and of grids are the symmetries of a square.**  Tiles are flipped byte by
byte with a table and turned by bit planes, with their masks.  For every tile and every grid, also one
with rows of different lengths, two flips are the flip by the bits in which their modes differ, where
only the low two bits count, so that flipping twice changes nothing; and half a turn flips both ways.
For every tile, and for every grid that is a rectangle with at least one tile, turns add up modulo four,
so that four quarters change nothing; and to flip left to right and then turn by a quarter is to turn by
three quarters and then flip.  Attributes are kept, and so is whether there is a mask. -/
theorem squareLaws_tile_and_grid :
    (SquareLaws Tile.flipBytes Tile.rotateBytes fun _ => True) ∧
    (SquareLaws Grid.flip Grid.rotate fun g => ∃ k n, g.IsFull k n) ∧
    (∀ (mode times : UInt32) (t : Tile),
      t.flip mode = t.flipBytes mode ∧ t.rotate times = t.rotateBytes times ∧
      (t.flipBytes mode).flipBytes mode = t ∧
      (((t.rotateBytes 1).rotateBytes 1).rotateBytes 1).rotateBytes 1 = t ∧
      (t.flipBytes mode).kind = t.kind ∧ (t.rotateBytes times).kind = t.kind) ∧
    ∀ (mode times : UInt32) (g : Grid),
      (g.flip mode).flip mode = g ∧ (g.flip mode).kinds.Perm g.kinds ∧
      ((∃ k n, g.IsFull k n) →
        (((g.rotate 1).rotate 1).rotate 1).rotate 1 = g ∧ (g.rotate times).kinds.Perm g.kinds) := by
  rw [Tile.flipBytes_eq_flip, Tile.rotateBytes_eq_rotate]
  refine ⟨Tile.squareLaws, Grid.squareLaws, ?_, ?_⟩
  · intro mode times t
    exact ⟨rfl, rfl, Tile.squareLaws.flip_self mode t, Tile.squareLaws.rotate_four trivial,
      t.kind_mapRows _, t.kind_mapRows _⟩
  · intro mode times g
    refine ⟨Grid.squareLaws.flip_self mode g, g.kinds_flip_perm mode, ?_⟩
    rintro ⟨k, n, h⟩
    exact ⟨Grid.squareLaws.rotate_four ⟨k, n, h⟩, h.kinds_rotate_perm times⟩

/-- Two rows of three tiles, the first of which has a mask. -/
def twoByThree : Grid :=
  [[⟨1, .ofList [0x80, 0x41], some (.ofList [0xf0])⟩, ⟨2, .ofList [3], none⟩, ⟨3, .ofList [], none⟩],
   [⟨4, .ofList [0x18], none⟩, ⟨5, .ofList [0xff, 1], none⟩, ⟨6, .ofList [], none⟩]]

/-- Two rows of three tiles are turned seven times and then twice, which comes to a quarter. -/
theorem squareLaws_tile_and_grid_twoByThree :
    twoByThree.IsFull 2 3 ∧ (twoByThree.rotate 7).rotate 2 = twoByThree.rotate 1 ∧
      (twoByThree.rotate 1).length = 3 ∧
      (twoByThree.flip 1).rotate 1 = (twoByThree.rotate 3).flip 1 := by
  have hfull : twoByThree.IsFull 2 3 := by
    refine ⟨by decide, by decide, rfl, ?_⟩
    intro row hrow
    simp only [twoByThree, List.mem_cons, List.not_mem_nil, or_false] at hrow
    rcases hrow with rfl | rfl
    · rfl
    · rfl
  obtain ⟨-, hgrid, -, -⟩ := squareLaws_tile_and_grid
  exact ⟨hfull, hgrid.rotate_rotate 7 2 _ ⟨2, 3, hfull⟩, rfl, hgrid.rotate_flip _ ⟨2, 3, hfull⟩⟩

end MemoryDoc
