/-
# Upscaling and cropping

The picture of a grid has a pixel for every pixel of its tiles and goes on in black where no tile
is.  A frame shows it with every pixel drawn as a square, and cut to a rectangle.

The picture is told bit by bit: the bits of a bitmap and of a mask choose between the ink and the
paper of an attribute byte, and three bits of this byte and one for brightness say which lights make
up each of them.

Main statements: the colours of an attribute byte are made up of the lights of its bits (`ink_eq`,
`paper_eq`); the raster of a frame is the picture of its grid, scaled up and then cropped
(`rasterise_upscaled`).
-/
import MemoryDoc.Picture.Raster

namespace MemoryDoc

/-! ## Colours made up of lights -/

namespace Colour

/-- The colour of a pixel in which the green, the red and the blue light are on or off.  Bright
lights are at their full strength.  The others have about three quarters of it, and a little more
than that where they make white. -/
def ofLights (bright green red blue : Bool) : Colour :=
  if bright then
    { red := if red then 255 else 0, green := if green then 255 else 0
      blue := if blue then 255 else 0, alpha := 255 }
  else if green && red && blue then { red := 205, green := 198, blue := 205, alpha := 255 }
  else
    { red := if red then 197 else 0, green := if green then 198 else 0
      blue := if blue then 197 else 0, alpha := 255 }

/-- The colour that three bits of an attribute byte tell, of which `first` is the lowest: blue, red
and green from there upwards.  Bit 6 makes it bright. -/
def ofThreeBits (attr : UInt8) (first : Nat) : Colour :=
  ofLights (attr.toNat.testBit 6) (attr.toNat.testBit (first + 2)) (attr.toNat.testBit (first + 1))
    (attr.toNat.testBit first)

/-- The sixteen colours are made up of the lights of the four bits of their numbers. -/
theorem ofNumber_eq_ofLights (bright : Bool) {n : Nat} (h : n < 8) :
    ofNumber ((if bright then 8 else 0) + n) =
      ofLights bright (n.testBit 2) (n.testBit 1) (n.testBit 0) := by
  have hall : ∀ (bright : Bool) (n : Fin 8), ofNumber ((if bright then 8 else 0) + n) =
      ofLights bright (n.val.testBit 2) (n.val.testBit 1) (n.val.testBit 0) := by decide
  exact hall bright ⟨n, h⟩

/-- Three bits of an attribute byte are those of a number below eight. -/
theorem testBit_three (attr : UInt8) (first : Nat) {i : Nat} (h : i < 3) :
    ((attr.toNat >>> first) % 8).testBit i = attr.toNat.testBit (first + i) := by
  have height : (8 : Nat) = 2 ^ 3 := rfl
  rw [height, Nat.testBit_mod_two_pow, Nat.testBit_shiftRight, decide_eq_true h, Bool.true_and]

/-- A number in an attribute byte tells the colour of its bits. -/
theorem ofNumber_brightness (attr : UInt8) (first : Nat) :
    ofNumber (brightness attr + (attr.toNat >>> first) % 8) = ofThreeBits attr first := by
  rw [brightness, ofNumber_eq_ofLights _ (Nat.mod_lt _ (by decide)),
    testBit_three attr first (by decide), testBit_three attr first (by decide),
    testBit_three attr first (by decide)]
  rfl

/-- **The ink is told by bits 0 to 2.** -/
theorem ink_eq (attr : UInt8) : ink attr = ofThreeBits attr 0 :=
  ofNumber_brightness attr 0

/-- **The paper is told by bits 3 to 5.** -/
theorem paper_eq (attr : UInt8) : paper attr = ofThreeBits attr 3 := by
  rw [← ofNumber_brightness, Nat.shiftRight_eq_div_pow]
  rfl

end Colour

/-! ## Pictures of grids -/

/-- The pixel in column `x` of row `y` of a bitmap, of which bit 7 of each row is the leftmost.
Places are counted on into the next tile. -/
def Rows.bit (r : Rows) (x y : Nat) : Bool :=
  r.bytes[y % 8].toNat.testBit (7 - x % 8)

/-- The colour in column `x` of row `y` of a tile: that of bits 0 to 2 of the attribute where the
bitmap is set, and that of bits 3 to 5 where it is not.  A mask that counts lets the screen show
where it is set and the bitmap is not.  Where it is not set, `orAnd` shows the paper whatever the
bitmap. -/
def Tile.shade (mode : MaskMode) (t : Tile) (x y : Nat) : Colour :=
  let ink := Colour.ofThreeBits t.attr 0
  let paper := Colour.ofThreeBits t.attr 3
  let clear : Colour := { red := 0, green := 0, blue := 0, alpha := 0 }
  match mode, t.mask.map (·.bit x y) with
  | .ignored, _ | _, none => if t.data.bit x y then ink else paper
  | .orAnd, some masked => if masked then if t.data.bit x y then ink else clear else paper
  | .andOr, some masked => if t.data.bit x y then ink else if masked then clear else paper

namespace Grid

/-- The tile in a row and a column, if there is one. -/
def tile? (g : Grid) (row column : Nat) : Option Tile :=
  g[row]?.bind (·[column]?)

/-- The colour in column `x` of row `y` of the picture of a grid.  Where there is no tile it is
black and hides what is behind it. -/
def picture (mode : MaskMode) (g : Grid) (x y : Nat) : Colour :=
  match g.tile? (y / 8) (x / 8) with
  | none => { red := 0, green := 0, blue := 0, alpha := 255 }
  | some tile => tile.shade mode x y

end Grid

/-! ## Frames -/

namespace Frame

/-- The tile of a pixel is the one in its row and column, as the pixel was before it was scaled
up. -/
theorem tileAt_eq (f : Frame) (px py : Nat) :
    f.tileAt px py = f.tiles.tile? (py / f.scale / 8) (px / f.scale / 8) := by
  rw [tileAt, Grid.tile?, Nat.div_div_eq_div_mul, Nat.div_div_eq_div_mul, Nat.mul_comm]

/-- The place of a pixel in its tile is that of the pixel before it was scaled up. -/
theorem placeInTile_eq (f : Frame) (p : Nat) : f.placeInTile p = Fin.ofNat 8 (p / f.scale) := by
  apply Fin.ext
  change p % (8 * f.scale) / f.scale % 8 = p / f.scale % 8
  rw [Nat.mul_comm, Nat.mod_mul_right_div_self, Nat.mod_mod]

end Frame

theorem Rows.pixel_ofNat (r : Rows) (y x : Nat) :
    r.pixel (Fin.ofNat 8 y) (Fin.ofNat 8 x) = r.bit x y := rfl

/-- The colour of a pixel of a tile is told by its bit and that of the mask. -/
theorem Tile.colour_ofNat (mode : MaskMode) (t : Tile) (y x : Nat) :
    t.colour mode (Fin.ofNat 8 y) (Fin.ofNat 8 x) = t.shade mode x y := by
  unfold colour maskPixel? shade
  simp only [Rows.pixel_ofNat, Colour.ink_eq, Colour.paper_eq]
  generalize t.data.bit x y = set
  generalize t.mask.map (·.bit x y) = masked
  cases mode with
  | ignored => cases set <;> rfl
  | orAnd => cases set <;> rcases masked with _ | _ | _ <;> rfl
  | andOr => cases set <;> rcases masked with _ | _ | _ <;> rfl

namespace Frame

/-- The colours of a frame are those of the picture of its grid, scaled up. -/
theorem colourAt_eq (f : Frame) (px py : Nat) :
    f.colourAt px py = f.tiles.picture f.mask (px / f.scale) (py / f.scale) := by
  rw [colourAt, tileAt_eq, Grid.picture]
  cases f.tiles.tile? (py / f.scale / 8) (px / f.scale / 8) with
  | none => rfl
  | some tile => rw [colourOf, placeInTile_eq, placeInTile_eq, Tile.colour_ofNat]

/-- **The raster of a frame is the picture of its grid, scaled up and then cropped.** -/
theorem rasterise_eq_picture (f : Frame) :
    f.rasterise = Raster.ofFn f.width f.height fun i j =>
      f.tiles.picture f.mask ((f.x + i) / f.scale) ((f.y + j) / f.scale) := by
  rw [rasterise_eq]
  simp only [colourAt_eq]

end Frame

/-- There is a pixel in a place of a rectangle, and none elsewhere. -/
theorem Raster.pixel?_ofFn_eq (width height : Nat) (f : Nat → Nat → Colour) (i j : Nat) :
    (ofFn width height f).pixel? i j = if i < width ∧ j < height then some (f i j) else none := by
  split
  · next h => exact pixel?_ofFn f h.1 h.2
  · next h => exact if_neg h

/-- A side that is cropped goes as far as is wanted, or as it can. -/
theorem Frame.croppedSide_eq (full : Nat) (start : UInt32) (wanted : Option UInt32) :
    croppedSide full start wanted =
      min ((wanted.filter (· ≠ 0)).elim full UInt32.toNat) (full - start.toNat) := by
  unfold croppedSide
  cases wanted with
  | none => rfl
  | some w => by_cases hw : w = 0 <;> simp [hw, Option.filter]

/-- **Rasterising a frame is scaling the picture of its grid up and then cropping it.**  A side of
the raster is as long as was asked for, or as the scaled picture if nothing or 0 was, but ends with
the scaled picture.  Each of its pixels has the colour of the pixel of the unscaled picture that it
is part of, and there are no others. -/
theorem Frame.rasterise_upscaled {g : Grid} {scale : UInt32} {mask : MaskMode} {crop : Crop}
    {f : Frame} (h : make g scale mask crop = .ok f) :
    f.scale = max scale.toNat 1 ∧
    f.rasterise.width = min ((crop.width.filter (· ≠ 0)).elim (8 * g.width * f.scale) UInt32.toNat)
      (8 * g.width * f.scale - crop.x.toNat) ∧
    f.rasterise.height =
      min ((crop.height.filter (· ≠ 0)).elim (8 * g.length * f.scale) UInt32.toNat)
        (8 * g.length * f.scale - crop.y.toNat) ∧
    ∀ i j, f.rasterise.pixel? i j =
      if i < f.rasterise.width ∧ j < f.rasterise.height then
        some (g.picture mask ((crop.x.toNat + i) / f.scale) ((crop.y.toNat + j) / f.scale))
      else none := by
  obtain ⟨-, rfl⟩ := make_eq_ok.1 h
  refine ⟨rfl, croppedSide_eq .., croppedSide_eq .., fun i j => ?_⟩
  rw [rasterise_eq_picture, Raster.pixel?_ofFn_eq]
  rfl

/-- Two tiles, the first with bright colours and the second with a mask, above a single one. -/
def Grid.threeTiles : Grid :=
  [[⟨0x5A, .ofList [0, 0, 0, 0x40], none⟩, ⟨56, .ofList [], some (.ofList [0, 0, 0, 0x80])⟩],
    [⟨2, .ofList [], none⟩]]

/-- The crop begins with the one pixel of the first tile that is set: red ink on magenta paper.  It
leaves a transparent pixel of the second tile beside its white paper, and a black one where a tile is
missing. -/
theorem Frame.rasterise_upscaled_ragged :
    ∃ f,
      make Grid.threeTiles 3 .orAnd { x := 5, y := 10, width := some 0, height := some 100 }
        = .ok f ∧
      f.rasterise.width = 43 ∧ f.rasterise.height = 38 ∧
      f.rasterise.pixel? 0 0 = some ⟨255, 0, 0, 255⟩ ∧
      f.rasterise.pixel? 1 0 = some ⟨255, 0, 255, 255⟩ ∧
      f.rasterise.pixel? 20 0 = some ⟨0, 0, 0, 0⟩ ∧
      f.rasterise.pixel? 22 0 = some ⟨205, 198, 205, 255⟩ ∧
      f.rasterise.pixel? 30 20 = some ⟨0, 0, 0, 255⟩ ∧
      f.rasterise.pixel? 43 0 = none := by
  obtain ⟨f, hf⟩ : ∃ f,
      make Grid.threeTiles 3 .orAnd { x := 5, y := 10, width := some 0, height := some 100 }
        = .ok f := ⟨_, rfl⟩
  obtain ⟨hscale, hwidth, hheight, hpixel⟩ := rasterise_upscaled hf
  rw [hscale] at hwidth hheight hpixel
  replace hwidth : f.rasterise.width = 43 := hwidth
  replace hheight : f.rasterise.height = 38 := hheight
  rw [hwidth, hheight] at hpixel
  exact ⟨f, hf, hwidth, hheight, hpixel 0 0, hpixel 1 0, hpixel 20 0, hpixel 22 0, hpixel 30 20,
    hpixel 43 0⟩

end MemoryDoc
