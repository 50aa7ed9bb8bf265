/-
# Frames

A frame is a view of a grid of tiles: every pixel drawn as a square of `scale` by `scale` pixels,
the whole cropped to a rectangle, to be shown for a time in an animation.  Pictures are bounded: a
side of the uncropped frame fits in 32 bits, and the cropped frame holds at most `2 ^ 24` pixels.

Main statement: a frame exists unless one of its bounds is passed (`make_eq_error_iff`).
-/
import MemoryDoc.Picture.Colour
import MemoryDoc.Tile.Grid
import MemoryDoc.Text.Numeral

namespace MemoryDoc

/-- The rectangle that is left of a picture.  A side that is not given goes as far as it can. -/
structure Crop where
  x : UInt32 := 0
  y : UInt32 := 0
  width : Option UInt32 := none
  height : Option UInt32 := none
deriving DecidableEq, Repr

/-- A scaled and cropped view of a grid of tiles. -/
structure Frame where
  tiles : Grid
  /-- The side of the square that a pixel is drawn as. -/
  scale : Nat
  mask : MaskMode
  /-- The left edge of the cropped frame. -/
  x : Nat
  /-- The top edge of the cropped frame. -/
  y : Nat
  width : Nat
  height : Nat
  /-- The width of the uncropped frame. -/
  fullWidth : Nat
  /-- The height of the uncropped frame. -/
  fullHeight : Nat
  /-- For how many hundredths of a second the frame is shown. -/
  delay : UInt32
deriving DecidableEq, Repr

namespace Frame

/-- The picture of a grid would be too large. -/
structure TooLarge where
  columns : Nat
  rows : Nat
  scale : Nat
deriving DecidableEq, Repr

/-- The wording of the fault. -/
def TooLarge.message (e : TooLarge) : Text :=
  "Image too large: " ++ Numeral.decimal e.columns ++ "x" ++ Numeral.decimal e.rows
    ++ " tiles at scale " ++ Numeral.decimal e.scale

/-- The delay of a frame for which none is given. -/
def defaultDelay : UInt32 := 32

/-- The most pixels that a cropped frame may hold. -/
def maxPixels : Nat := 0x1000000

/-- The most pixels that a side of an uncropped frame may have. -/
def maxSide : Nat := UInt32.size - 1

/-- The part of a side of length `full` that is left when it is cropped at `start`. -/
def croppedSide (full : Nat) (start : UInt32) (wanted : Option UInt32) : Nat :=
  min (match wanted with
    | none => full
    | some w => if w = 0 then full else w.toNat) (full - start.toNat)

/-- The frame over a grid, if it is not too large. -/
def make (tiles : Grid) (scale : UInt32) (mask : MaskMode) (crop : Crop) : Except TooLarge Frame :=
  let scale := max scale.toNat 1
  let fullWidth := 8 * tiles.width * scale
  let fullHeight := 8 * tiles.length * scale
  let width := croppedSide fullWidth crop.x crop.width
  let height := croppedSide fullHeight crop.y crop.height
  if fullWidth ≤ maxSide ∧ fullHeight ≤ maxSide ∧ width * height ≤ maxPixels then
    .ok { tiles, scale, mask, x := crop.x.toNat, y := crop.y.toNat, width, height, fullWidth,
          fullHeight, delay := defaultDelay }
  else .error ⟨tiles.width, tiles.length, scale⟩

/-- The same frame shown for another time. -/
def withDelay (f : Frame) (delay : UInt32) : Frame :=
  { f with delay }

/-- A frame without pixels cannot be written. -/
def isEmpty (f : Frame) : Bool :=
  f.width = 0 || f.height = 0

/-- Less of the frame is left than there is. -/
def isCropped (f : Frame) : Bool :=
  f.width ≠ f.fullWidth || f.height ≠ f.fullHeight

/-- The tile over the pixel `px`, `py` of the uncropped frame, if there is one. -/
def tileAt (f : Frame) (px py : Nat) : Option Tile :=
  f.tiles[py / (8 * f.scale)]?.bind (·[px / (8 * f.scale)]?)

/-- The place in a tile of a pixel that is `p` pixels from the edge of the uncropped frame. -/
def placeInTile (f : Frame) (p : Nat) : Fin 8 :=
  ⟨p % (8 * f.scale) / f.scale % 8, Nat.mod_lt _ (by decide)⟩

/-- The colour of the pixel `px`, `py` of the uncropped frame when `tile` is the tile over it. -/
def colourOf (f : Frame) (tile : Option Tile) (px py : Nat) : Colour :=
  match tile with
  | none => .black
  | some tile => tile.colour f.mask (f.placeInTile py) (f.placeInTile px)

/-- The colour of the pixel `px`, `py` of the uncropped frame.  Where there is no tile it is black. -/
def colourAt (f : Frame) (px py : Nat) : Colour :=
  f.colourOf (f.tileAt px py) px py

/-- What the frame over a grid is, if there is one. -/
theorem make_eq_ok {tiles : Grid} {scale : UInt32} {mask : MaskMode} {crop : Crop} {f : Frame} :
    make tiles scale mask crop = .ok f ↔
      (8 * tiles.width * max scale.toNat 1 ≤ maxSide
        ∧ 8 * tiles.length * max scale.toNat 1 ≤ maxSide
        ∧ croppedSide (8 * tiles.width * max scale.toNat 1) crop.x crop.width
            * croppedSide (8 * tiles.length * max scale.toNat 1) crop.y crop.height ≤ maxPixels) ∧
      { tiles, scale := max scale.toNat 1, mask, x := crop.x.toNat, y := crop.y.toNat
        width := croppedSide (8 * tiles.width * max scale.toNat 1) crop.x crop.width
        height := croppedSide (8 * tiles.length * max scale.toNat 1) crop.y crop.height
        fullWidth := 8 * tiles.width * max scale.toNat 1
        fullHeight := 8 * tiles.length * max scale.toNat 1
        delay := defaultDelay : Frame } = f := by
  unfold make
  simp only
  split
  · next h => simp only [Except.ok.injEq, h, and_self, true_and]
  · next h => simp only [reduceCtorEq, h, false_and]

/-- **A grid has no frame exactly when one of the bounds is passed.** -/
theorem make_eq_error_iff {tiles : Grid} {scale : UInt32} {mask : MaskMode} {crop : Crop} :
    (∃ e, make tiles scale mask crop = .error e) ↔
      maxSide < 8 * tiles.width * max scale.toNat 1
        ∨ maxSide < 8 * tiles.length * max scale.toNat 1
        ∨ maxPixels < croppedSide (8 * tiles.width * max scale.toNat 1) crop.x crop.width
            * croppedSide (8 * tiles.length * max scale.toNat 1) crop.y crop.height := by
  unfold make
  simp only
  split
  · next h =>
    obtain ⟨h1, h2, h3⟩ := h
    constructor
    · rintro ⟨e, he⟩; cases he
    · intro h; omega
  · next h =>
    constructor
    · intro _
      omega
    · intro _
      exact ⟨_, rfl⟩

end Frame

end MemoryDoc
