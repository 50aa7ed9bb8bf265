/-
# Colours

The sixteen colours of the screen: eight of them and their bright versions.  An attribute byte
chooses two: bits 0 to 2 are the ink, bits 3 to 5 the paper, and bit 6 makes both bright.  The
highest bit, for flashing, does not matter to a still picture.
-/
import MemoryDoc.Tile.Basic

namespace MemoryDoc

/-- A colour and how far it covers what is behind it. -/
structure Colour where
  red : UInt8
  green : UInt8
  blue : UInt8
  alpha : UInt8
deriving DecidableEq, Repr

namespace Colour

/-- What is behind shows through. -/
def transparent : Colour := ⟨0, 0, 0, 0⟩

def black : Colour := ⟨0, 0, 0, 255⟩

/-- The colours 0 to 7 followed by their bright versions. -/
def palette : Vector Colour 16 :=
  #v[black, ⟨0, 0, 197, 255⟩, ⟨197, 0, 0, 255⟩, ⟨197, 0, 197, 255⟩,
    ⟨0, 198, 0, 255⟩, ⟨0, 198, 197, 255⟩, ⟨197, 198, 0, 255⟩, ⟨205, 198, 205, 255⟩,
    black, ⟨0, 0, 255, 255⟩, ⟨255, 0, 0, 255⟩, ⟨255, 0, 255, 255⟩,
    ⟨0, 255, 0, 255⟩, ⟨0, 255, 255, 255⟩, ⟨255, 255, 0, 255⟩, ⟨255, 255, 255, 255⟩]

/-- The colour of a number, of which the lowest four bits count. -/
def ofNumber (n : Nat) : Colour :=
  palette[n % 16]

/-- The number that brightness adds to the colours of an attribute. -/
def brightness (attr : UInt8) : Nat :=
  if attr.toNat.testBit 6 then 8 else 0

/-- The colour of the pixels that are set. -/
def ink (attr : UInt8) : Colour :=
  ofNumber (brightness attr + attr.toNat % 8)

/-- The colour of the pixels that are not set. -/
def paper (attr : UInt8) : Colour :=
  ofNumber (brightness attr + attr.toNat / 8 % 8)

end Colour

/-- How the masks of tiles count. -/
inductive MaskMode where
  /-- Masks are ignored. -/
  | ignored
  /-- A pixel of the mask lets the screen show where the bitmap is not set, and paper shows where
  the mask is not set. -/
  | orAnd
  /-- A pixel of the mask lets the screen show, and the bitmap is drawn over it. -/
  | andOr
deriving DecidableEq, Repr

/-- The mask mode of a number, if there is one. -/
def MaskMode.ofNumber? : UInt32 → Option MaskMode
  | 0 => some ignored
  | 1 => some orAnd
  | 2 => some andOr
  | _ => none

/-- The number of a mask mode. -/
def MaskMode.number : MaskMode → Nat
  | ignored => 0
  | orAnd => 1
  | andOr => 2

/-- The pixel of the mask in row `y`, `x` pixels from the left, where masks count and there is one. -/
def Tile.maskPixel? (mode : MaskMode) (t : Tile) (y x : Fin 8) : Option Bool :=
  match mode with
  | .ignored => none
  | .orAnd | .andOr => t.mask.map (·.pixel y x)

/-- The colour of the pixel of a tile in row `y`, `x` pixels from the left. -/
def Tile.colour (mode : MaskMode) (t : Tile) (y x : Fin 8) : Colour :=
  match mode, t.data.pixel y x, t.maskPixel? mode y x with
  | _, true, none => Colour.ink t.attr
  | _, false, none => Colour.paper t.attr
  | .orAnd, true, some true => Colour.ink t.attr
  | .orAnd, _, some false => Colour.paper t.attr
  | .andOr, true, some _ => Colour.ink t.attr
  | .andOr, false, some false => Colour.paper t.attr
  | .ignored, true, some _ => Colour.ink t.attr
  | .ignored, false, some false => Colour.paper t.attr
  | _, false, some true => Colour.transparent

end MemoryDoc
