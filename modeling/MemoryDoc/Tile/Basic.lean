/-
# Tiles

A tile is a bitmap with the attribute byte that colours it, and may have a mask: a second bitmap
that says where the picture behind it shows through.  A tile is flipped and turned together with
its mask.
-/
import MemoryDoc.Tile.Rows

namespace MemoryDoc

/-- A bitmap of eight by eight pixels with its attribute, and with a mask if it has one. -/
structure Tile where
  attr : UInt8
  data : Rows
  mask : Option Rows
deriving DecidableEq, Repr

namespace Tile

/-- The tile whose bitmaps are changed by `f`. -/
def mapRows (f : Rows → Rows) (t : Tile) : Tile :=
  { t with data := f t.data, mask := t.mask.map f }

/-- Bit 0 of a flip mode asks for flipping left to right. -/
def flipsSideways (mode : UInt32) : Bool :=
  mode.toNat.testBit 0

/-- Bit 1 of a flip mode asks for flipping top to bottom. -/
def flipsUpright (mode : UInt32) : Bool :=
  mode.toNat.testBit 1

/-- The number of quarters that `times` turns come to. -/
def quarters (times : UInt32) : Nat :=
  times.toNat % 4

/-- The tile flipped as a flip mode asks. -/
def flip (mode : UInt32) (t : Tile) : Tile :=
  t.mapRows (Rows.flip (flipsSideways mode) (flipsUpright mode))

/-- The tile turned clockwise by quarters, `times` times. -/
def rotate (times : UInt32) (t : Tile) : Tile :=
  t.mapRows (Rows.turns (quarters times))

@[simp] theorem attr_mapRows (f : Rows → Rows) (t : Tile) :
    (t.mapRows f).attr = t.attr := rfl

@[simp] theorem isSome_mask_mapRows (f : Rows → Rows) (t : Tile) :
    (t.mapRows f).mask.isSome = t.mask.isSome := by
  simp [mapRows]

end Tile

end MemoryDoc
