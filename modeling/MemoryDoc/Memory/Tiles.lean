/-
# Tiles in memory

Tiles are taken from memory in three ways.  The bytes of a single tile are a step apart from each
other.  The cells of the screen have their bitmaps in the display file, where the eight rows of a
cell are 256 bytes apart and the cells of each third of the screen follow each other, and their
attributes in the attribute file.  The glyphs of a font follow each other in the order of their
characters, from the space on.
-/
import MemoryDoc.Memory.Basic
import MemoryDoc.Tile.Grid
import MemoryDoc.Text.Basic

namespace MemoryDoc.Memory

/-- The bitmap whose rows are `step` bytes apart, the first at an address. -/
def bitmap (m : Memory) (address step : UInt32) : Rows :=
  Rows.ofList (m.strided address step 8)

/-! ## The screen -/

/-- The number of cells in a row of the screen. -/
def screenColumns : Nat := 32

/-- The number of rows of cells of the screen. -/
def screenRows : Nat := 24

/-- A part of the screen, in cells, and where its bytes are. -/
structure ScreenArea where
  x : UInt32 := 0
  y : UInt32 := 0
  width : UInt32 := 32
  height : UInt32 := 24
  /-- The address of the display file. -/
  display : UInt32 := 16384
  /-- The address of the attribute file. -/
  attributes : UInt32 := 22528
deriving DecidableEq, Repr

/-- The cell in row `row` and column `column` of the screen. -/
def screenTile (m : Memory) (area : ScreenArea) (row column : Nat) : Tile where
  attr := m.peek (area.attributes + (32 * row + column).toUInt32)
  data := m.bitmap (area.display + (2048 * (row / 8) + 32 * (row % 8) + column).toUInt32) 256
  mask := none

/-- The cells of a part of the screen.  What lies beyond the screen is left out. -/
def screen (m : Memory) (area : ScreenArea) : Grid :=
  (List.range' area.y.toNat (min area.height.toNat (screenRows - area.y.toNat))).map fun row =>
    (List.range' area.x.toNat (min area.width.toNat (screenColumns - area.x.toNat))).map fun column =>
      m.screenTile area row column

/-! ## Fonts -/

/-- The characters of a font, from the space to the last before 128. -/
def fontCharacters : Text :=
  (List.range' 32 96).map Char.ofNat

/-- The glyph of a character in the font at an address. -/
def glyph (m : Memory) (font : UInt32) (attr : UInt8) (c : Char) : Tile where
  attr := attr
  data := m.bitmap (font + 8 * (c.val - 32)) 1
  mask := none

/-- The glyphs of a message, in one row. -/
def glyphs (m : Memory) (font : UInt32) (attr : UInt8) (message : Text) : Grid :=
  [message.map (m.glyph font attr)]

end MemoryDoc.Memory
