/-
# Outlines of drawings

The outline of a grid, and of a frame, is what is left when all tiles are blank: the lengths of the
rows and everything that a frame tells besides the bytes of its tiles.  Tiles are moved and frames
are made without looking at those bytes.

Main statements: the outline of a grid that is taken from a memory does not depend on the memory
(`outline_grid_eq`), nor does the outline of the frame of a drawing, or why there is none
(`outline_frame_eq`).
-/
import MemoryDoc.Macro.Drawing

namespace MemoryDoc

/-- The tile of which all bytes are zero, and which has no mask. -/
def Tile.blank : Tile where
  attr := 0
  data := .ofList []
  mask := none

/-! ## Grids -/

namespace Grid

/-- The grid with blank tiles. -/
def outline (g : Grid) : Grid :=
  g.mapTiles fun _ => .blank

/-- Tiles that are changed and then made blank are made blank. -/
theorem outline_mapTiles (f : Tile → Tile) (g : Grid) : (g.mapTiles f).outline = g.outline := by
  simp [outline, mapTiles, Function.comp_def]

/-- Flipping a grid moves the tiles of its outline. -/
theorem outline_flip (mode : UInt32) (g : Grid) :
    (g.flip mode).outline = reorder mode g.outline := by
  rw [flip, outline, mapTiles_reorder]
  exact congrArg (reorder mode) (outline_mapTiles _ g)

/-- Turning a grid moves the tiles of its outline. -/
theorem outline_rotate (times : UInt32) (g : Grid) :
    (g.rotate times).outline = turned g.outline (Tile.quarters times) := by
  rw [rotate, outline, mapTiles_turned]
  exact congrArg (turned · (Tile.quarters times)) (outline_mapTiles _ g)

end Grid

/-- **The outline of a grid that is taken from a memory does not depend on the memory.** -/
theorem GridSource.outline_grid_eq (source : GridSource) (m m' : Memory) :
    (source.grid m).outline = (source.grid m').outline := by
  cases source with
  | tiles width sources =>
    rw [grid, grid, Grid.outline, Grid.outline, Grid.mapTiles_ofTiles, Grid.mapTiles_ofTiles]
    simp [Function.comp_def]
  | screen area => simp [grid, Memory.screen, Grid.outline, Grid.mapTiles, Function.comp_def]
  | glyphs font attr message =>
    simp [grid, Memory.glyphs, Grid.outline, Grid.mapTiles]

/-! ## Frames -/

namespace Frame

/-- The frame with blank tiles. -/
def outline (f : Frame) : Frame :=
  { f with tiles := f.tiles.outline }

/-- Making a frame does not look at tiles. -/
theorem outline_make (tiles : Grid) (scale : UInt32) (mask : MaskMode) (crop : Crop) :
    (make tiles scale mask crop).map outline = make tiles.outline scale mask crop := by
  unfold make
  rw [Grid.outline, Grid.width_mapTiles, Grid.length_mapTiles]
  simp only
  split <;> rfl

end Frame

/-- **The outline of the frame of a drawing does not depend on the memory** that it is taken from,
nor does the fault if there is none. -/
theorem Drawing.outline_frame_eq (d : Drawing) (m m' : Memory) :
    (d.frame m).map Frame.outline = (d.frame m').map Frame.outline := by
  rw [frame, frame, Frame.outline_make, Frame.outline_make, Grid.outline_rotate,
    Grid.outline_rotate, Grid.outline_flip, Grid.outline_flip, d.source.outline_grid_eq m m']

end MemoryDoc
