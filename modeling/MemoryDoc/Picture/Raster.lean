/-
# Rasters

A raster is a rectangle of colours, row by row.  Rasterising a frame gives the colours of its
cropped part.

Main statement: the pixels of a rasterised frame are the colours of the frame (`pixel?_rasterise`).
-/
import MemoryDoc.Picture.Frame

namespace MemoryDoc

/-- A rectangle of colours, row by row. -/
structure Raster where
  width : Nat
  height : Nat
  colours : Array Colour
deriving DecidableEq, Repr

namespace Raster

/-- The rectangle with the colour `f i j` in column `i` of row `j`. -/
def ofFn (width height : Nat) (f : Nat → Nat → Colour) : Raster :=
  ⟨width, height, Array.ofFn fun k : Fin (width * height) => f (k % width) (k / width)⟩

/-- The colour in column `i` of row `j`. -/
def pixel? (r : Raster) (i j : Nat) : Option Colour :=
  if i < r.width ∧ j < r.height then r.colours[j * r.width + i]? else none

theorem pixel?_ofFn {width height i j : Nat} (f : Nat → Nat → Colour) (hi : i < width)
    (hj : j < height) : (ofFn width height f).pixel? i j = some (f i j) := by
  have hlt : j * width + i < width * height := by
    have h1 : (j + 1) * width ≤ height * width := Nat.mul_le_mul_right width hj
    rw [Nat.add_mul, Nat.one_mul] at h1
    rw [Nat.mul_comm width height]
    omega
  have hdiv : (j * width + i) / width = j := by
    rw [Nat.add_comm, Nat.add_mul_div_right _ _ (by omega), Nat.div_eq_of_lt hi, Nat.zero_add]
  have hmod : (j * width + i) % width = i := by
    rw [Nat.add_comm, Nat.add_mul_mod_self_right, Nat.mod_eq_of_lt hi]
  simp [pixel?, ofFn, hi, hj, hlt, hdiv, hmod]

end Raster

namespace Frame

/-- The colours of the cropped part of a frame. -/
def rasterise (f : Frame) : Raster :=
  let rows := (f.tiles.map List.toArray).toArray
  Raster.ofFn f.width f.height fun i j =>
    f.colourOf (rows[(f.y + j) / (8 * f.scale)]?.bind (·[(f.x + i) / (8 * f.scale)]?))
      (f.x + i) (f.y + j)

/-- A frame shows the pixels of its tiles from its corner on. -/
theorem rasterise_eq (f : Frame) :
    f.rasterise = Raster.ofFn f.width f.height fun i j => f.colourAt (f.x + i) (f.y + j) := by
  simp only [rasterise]
  refine congrArg (Raster.ofFn f.width f.height) ?_
  funext i j
  unfold colourAt tileAt
  congr 1
  cases h : f.tiles[(f.y + j) / (8 * f.scale)]? <;> simp [h]

@[simp] theorem width_rasterise (f : Frame) : f.rasterise.width = f.width := rfl

@[simp] theorem height_rasterise (f : Frame) : f.rasterise.height = f.height := rfl

/-- **The pixels of a rasterised frame are the colours of its cropped part.** -/
theorem pixel?_rasterise (f : Frame) {i j : Nat} (hi : i < f.width) (hj : j < f.height) :
    f.rasterise.pixel? i j = some (f.colourAt (f.x + i) (f.y + j)) := by
  rw [rasterise_eq, Raster.pixel?_ofFn _ hi hj]

end Frame

end MemoryDoc
