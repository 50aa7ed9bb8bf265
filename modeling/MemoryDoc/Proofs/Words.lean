/-
# Frames in machine words

The sides of a frame are multiplied out in words of 64 bits and kept in words of 32 bits, in which the
places of its pixels are computed too.  A computation in words comes to nothing where a number does
not fit, where it divides by zero, where a bit is moved out of its byte, and where a bitmap has no row
of the number that was computed.

Main statement: none of this ever happens, so that frames in words are the frames, and what is known
of their numbers (`Frame.make_inWords`).
-/
import Mathlib.Algebra.Group.Nat.Defs
import Mathlib.Order.MinMax
import MemoryDoc.Proofs.Certain
import MemoryDoc.Proofs.Upscaling
import MemoryDoc.Tile.Bytes

namespace MemoryDoc

/-! ## Words -/

namespace Word

/-- A number as a word of 32 bits, if it fits in one. -/
def ofNat? (n : Nat) : Option UInt32 :=
  if n < UInt32.size then some n.toUInt32 else none

/-- A number as a word of 64 bits, if it fits in one. -/
def wide? (n : Nat) : Option UInt64 :=
  if n < UInt64.size then some n.toUInt64 else none

/-- The product of two words of 64 bits. -/
def mulWide? (a b : UInt64) : Option UInt64 :=
  wide? (a.toNat * b.toNat)

/-- The sum of two words. -/
def add? (a b : UInt32) : Option UInt32 :=
  ofNat? (a.toNat + b.toNat)

/-- The product of two words. -/
def mul? (a b : UInt32) : Option UInt32 :=
  ofNat? (a.toNat * b.toNat)

/-- The quotient of two words. -/
def div? (a b : UInt32) : Option UInt32 :=
  if b = 0 then none else some (a / b)

/-- The remainder of two words. -/
def mod? (a b : UInt32) : Option UInt32 :=
  if b = 0 then none else some (a % b)

/-- The difference of two words, or zero if the second is greater. -/
def monus (a b : UInt32) : UInt32 :=
  if b ≤ a then a - b else 0

/-- The highest bit of a byte, moved `n` places to the right. -/
def bit? (n : UInt32) : Option UInt8 :=
  if n < 8 then some (128 >>> n.toUInt8) else none

variable {a b c : UInt32} {n : Nat}

/-- A word of 32 bits is the number that it has. -/
theorem ofNat?_eq_some : ofNat? n = some c ↔ c.toNat = n := by
  unfold ofNat?
  constructor
  · intro h
    split at h
    · next hlt =>
      cases h
      exact UInt32.toNat_ofNat_of_lt' hlt
    · cases h
  · rintro rfl
    rw [if_pos c.toNat_lt]
    exact congrArg some UInt32.ofNat_toNat

/-- A number that is too large is no word. -/
theorem ofNat?_eq_none : ofNat? n = none ↔ 2 ^ 32 ≤ n := by
  rw [ofNat?, ite_eq_right_iff]
  constructor
  · intro h
    exact Nat.not_lt.1 fun hlt => Option.some_ne_none _ (h hlt)
  · intro h hlt
    exact absurd hlt (Nat.not_lt.2 h)

theorem exists_ofNat? (h : n < 2 ^ 32) : ∃ c, ofNat? n = some c ∧ c.toNat = n :=
  ⟨n.toUInt32, if_pos h, UInt32.toNat_ofNat_of_lt' h⟩

theorem exists_wide? (h : n < 2 ^ 64) : ∃ c, wide? n = some c ∧ c.toNat = n :=
  ⟨n.toUInt64, if_pos h, UInt64.toNat_ofNat_of_lt' h⟩

/-- A difference that would be negative is zero. -/
theorem toNat_monus : (monus a b).toNat = a.toNat - b.toNat := by
  unfold monus
  split
  · next h => exact UInt32.toNat_sub_of_le a b h
  · next h =>
    rw [UInt32.le_iff_toNat_le] at h
    change 0 = _
    omega

theorem ne_zero_of_toNat_pos (h : 0 < b.toNat) : b ≠ 0 := by
  rintro rfl
  exact Nat.lt_irrefl 0 h

theorem exists_div? (h : 0 < b.toNat) : ∃ c, div? a b = some c ∧ c.toNat = a.toNat / b.toNat :=
  ⟨a / b, if_neg (ne_zero_of_toNat_pos h), UInt32.toNat_div a b⟩

theorem exists_mod? (h : 0 < b.toNat) : ∃ c, mod? a b = some c ∧ c.toNat = a.toNat % b.toNat :=
  ⟨a % b, if_neg (ne_zero_of_toNat_pos h), UInt32.toNat_mod a b⟩

end Word

/-! ## What ties the numbers of a frame to its grid -/

namespace Frame

/-- The sides of a frame are those of its grid and fit in words.  What is left when it is cropped lies
inside and is not too much. -/
structure Fits (f : Frame) : Prop where
  scale_pos : 0 < f.scale
  fullWidth_eq : f.fullWidth = 8 * f.tiles.width * f.scale
  fullHeight_eq : f.fullHeight = 8 * f.tiles.length * f.scale
  fullWidth_lt : f.fullWidth < 2 ^ 32
  fullHeight_lt : f.fullHeight < 2 ^ 32
  width_le : f.width ≤ f.fullWidth - f.x
  height_le : f.height ≤ f.fullHeight - f.y
  area_le : f.width * f.height ≤ 2 ^ 24

/-- A frame that is made is within the limits. -/
theorem fits_of_make {g : Grid} {scale : UInt32} {mask : MaskMode} {crop : Crop} {f : Frame}
    (h : make g scale mask crop = .ok f) : f.Fits := by
  obtain ⟨⟨hwidth, hheight, harea⟩, rfl⟩ := make_eq_ok.1 h
  exact {
    scale_pos := Nat.le_max_right scale.toNat 1
    fullWidth_eq := rfl
    fullHeight_eq := rfl
    fullWidth_lt := Nat.lt_succ_of_le hwidth
    fullHeight_lt := Nat.lt_succ_of_le hheight
    width_le := Nat.min_le_right _ _
    height_le := Nat.min_le_right _ _
    area_le := harea }

theorem Fits.withDelay {f : Frame} (h : f.Fits) (delay : UInt32) : (f.withDelay delay).Fits :=
  { h with }

/-- A grid that is too large is told by its sides and the scale. -/
theorem eq_of_make_eq_error {g : Grid} {scale : UInt32} {mask : MaskMode} {crop : Crop}
    {e : TooLarge} (h : make g scale mask crop = .error e) :
    e = ⟨g.width, g.length, max scale.toNat 1⟩ := by
  unfold make at h
  dsimp only at h
  split at h
  · cases h
  · exact (Except.error.inj h).symm

/-- A pixel is less than eight squares away from the edge of its tile. -/
theorem place_lt {scale : Nat} (h : 0 < scale) (p : Nat) : p % (8 * scale) / scale < 8 :=
  Nat.div_lt_of_lt_mul (Nat.mul_comm 8 scale ▸ Nat.mod_lt p (by omega))

/-- Where a pixel is left there is a tile in the first row, so that eight squares are no longer than
the row. -/
theorem Fits.square_lt {f : Frame} (hf : f.Fits) (h : 0 < f.width) : 8 * f.scale < 2 ^ 32 := by
  have hwidth := hf.width_le
  have hfull := hf.fullWidth_lt
  have heq := hf.fullWidth_eq
  have htiles : 0 < f.tiles.width := by
    by_contra hzero
    rw [Nat.eq_zero_of_not_pos hzero, Nat.mul_zero, Nat.zero_mul] at heq
    omega
  have hle : 8 * 1 * f.scale ≤ 8 * f.tiles.width * f.scale :=
    Nat.mul_le_mul_right _ (Nat.mul_le_mul_left 8 htiles)
  omega

end Frame

/-! ## Frames in words -/

/-- The colour of a pixel of a tile, told by its bit and that of the mask. -/
def Colour.ofBits (mode : MaskMode) (attr : UInt8) (set : Bool) (masked : Option Bool) : Colour :=
  match mode, set, masked with
  | _, true, none => ink attr
  | _, false, none => paper attr
  | .orAnd, true, some true => ink attr
  | .orAnd, _, some false => paper attr
  | .andOr, true, some _ => ink attr
  | .andOr, false, some false => paper attr
  | .ignored, true, some _ => ink attr
  | .ignored, false, some false => paper attr
  | _, false, some true => transparent

/-- A frame whose numbers are words. -/
structure WordFrame where
  tiles : Grid
  scale : UInt32
  mask : MaskMode
  x : UInt32
  y : UInt32
  width : UInt32
  height : UInt32
  fullWidth : UInt32
  fullHeight : UInt32
  delay : UInt32

namespace WordFrame

open Word
open MemoryDoc.Frame (TooLarge maxPixels)

/-- The frame whose numbers the words are. -/
def frame (f : WordFrame) : Frame where
  tiles := f.tiles
  scale := f.scale.toNat
  mask := f.mask
  x := f.x.toNat
  y := f.y.toNat
  width := f.width.toNat
  height := f.height.toNat
  fullWidth := f.fullWidth.toNat
  fullHeight := f.fullHeight.toNat
  delay := f.delay

/-- The same frame shown for another time. -/
def withDelay (f : WordFrame) (delay : UInt32) : WordFrame :=
  { f with delay }

/-- A side of the uncropped frame, computed in words of 64 bits. -/
def fullSide? (tooLarge : TooLarge) (cells : UInt64) (scale : UInt32) :
    ExceptT TooLarge Option UInt32 := do
  let side ← mulWide? (← mulWide? 8 cells) scale.toUInt64
  match ofNat? side.toNat with
  | some side => return side
  | none => throw tooLarge

/-- The part of a side that is left when it is cropped. -/
def croppedSide (full start : UInt32) (wanted : Option UInt32) : UInt32 :=
  min ((wanted.filter (· ≠ 0)).getD full) (monus full start)

/-- The frame over a grid whose uncropped sides are known, if not too much is left of it. -/
def crop? (tooLarge : TooLarge) (tiles : Grid) (scale : UInt32) (mask : MaskMode) (crop : Crop)
    (fullWidth fullHeight : UInt32) : ExceptT TooLarge Option WordFrame := do
  let width := croppedSide fullWidth crop.x crop.width
  let height := croppedSide fullHeight crop.y crop.height
  let area ← mulWide? width.toUInt64 height.toUInt64
  if area.toNat ≤ maxPixels then
    return { tiles, scale, mask, x := crop.x, y := crop.y, width, height, fullWidth, fullHeight,
             delay := Frame.defaultDelay }
  else
    throw tooLarge

/-- The frame over a grid, if it is not too large. -/
def make? (tiles : Grid) (scale : UInt32) (mask : MaskMode) (crop : Crop) :
    ExceptT TooLarge Option WordFrame := do
  let scale := max scale 1
  let columns ← wide? tiles.width
  let rows ← wide? tiles.length
  let tooLarge : TooLarge := ⟨columns.toNat, rows.toNat, scale.toNat⟩
  let fullWidth ← fullSide? tooLarge columns scale
  let fullHeight ← fullSide? tooLarge rows scale
  crop? tooLarge tiles scale mask crop fullWidth fullHeight

/-! ### Pixels -/

/-- The tile over a pixel of the uncropped frame, if there is one. -/
def tileAt? (f : WordFrame) (px py : UInt32) : Option (Option Tile) := do
  let size ← mul? 8 f.scale
  let row ← div? py size
  let column ← div? px size
  return f.tiles.tile? row.toNat column.toNat

/-- A bit of a row of a bitmap, which has to be one of its rows, is set. -/
def isSet? (r : Rows) (row : UInt32) (bit : UInt8) : Option Bool :=
  r.bytes[row.toNat]?.map (· &&& bit != 0)

/-- A bit of a row of the mask of a tile is set, where masks count and there is one. -/
def isMasked? (f : WordFrame) (tile : Tile) (row : UInt32) (bit : UInt8) : Option (Option Bool) :=
  match f.mask, tile.mask with
  | .ignored, _ | _, none => some none
  | _, some mask => (isSet? mask row bit).map some

/-- The colour of a pixel of the uncropped frame. -/
def colourAt? (f : WordFrame) (px py : UInt32) : Option Colour := do
  match ← f.tileAt? px py with
  | none => return .black
  | some tile =>
    let size ← mul? 8 f.scale
    let row ← div? (← mod? py size) f.scale
    let bit ← bit? (← div? (← mod? px size) f.scale)
    let set ← isSet? tile.data row bit
    let masked ← f.isMasked? tile row bit
    return .ofBits f.mask tile.attr set masked

/-- The colour of a pixel of the cropped frame. -/
def pixel? (f : WordFrame) (i j : UInt32) : Option Colour := do
  f.colourAt? (← add? f.x i) (← add? f.y j)

/-! ### The sides are computed -/

variable {tooLarge : TooLarge} {cells : UInt64} {scale : UInt32} {full start : UInt32}

/-- A product of less than `2 ^ 29` by eight and by a word of 32 bits fits in 64 bits. -/
theorem mul_lt {n : Nat} (h : n < 2 ^ 29) (scale : UInt32) : 8 * n * scale.toNat < 2 ^ 64 := by
  have hscale : scale.toNat < 2 ^ 32 := scale.toNat_lt
  calc 8 * n * scale.toNat ≤ 2 ^ 32 * scale.toNat := Nat.mul_le_mul_right _ (by omega)
    _ < 2 ^ 32 * 2 ^ 32 := Nat.mul_lt_mul_of_pos_left hscale (by decide)
    _ = 2 ^ 64 := by decide

/-- A side is computed in wide words and is too large if it does not fit into a narrow one. -/
theorem fullSide?_eq (h : cells.toNat < 2 ^ 29) (tooLarge : TooLarge) (scale : UInt32) :
    fullSide? tooLarge cells scale = certain
      (match ofNat? (8 * cells.toNat * scale.toNat) with
        | some side => .ok side
        | none => .error tooLarge) := by
  obtain ⟨size, hsize, hsizeNat⟩ := exists_wide? (n := (8 : UInt64).toNat * cells.toNat)
    (by change 8 * _ < _; omega)
  obtain ⟨side, hside, hsideNat⟩ := exists_wide? (n := size.toNat * scale.toUInt64.toNat) (by
    rw [hsizeNat, UInt32.toNat_toUInt64]
    exact mul_lt h scale)
  have heq : side.toNat = 8 * cells.toNat * scale.toNat := by
    rw [hsideNat, hsizeNat, UInt32.toNat_toUInt64]
    rfl
  unfold fullSide? mulWide?
  rw [hsize, lift_some_bind, hside, lift_some_bind, heq]
  cases ofNat? (8 * cells.toNat * scale.toNat) <;> rfl

/-- A side that is cropped is computed without overflow. -/
theorem toNat_croppedSide (full start : UInt32) (wanted : Option UInt32) :
    (croppedSide full start wanted).toNat = Frame.croppedSide full.toNat start wanted := by
  rw [croppedSide, UInt32.toNat_min, toNat_monus, Frame.croppedSide_eq]
  cases wanted.filter (· ≠ 0) <;> rfl

/-- A crop is computed in wide words, and the frame is too large if its pixels are too many. -/
theorem crop?_eq (tooLarge : TooLarge) (g : Grid) (scale : UInt32) (mask : MaskMode) (crop : Crop)
    (fullWidth fullHeight : UInt32) :
    crop? tooLarge g scale mask crop fullWidth fullHeight = certain
      (if (croppedSide fullWidth crop.x crop.width).toNat
            * (croppedSide fullHeight crop.y crop.height).toNat ≤ maxPixels then
        .ok { tiles := g, scale, mask, x := crop.x, y := crop.y
              width := croppedSide fullWidth crop.x crop.width
              height := croppedSide fullHeight crop.y crop.height
              fullWidth, fullHeight, delay := Frame.defaultDelay }
      else .error tooLarge) := by
  have hlt : (croppedSide fullWidth crop.x crop.width).toNat
      * (croppedSide fullHeight crop.y crop.height).toNat < 2 ^ 32 * 2 ^ 32 :=
    Nat.mul_lt_mul'' (UInt32.toNat_lt _) (UInt32.toNat_lt _)
  obtain ⟨area, harea?, harea⟩ := exists_wide? hlt
  unfold crop? mulWide?
  dsimp only
  rw [UInt32.toNat_toUInt64, UInt32.toNat_toUInt64, harea?, lift_some_bind, harea]
  split <;> rfl

/-- **The frame in words is the frame,** and there is none where there is no frame. -/
theorem make?_eq {g : Grid} (hcolumns : g.width < 2 ^ 29) (hrows : g.length < 2 ^ 29)
    (scale : UInt32) (mask : MaskMode) (crop : Crop) :
    (make? g scale mask crop).map frame = certain (Frame.make g scale mask crop) := by
  obtain ⟨columns, hcolumns?, hcolumnsNat⟩ := exists_wide? (n := g.width) (by omega)
  obtain ⟨rows, hrows?, hrowsNat⟩ := exists_wide? (n := g.length) (by omega)
  have hscale : (max scale 1).toNat = max scale.toNat 1 := UInt32.toNat_max scale 1
  unfold make? Frame.make Frame.maxSide
  rw [hcolumns?, lift_some_bind, hrows?, lift_some_bind]
  dsimp only
  rw [fullSide?_eq (hcolumnsNat ▸ hcolumns), fullSide?_eq (hrowsNat ▸ hrows), hcolumnsNat, hrowsNat,
    hscale]
  -- A side that does not fit in a word is one that is too long for a frame.
  cases hwidth : ofNat? (8 * g.width * max scale.toNat 1) with
  | none =>
    have hge := ofNat?_eq_none.1 hwidth
    rw [if_neg fun h => Nat.not_succ_le_self _ (Nat.le_trans hge h.1)]
    rfl
  | some fullWidth =>
    cases hheight : ofNat? (8 * g.length * max scale.toNat 1) with
    | none =>
      have hge := ofNat?_eq_none.1 hheight
      rw [if_neg fun h => Nat.not_succ_le_self _ (Nat.le_trans hge h.2.1)]
      rfl
    | some fullHeight =>
      have hfullWidth := ofNat?_eq_some.1 hwidth
      have hfullHeight := ofNat?_eq_some.1 hheight
      have hwidthLe := Nat.le_sub_one_of_lt fullWidth.toNat_lt
      have hheightLe := Nat.le_sub_one_of_lt fullHeight.toNat_lt
      show (crop? _ g (max scale 1) mask crop fullWidth fullHeight).map frame = _
      rw [crop?_eq, toNat_croppedSide, toNat_croppedSide, ← hfullWidth, ← hfullHeight]
      by_cases harea : Frame.croppedSide fullWidth.toNat crop.x crop.width
          * Frame.croppedSide fullHeight.toNat crop.y crop.height ≤ maxPixels
      · rw [if_pos harea, if_pos ⟨hwidthLe, hheightLe, harea⟩, ← hscale, ← toNat_croppedSide,
          ← toNat_croppedSide]
        rfl
      · rw [if_neg harea, if_neg fun h => harea h.2.2]
        rfl

/-! ### Pixels are computed -/

/-- The bit of a column is one that can be shifted to. -/
theorem bit?_eq {n : UInt32} (h : n.toNat < 8) : bit? n = some (1 <<< (7 - n.toNat).toUInt8) := by
  have hbit : ∀ k : Fin 8, (128 : UInt8) >>> k.val.toUInt8 = 1 <<< (7 - k.val).toUInt8 := by decide
  rw [bit?, if_pos (UInt32.lt_iff_toNat_lt.2 h)]
  exact congrArg some (hbit ⟨n.toNat, h⟩)

/-- A bit of a row is looked up in a row that is there. -/
theorem isSet?_eq (r : Rows) {row : UInt32} (y x : Fin 8) (hrow : row.toNat = y) :
    isSet? r row (1 <<< (7 - x.val).toUInt8) = some (r.pixel y x) := by
  rw [isSet?, hrow, Vector.getElem?_eq_getElem y.isLt, Option.map_some, Rows.and_shiftLeft_bne_zero]
  rfl

theorem isMasked?_eq (f : WordFrame) (tile : Tile) {row : UInt32} (y x : Fin 8)
    (hrow : row.toNat = y) :
    f.isMasked? tile row (1 <<< (7 - x.val).toUInt8) = some (tile.maskPixel? f.mask y x) := by
  unfold isMasked? Tile.maskPixel?
  cases f.mask <;> cases tile.mask <;> simp [isSet?_eq _ y x hrow]

variable {f : WordFrame} (hpos : 0 < f.scale.toNat) (hfits : 8 * f.scale.toNat < 2 ^ 32)

include hpos hfits

/-- The tile of a pixel is computed in words as in numbers. -/
theorem tileAt?_eq (px py : UInt32) :
    f.tileAt? px py = some (f.frame.tileAt px.toNat py.toNat) := by
  obtain ⟨size, hsize?, hsize⟩ := exists_ofNat? hfits
  have hsizePos : 0 < size.toNat := by omega
  obtain ⟨row, hrow?, hrow⟩ := exists_div? (a := py) hsizePos
  obtain ⟨column, hcolumn?, hcolumn⟩ := exists_div? (a := px) hsizePos
  have hmul : mul? 8 f.scale = some size := hsize?
  unfold tileAt?
  simp only [Option.bind_eq_bind, Option.bind_some, Option.pure_def, hmul, hrow?, hcolumn?]
  rw [hrow, hcolumn, hsize]
  rfl

/-- **The colour of a pixel is computed in words.** -/
theorem colourAt?_eq (px py : UInt32) :
    f.colourAt? px py = some (f.frame.colourAt px.toNat py.toNat) := by
  obtain ⟨size, hsize?, hsize⟩ := exists_ofNat? hfits
  have hsizePos : 0 < size.toNat := by omega
  have hmul : mul? 8 f.scale = some size := hsize?
  -- Nothing is divided by zero, as the scale is at least one.
  have hplace (p : UInt32) : ∃ left place, mod? p size = some left ∧ div? left f.scale = some place ∧
      place.toNat = f.frame.placeInTile p.toNat := by
    obtain ⟨left, hleft?, hleft⟩ := exists_mod? (a := p) hsizePos
    obtain ⟨place, hplace?, hplace⟩ := exists_div? (a := left) hpos
    refine ⟨left, place, hleft?, hplace?, ?_⟩
    rw [hplace, hleft, hsize]
    exact (Nat.mod_eq_of_lt (Frame.place_lt hpos _)).symm
  unfold colourAt? Frame.colourAt
  rw [tileAt?_eq hpos hfits]
  cases f.frame.tileAt px.toNat py.toNat with
  | none => rfl
  | some tile =>
    obtain ⟨below, row, hbelow?, hrow?, hrow⟩ := hplace py
    obtain ⟨right, column, hright?, hcolumn?, hcolumn⟩ := hplace px
    have hbit := bit?_eq (n := column) (hcolumn ▸ Fin.isLt _)
    rw [hcolumn] at hbit
    simp only [Option.bind_eq_bind, Option.bind_some, Option.pure_def, hmul, hbelow?, hrow?, hright?,
      hcolumn?, hbit, isSet?_eq _ _ _ hrow, isMasked?_eq _ _ _ _ hrow]
    rfl

omit hpos hfits

/-! ### What is known of the numbers -/

/-- What is known of the numbers of a frame in words. -/
structure Sound (f : WordFrame) : Prop where
  /-- The cropped frame ends inside the uncropped one, if anything is left of it. -/
  width_le : 0 < f.width.toNat ∨ f.x.toNat < f.fullWidth.toNat →
    f.x.toNat + f.width.toNat ≤ f.fullWidth.toNat
  height_le : 0 < f.height.toNat ∨ f.y.toNat < f.fullHeight.toNat →
    f.y.toNat + f.height.toNat ≤ f.fullHeight.toNat
  area_le : f.width.toNat * f.height.toNat ≤ 2 ^ 24
  /-- The place of a pixel, the size of its tile and the place in the tile are small enough. -/
  place_lt : ∀ i < f.width.toNat, ∀ j < f.height.toNat,
    f.x.toNat + i < 2 ^ 32 ∧ f.y.toNat + j < 2 ^ 32 ∧
    0 < 8 * f.scale.toNat ∧ 8 * f.scale.toNat < 2 ^ 32 ∧
    (f.y.toNat + j) % (8 * f.scale.toNat) / f.scale.toNat < 8 ∧
    (f.x.toNat + i) % (8 * f.scale.toNat) / f.scale.toNat < 8
  /-- The colour of a pixel is computed, and it is that of the raster. -/
  pixel?_eq : ∀ i j : UInt32, i < f.width → j < f.height →
    ∃ colour, f.pixel? i j = some colour ∧
      f.frame.rasterise.pixel? i.toNat j.toNat = some colour

/-- **A frame within the limits is computed without overflow, pixel by pixel.** -/
theorem sound_of_fits (h : f.frame.Fits) : f.Sound := by
  have hwidth : f.width.toNat ≤ f.fullWidth.toNat - f.x.toNat := h.width_le
  have hheight : f.height.toNat ≤ f.fullHeight.toNat - f.y.toNat := h.height_le
  have hfullWidth : f.fullWidth.toNat < 2 ^ 32 := h.fullWidth_lt
  have hfullHeight : f.fullHeight.toNat < 2 ^ 32 := h.fullHeight_lt
  have hpos : 0 < f.scale.toNat := h.scale_pos
  refine ⟨by omega, by omega, h.area_le, fun i hi j hj => ?_, fun i j hi hj => ?_⟩
  · have hsquare : 8 * f.scale.toNat < 2 ^ 32 := h.square_lt (Nat.zero_lt_of_lt hi)
    exact ⟨by omega, by omega, by omega, hsquare, Frame.place_lt hpos _, Frame.place_lt hpos _⟩
  · rw [UInt32.lt_iff_toNat_lt] at hi hj
    have hsquare : 8 * f.scale.toNat < 2 ^ 32 := h.square_lt (Nat.zero_lt_of_lt hi)
    obtain ⟨px, hpx?, hpx⟩ := exists_ofNat? (n := f.x.toNat + i.toNat) (by omega)
    obtain ⟨py, hpy?, hpy⟩ := exists_ofNat? (n := f.y.toNat + j.toNat) (by omega)
    have haddX : add? f.x i = some px := hpx?
    have haddY : add? f.y j = some py := hpy?
    refine ⟨f.frame.colourAt px.toNat py.toNat, ?_, ?_⟩
    · unfold pixel?
      simp only [Option.bind_eq_bind, Option.bind_some, haddX, haddY]
      exact colourAt?_eq hpos hsquare px py
    · rw [Frame.pixel?_rasterise f.frame hi hj, hpx, hpy]
      rfl

end WordFrame

/-- **The numbers of frames fit in words.**  Over a grid of less than `2 ^ 29` columns and rows, a
frame is computed in words without an overflow.  There is none exactly if a side does not fit in a
word or too many pixels are left.  If there is one, it is cropped inside the grid, with whatever
delay it is shown, and its raster is computed in words: no place of a pixel overflows, no tile has
the size zero, and no row or bit is looked up that a tile does not have. -/
theorem Frame.make_inWords {g : Grid} (hcolumns : g.width < 2 ^ 29) (hrows : g.length < 2 ^ 29)
    (scale : UInt32) (mask : MaskMode) (crop : Crop) :
    (WordFrame.make? g scale mask crop).map WordFrame.frame = certain (make g scale mask crop) ∧
    (make g scale mask crop = .error ⟨g.width, g.length, max scale.toNat 1⟩ ↔
      2 ^ 32 - 1 < 8 * g.width * max scale.toNat 1 ∨
      2 ^ 32 - 1 < 8 * g.length * max scale.toNat 1 ∨
      2 ^ 24 < croppedSide (8 * g.width * max scale.toNat 1) crop.x crop.width
        * croppedSide (8 * g.length * max scale.toNat 1) crop.y crop.height) ∧
    ∀ f, WordFrame.make? g scale mask crop = certain (.ok f) →
      make g scale mask crop = .ok f.frame ∧ f.Sound ∧ ∀ delay, (f.withDelay delay).Sound := by
  have hmake := WordFrame.make?_eq hcolumns hrows scale mask crop
  refine ⟨hmake, ⟨fun h => make_eq_error_iff.1 ⟨_, h⟩, fun h => ?_⟩, fun f hf => ?_⟩
  · obtain ⟨e, he⟩ := make_eq_error_iff.2 h
    rw [he, eq_of_make_eq_error he]
  · rw [hf] at hmake
    have hframe : make g scale mask crop = .ok f.frame := (Option.some.inj hmake).symm
    have hfits := fits_of_make hframe
    exact ⟨hframe, WordFrame.sound_of_fits hfits,
      fun delay => WordFrame.sound_of_fits (hfits.withDelay delay)⟩

/-- A tile at the largest scale that there is, cropped to its last eight columns: the places of the
pixels come close to the end of the words. -/
theorem Frame.make_inWords_largestScale :
    ∃ f, WordFrame.make? [[⟨7, .ofList [1], none⟩]] 536870911 .ignored
        { x := 4294967280, y := 5, width := some 100, height := some 3 } = certain (.ok f) ∧
      f.Sound ∧ f.width = 8 ∧ f.pixel? 7 2 = some (Colour.ink 7) := by
  obtain ⟨f, hf, hwidth, hpixel⟩ : ∃ f, WordFrame.make? [[⟨7, .ofList [1], none⟩]] 536870911 .ignored
        { x := 4294967280, y := 5, width := some 100, height := some 3 } = certain (.ok f) ∧
      f.width = 8 ∧ f.pixel? 7 2 = some (Colour.ink 7) := ⟨_, rfl, rfl, by decide⟩
  obtain ⟨-, -, hsound⟩ := make_inWords (g := [[⟨7, .ofList [1], none⟩]]) (by decide) (by decide)
    536870911 .ignored { x := 4294967280, y := 5, width := some 100, height := some 3 }
  exact ⟨f, hf, (hsound f hf).2.1, hwidth, hpixel⟩

end MemoryDoc
