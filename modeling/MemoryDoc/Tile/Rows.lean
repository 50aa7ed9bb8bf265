/-
# Bitmaps of eight by eight pixels

Eight bytes are the rows of a bitmap, from top to bottom; the highest bit of a row is its leftmost
pixel.  Flipping and turning are defined by where each pixel comes from.

Main statements: a bitmap is determined by its pixels (`ext_pixel`), and the bitmap made of given
pixels has them (`pixel_ofPixels`).
-/

namespace MemoryDoc

/-- A bitmap of eight by eight pixels, a byte for each row. -/
structure Rows where
  bytes : Vector UInt8 8
deriving DecidableEq, Repr

namespace Rows

/-- The pixel in row `y`, `x` pixels from the left. -/
def pixel (r : Rows) (y x : Fin 8) : Bool :=
  r.bytes[y].toNat.testBit (7 - x)

/-- The byte in which the pixel `x` from the left is `on` and the others are off. -/
def bitOf (on : Bool) (x : Fin 8) : UInt8 :=
  on.toUInt8 <<< (7 - x.val).toUInt8

/-- The byte whose bits from the highest down are given. -/
def byteOf (f : Fin 8 → Bool) : UInt8 :=
  bitOf (f 0) 0 ||| bitOf (f 1) 1 ||| bitOf (f 2) 2 ||| bitOf (f 3) 3
    ||| bitOf (f 4) 4 ||| bitOf (f 5) 5 ||| bitOf (f 6) 6 ||| bitOf (f 7) 7

/-- The bitmap with the given pixels. -/
def ofPixels (f : Fin 8 → Fin 8 → Bool) : Rows :=
  ⟨Vector.ofFn fun y => byteOf (f y)⟩

/-- The bitmap whose rows are the first eight bytes of a list, with zeros for those missing. -/
def ofList (bytes : List UInt8) : Rows :=
  ⟨Vector.ofFn fun y => bytes.getD y 0⟩

/-- The rows from top to bottom. -/
def toList (r : Rows) : List UInt8 :=
  r.bytes.toList

/-- Every row changed by `f`. -/
def map (r : Rows) (f : UInt8 → UInt8) : Rows :=
  ⟨r.bytes.map f⟩

/-- The bitmap flipped left to right if `sideways`, and top to bottom if `upright`. -/
def flip (sideways upright : Bool) (r : Rows) : Rows :=
  ofPixels fun y x => r.pixel (if upright then y.rev else y) (if sideways then x.rev else x)

/-- The bitmap turned clockwise by a quarter: its leftmost column, read upwards, comes on top. -/
def turn (r : Rows) : Rows :=
  ofPixels fun y x => r.pixel x.rev y

/-- The bitmap turned clockwise by `n` quarters. -/
def turns : (n : Nat) → Rows → Rows
  | 0, r => r
  | n + 1, r => turns n (turn r)

/-! ## Pixels -/

/-- A bit is set in its own column only. -/
theorem testBit_bitOf (on : Bool) (x k : Fin 8) :
    (bitOf on k).toNat.testBit (7 - x) = (decide (x = k) && on) := by
  revert on x k
  decide +kernel

/-- A byte has the bits that it is made of. -/
theorem testBit_byteOf (f : Fin 8 → Bool) (x : Fin 8) :
    (byteOf f).toNat.testBit (7 - x) = f x := by
  simp only [byteOf, UInt8.toNat_or, Nat.testBit_or, testBit_bitOf]
  match x with
  | 0 | 1 | 2 | 3 | 4 | 5 | 6 | 7 => simp

theorem byteOf_testBit (b : UInt8) : (byteOf fun x => b.toNat.testBit (7 - x)) = b := by
  have key : ∀ n : Fin 256, (byteOf fun x => n.val.testBit (7 - x)).toNat = n := by
    decide +kernel
  apply UInt8.toNat_inj.1
  exact key ⟨b.toNat, b.toNat_lt⟩

/-- **The bitmap made of given pixels has them.** -/
@[simp] theorem pixel_ofPixels (f : Fin 8 → Fin 8 → Bool) (y x : Fin 8) :
    (ofPixels f).pixel y x = f y x := by
  simp [pixel, ofPixels, testBit_byteOf]

@[simp] theorem pixel_flip (sideways upright : Bool) (r : Rows) (y x : Fin 8) :
    (r.flip sideways upright).pixel y x =
      r.pixel (if upright then y.rev else y) (if sideways then x.rev else x) :=
  pixel_ofPixels _ y x

@[simp] theorem pixel_turn (r : Rows) (y x : Fin 8) : r.turn.pixel y x = r.pixel x.rev y :=
  pixel_ofPixels _ y x

/-- **A bitmap is determined by its pixels.** -/
theorem ext_pixel {r s : Rows} (h : ∀ y x, r.pixel y x = s.pixel y x) : r = s := by
  cases r with
  | mk v =>
    cases s with
    | mk w =>
      congr
      ext i hi
      have hrow : (fun x : Fin 8 => v[i].toNat.testBit (7 - x))
          = fun x : Fin 8 => w[i].toNat.testBit (7 - x) := by
        funext x
        exact h ⟨i, hi⟩ x
      rw [← byteOf_testBit v[i], ← byteOf_testBit w[i], hrow]

end Rows

end MemoryDoc
