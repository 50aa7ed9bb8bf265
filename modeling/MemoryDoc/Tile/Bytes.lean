/-
# Bitmaps byte by byte

A bitmap is flipped by its bytes alone: from left to right by a table of the bytes in reverse order
of their bits, and from top to bottom by reversing the order of the bytes.  It is turned by bit
planes: the same bit of all bytes makes a row, into which the pixels come one after the other.

Main statements: flipping and turning by bytes come to what they do by pixels (`flipBytes_eq`,
`turnBytes_eq`).
-/
import MemoryDoc.Tile.Basic

namespace MemoryDoc

namespace Rows

set_option maxRecDepth 2000 in
/-- The bytes that have the bits of 0, 1, 2 and so on in reverse order. -/
def reversedBytes : List UInt8 :=
  [0, 128, 64, 192, 32, 160, 96, 224, 16, 144, 80, 208, 48, 176, 112, 240,
    8, 136, 72, 200, 40, 168, 104, 232, 24, 152, 88, 216, 56, 184, 120, 248,
    4, 132, 68, 196, 36, 164, 100, 228, 20, 148, 84, 212, 52, 180, 116, 244,
    12, 140, 76, 204, 44, 172, 108, 236, 28, 156, 92, 220, 60, 188, 124, 252,
    2, 130, 66, 194, 34, 162, 98, 226, 18, 146, 82, 210, 50, 178, 114, 242,
    10, 138, 74, 202, 42, 170, 106, 234, 26, 154, 90, 218, 58, 186, 122, 250,
    6, 134, 70, 198, 38, 166, 102, 230, 22, 150, 86, 214, 54, 182, 118, 246,
    14, 142, 78, 206, 46, 174, 110, 238, 30, 158, 94, 222, 62, 190, 126, 254,
    1, 129, 65, 193, 33, 161, 97, 225, 17, 145, 81, 209, 49, 177, 113, 241,
    9, 137, 73, 201, 41, 169, 105, 233, 25, 153, 89, 217, 57, 185, 121, 249,
    5, 133, 69, 197, 37, 165, 101, 229, 21, 149, 85, 213, 53, 181, 117, 245,
    13, 141, 77, 205, 45, 173, 109, 237, 29, 157, 93, 221, 61, 189, 125, 253,
    3, 131, 67, 195, 35, 163, 99, 227, 19, 147, 83, 211, 51, 179, 115, 243,
    11, 139, 75, 203, 43, 171, 107, 235, 27, 155, 91, 219, 59, 187, 123, 251,
    7, 135, 71, 199, 39, 167, 103, 231, 23, 151, 87, 215, 55, 183, 119, 247,
    15, 143, 79, 207, 47, 175, 111, 239, 31, 159, 95, 223, 63, 191, 127, 255]

/-- The byte with its bits in reverse order. -/
def reverseBits (b : UInt8) : UInt8 :=
  reversedBytes.getD b.toNat 0

/-- The bitmap flipped left to right if `sideways`, and top to bottom if `upright`, by bytes. -/
def flipBytes (sideways upright : Bool) (r : Rows) : Rows :=
  let r := if sideways then r.map reverseBits else r
  if upright then ⟨r.bytes.reverse⟩ else r

/-- A row of pixels moved on by one to the right, with a new pixel at its left end. -/
def shiftIn (row : UInt8) (on : Bool) : UInt8 :=
  if on then row >>> 1 ||| 128 else row >>> 1

/-- The row that the same bit of all bytes makes.  The bit of the first byte goes to the right end. -/
def plane (r : Rows) (bit : UInt8) : UInt8 :=
  r.toList.foldl (fun row byte => shiftIn row (byte &&& bit != 0)) 0

/-- The bitmap turned clockwise by a quarter, by bit planes: that of the highest bit comes on top. -/
def turnBytes (r : Rows) : Rows :=
  ⟨Vector.ofFn fun y => r.plane (1 <<< (7 - y.val).toUInt8)⟩

/-! ## Flipping -/

/-- The table has each byte in reverse. -/
theorem reversedBytes_eq :
    reversedBytes = (List.range 256).map fun n => byteOf fun x => n.testBit x := by
  decide +kernel

/-- The leftmost bit of a byte is the rightmost of the byte with its bits in reverse order. -/
theorem testBit_reverseBits (b : UInt8) (x : Fin 8) :
    (reverseBits b).toNat.testBit (7 - x) = b.toNat.testBit (7 - x.rev) := by
  have hlt : b.toNat < 256 := b.toNat_lt
  have hbyte : reverseBits b = byteOf fun x => b.toNat.testBit x := by
    rw [reverseBits, reversedBytes_eq]
    simp [hlt]
  rw [hbyte, testBit_byteOf, Fin.val_rev]
  congr 1
  omega

/-- **Flipping by bytes is flipping by pixels.** -/
theorem flipBytes_eq (sideways upright : Bool) (r : Rows) :
    r.flipBytes sideways upright = r.flip sideways upright := by
  apply ext_pixel
  intro y x
  rw [pixel_flip]
  cases sideways with
  | false => cases upright <;> simp [flipBytes, pixel, Fin.rev]
  | true => cases upright <;> simp [flipBytes, pixel, map, testBit_reverseBits, Fin.rev]

/-! ## Turning -/

/-- A bit is told by shifting a one to its place. -/
theorem and_shiftLeft_bne_zero (b : UInt8) (y : Fin 8) :
    (b &&& 1 <<< (7 - y.val).toUInt8 != 0) = b.toNat.testBit (7 - y) := by
  have key : ∀ (n : Fin 256) (y : Fin 8),
      (UInt8.ofNat n &&& 1 <<< (7 - y.val).toUInt8 != 0) = n.val.testBit (7 - y) := by
    decide +kernel
  have hb : UInt8.ofNat b.toFin.val = b := UInt8.ofNat_toNat
  have := key b.toFin y
  rwa [hb] at this

/-- A bit that is shifted in comes from the left, and the others move to the right. -/
theorem testBit_shiftIn (row : UInt8) (on : Bool) (k : Nat) :
    (shiftIn row on).toNat.testBit k = (row.toNat.testBit (k + 1) || (on && decide (7 = k))) := by
  have h7 : Nat.testBit 128 k = decide (7 = k) := Nat.testBit_two_pow (n := 7)
  cases on with
  | false => simp [shiftIn, Nat.testBit_shiftRight, Nat.add_comm]
  | true => simp [shiftIn, Nat.testBit_shiftRight, Nat.add_comm, h7]

/-- The last pixel that came into a row is its leftmost, and the others are in order behind it. -/
theorem testBit_foldl_shiftIn (pixels : List Bool) {k : Nat} (hk : k < 8) :
    (pixels.reverse.foldl shiftIn 0).toNat.testBit k = pixels.getD (7 - k) false := by
  rw [List.foldl_reverse]
  induction pixels generalizing k with
  | nil => simp
  | cons on pixels ih =>
    rw [List.foldr_cons, testBit_shiftIn]
    by_cases h : 7 = k
    · subst h
      have hlt := Nat.testBit_lt_two_pow (pixels.foldr (fun on row => shiftIn row on) 0).toNat_lt
      simp [hlt]
    · rw [ih (by omega), show 7 - k = 7 - (k + 1) + 1 by omega]
      simp [h]

/-- A bit plane is a column of the bitmap, read upwards. -/
theorem testBit_plane (r : Rows) (y x : Fin 8) :
    (r.plane (1 <<< (7 - y.val).toUInt8)).toNat.testBit (7 - x) = r.pixel x.rev y := by
  have hlen : r.toList.length = 8 := r.bytes.length_toList
  have hfold := testBit_foldl_shiftIn (r.toList.map fun b => b.toNat.testBit (7 - y)).reverse
    (show 7 - x.val < 8 by omega)
  rw [List.reverse_reverse, List.foldl_map, show 7 - (7 - x.val) = x by omega] at hfold
  simp only [plane, and_shiftLeft_bne_zero]
  rw [hfold, List.getD_eq_getElem?_getD, List.getElem?_reverse (by simp [hlen])]
  have hx : 7 - x.val < 8 := by omega
  simp [pixel, toList, Fin.rev, Vector.getElem?_eq_getElem hx]

/-- **Turning by bit planes is turning by pixels.** -/
theorem turnBytes_eq (r : Rows) : r.turnBytes = r.turn := by
  apply ext_pixel
  intro y x
  rw [pixel_turn, ← testBit_plane, pixel, turnBytes]
  simp

/-- The bitmap turned clockwise by `n` quarters, by bit planes. -/
def turnsBytes : (n : Nat) → Rows → Rows
  | 0, r => r
  | n + 1, r => turnsBytes n r.turnBytes

/-- Turns by bytes are turns by pixels. -/
theorem turnsBytes_eq (n : Nat) (r : Rows) : turnsBytes n r = turns n r := by
  induction n generalizing r with
  | zero => rfl
  | succ n ih => rw [turnsBytes, turns, turnBytes_eq, ih]

end Rows

namespace Tile

/-- The tile flipped as a flip mode asks, by bytes. -/
def flipBytes (mode : UInt32) (t : Tile) : Tile :=
  t.mapRows (Rows.flipBytes (flipsSideways mode) (flipsUpright mode))

/-- The tile turned clockwise by quarters, `times` times, by bit planes. -/
def rotateBytes (times : UInt32) (t : Tile) : Tile :=
  t.mapRows (Rows.turnsBytes (quarters times))

/-- **A tile is flipped and turned by bytes as it is by pixels.** -/
theorem flipBytes_eq (mode : UInt32) (t : Tile) : t.flipBytes mode = t.flip mode := by
  have hrows : Rows.flipBytes (flipsSideways mode) (flipsUpright mode)
      = Rows.flip (flipsSideways mode) (flipsUpright mode) := by
    funext r
    exact Rows.flipBytes_eq _ _ r
  rw [flipBytes, flip, hrows]

/-- **A tile is turned byte by byte as it is turned pixel by pixel.** -/
theorem rotateBytes_eq (times : UInt32) (t : Tile) : t.rotateBytes times = t.rotate times := by
  have hrows : Rows.turnsBytes (quarters times) = Rows.turns (quarters times) := by
    funext r
    exact Rows.turnsBytes_eq _ r
  rw [rotateBytes, rotate, hrows]

end Tile

end MemoryDoc
