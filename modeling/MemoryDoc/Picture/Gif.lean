/-
# Files of the format GIF

A file is a header with a table of colours, and frames, each with the time that it is shown for.
The animation goes on for ever.  Pixels are numbers of colours.  They are written as codes of one
length: the code that clears the dictionary comes before the codes would grow.
-/
import MemoryDoc.Picture.File

namespace MemoryDoc.Gif

/-- The last two bytes of a number, the lowest first. -/
def littleEndian (n : Nat) : List UInt8 :=
  [n.toUInt8, (n >>> 8).toUInt8]

/-! ## Colours -/

/-- The number of bits that tell a colour. -/
def colourBits : Nat := 5

/-- The number of the colour that lets what is behind show through. -/
def transparentNumber : Nat := 16

/-- The table of colours.  Those behind the palette are not used, but for the transparent one. -/
def colourTable : List UInt8 :=
  Colour.palette.toList.flatMap (fun c => [c.red, c.green, c.blue]) ++ List.replicate 48 0

/-- The number of a colour. -/
def colourNumber (c : Colour) : Nat :=
  (Colour.palette.toList.findIdx? (· = c)).getD transparentNumber

/-! ## Codes -/

/-- The code that clears the dictionary. -/
def clearCode : Nat := 1 <<< colourBits

/-- The code behind the last pixel. -/
def endCode : Nat := clearCode + 1

/-- The number of bits of a code. -/
def codeBits : Nat := colourBits + 1

/-- The most pixels between two clearings for which codes do not grow. -/
def run : Nat := clearCode - 4

/-- Bits that have been written, the first the lowest, of which the last may not fill a byte. -/
structure Bits where
  bytes : ByteArray := .empty
  pending : Nat := 0
  count : Nat := 0

/-- Write a code. -/
def Bits.push (b : Bits) (code : Nat) : Bits :=
  let pending := b.pending + code <<< b.count
  let count := b.count + codeBits
  if 8 ≤ count then ⟨b.bytes.push pending.toUInt8, pending >>> 8, count - 8⟩
  else ⟨b.bytes, pending, count⟩

/-- The bytes of all bits. -/
def Bits.finish (b : Bits) : ByteArray :=
  if b.count = 0 then b.bytes else b.bytes.push b.pending.toUInt8

/-- The codes of the pixels of a raster. -/
def codes (r : Raster) : ByteArray :=
  let (bits, _) := r.colours.foldl
    (fun ((bits, n) : Bits × Nat) c =>
      ((if n % run = 0 then bits.push clearCode else bits).push (colourNumber c), n + 1))
    (({} : Bits), 0)
  (bits.push endCode).finish

/-- The most bytes that a block may have. -/
def maxBlock : Nat := 255

/-- The bytes in blocks, each behind its length, and an empty block. -/
def blocks (bytes : ByteArray) : ByteArray :=
  ((List.range ((bytes.size + maxBlock - 1) / maxBlock)).foldl (fun out n =>
    let block := bytes.extract (n * maxBlock) ((n + 1) * maxBlock)
    out.push block.size.toUInt8 ++ block) .empty).push 0

/-! ## Files -/

/-- The header of an animation whose first frame is `r`. -/
def header (r : Raster) : ByteArray :=
  "GIF89a".toUTF8 ++ ⟨(littleEndian r.width ++ littleEndian r.height
    ++ [(0x80 + 0x70 + (colourBits - 1)).toUInt8, 0, 0] ++ colourTable).toArray⟩

/-- The block, with its eleven letters, that makes the animation go on for ever. -/
def endless : ByteArray :=
  ⟨#[0x21, 0xff, 11, 0x4e, 0x45, 0x54, 0x53, 0x43, 0x41, 0x50, 0x45, 0x32, 0x2e, 0x30, 3, 1, 0, 0, 0]⟩

/-- A frame of an animation. -/
def frame (p : Piece) : ByteArray :=
  ⟨([0x21, 0xf9, 4, 0x05] ++ littleEndian (p.delay.getD 0) ++ [transparentNumber.toUInt8, 0]
    ++ [0x2c, 0, 0, 0, 0] ++ littleEndian p.raster.width ++ littleEndian p.raster.height
    ++ [0, colourBits.toUInt8]).toArray⟩ ++ blocks (codes p.raster)

/-- The file that holds frames. -/
def file : List Piece → ByteArray
  | [] => .empty
  | p :: ps =>
    ((p :: ps).foldl (fun out p => out ++ frame p) (header p.raster ++ endless)).push 0x3b

end MemoryDoc.Gif
