/-
# Files of the format PNG

A file is a signature and chunks: the header with the sides of the raster, its colours, and the
end.  Each chunk is followed by its check value.  The colours, four bytes each and each row behind a
zero, are stored in blocks without being compressed.
-/
import MemoryDoc.Picture.File

namespace MemoryDoc.Png

/-- The last `width` bytes of a number, the highest first. -/
def bigEndian : (width : Nat) → (n : Nat) → List UInt8
  | 0, _ => []
  | width + 1, n => (n >>> (8 * width)).toUInt8 :: bigEndian width n

/-! ## Check values -/

/-- One step of the division that gives the check value of a chunk. -/
def crcShift (c : UInt32) : UInt32 :=
  if c &&& 1 = 1 then (c >>> 1) ^^^ 0xedb88320 else c >>> 1

/-- What the division makes of each byte. -/
def crcTable : Array UInt32 :=
  Array.ofFn fun n : Fin 256 => (List.range 8).foldl (fun c _ => crcShift c) n.val.toUInt32

/-- The check value after one more byte. -/
def crcByte (table : Array UInt32) (c : UInt32) (byte : UInt8) : UInt32 :=
  table.getD ((c ^^^ byte.toUInt32) &&& 255).toNat 0 ^^^ (c >>> 8)

/-- The check value of a chunk. -/
def crc (bytes : ByteArray) : UInt32 :=
  bytes.foldl (crcByte crcTable) 0xffffffff ^^^ 0xffffffff

/-- The sums of the bytes, and of the sums, that check stored data. -/
def adler (bytes : ByteArray) : Nat :=
  let (a, b) := bytes.foldl
    (fun ((a, b) : Nat × Nat) byte =>
      let a := (a + byte.toNat) % 65521
      (a, (b + a) % 65521)) (1, 0)
  b <<< 16 + a

/-! ## Stored data -/

/-- The most bytes that a stored block may have. -/
def maxBlock : Nat := 65535

/-- A stored block: whether it is the last, its length, the complement of its length, its bytes. -/
def block (isLast : Bool) (bytes : ByteArray) : ByteArray :=
  let n := bytes.size
  let c := maxBlock - n
  ⟨#[if isLast then 1 else 0, n.toUInt8, (n >>> 8).toUInt8, c.toUInt8, (c >>> 8).toUInt8]⟩ ++ bytes

/-- The number of blocks that some bytes are stored in. -/
def blockCount (bytes : ByteArray) : Nat :=
  max 1 ((bytes.size + maxBlock - 1) / maxBlock)

/-- The bytes in stored blocks, between a header and their sums. -/
def stored (bytes : ByteArray) : ByteArray :=
  let count := blockCount bytes
  let blocks := (List.range count).foldl (fun out n =>
    out ++ block (n + 1 = count) (bytes.extract (n * maxBlock) ((n + 1) * maxBlock)))
    (⟨#[0x78, 0x01]⟩ : ByteArray)
  blocks ++ ⟨(bigEndian 4 (adler bytes)).toArray⟩

/-! ## Files -/

/-- A chunk of a file. -/
def chunk (kind : String) (bytes : ByteArray) : ByteArray :=
  let body := kind.toUTF8 ++ bytes
  ⟨(bigEndian 4 bytes.size).toArray⟩ ++ body ++ ⟨(bigEndian 4 (crc body).toNat).toArray⟩

/-- The first bytes of each file. -/
def signature : ByteArray :=
  ⟨#[0x89, 0x50, 0x4e, 0x47, 0x0d, 0x0a, 0x1a, 0x0a]⟩

/-- The sides of a raster, and that its colours have four bytes. -/
def header (r : Raster) : ByteArray :=
  ⟨(bigEndian 4 r.width ++ bigEndian 4 r.height ++ [8, 6, 0, 0, 0]).toArray⟩

/-- Add a colour to some bytes. -/
def pushColour (out : ByteArray) (c : Colour) : ByteArray :=
  (((out.push c.red).push c.green).push c.blue).push c.alpha

/-- The colours of a raster, each row behind a zero. -/
def pixels (r : Raster) : ByteArray :=
  (List.range r.height).foldl (fun out row =>
    r.colours.foldl pushColour (out.push 0) (row * r.width) ((row + 1) * r.width)) .empty

/-- The file that holds a raster. -/
def file (r : Raster) : ByteArray :=
  signature ++ chunk "IHDR" (header r) ++ chunk "IDAT" (stored (pixels r)) ++ chunk "IEND" .empty

end MemoryDoc.Png
