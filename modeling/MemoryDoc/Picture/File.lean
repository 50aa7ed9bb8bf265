/-
# Picture files

A picture file holds rasters in one of two formats.  A file of the format `png` holds the first
frame; a file of the format `gif` holds all frames as an animation that goes on for ever.  The
suffix of a file name tells the format, in either case.

An encoder turns frames into the pieces to be written, one after the other, and says how it ended:
what was written before a fault stays written.
-/
import MemoryDoc.Picture.Raster

namespace MemoryDoc

/-- The formats of picture files. -/
inductive PictureFormat where
  | png
  | gif
deriving DecidableEq, Repr, Inhabited

namespace PictureFormat

/-- The name of a format, which is also its suffix without the dot. -/
def name : PictureFormat → Text
  | png => "png"
  | gif => "gif"

/-- The format of a name. -/
def ofName? (t : Text) : Option PictureFormat :=
  if t = "png".toList then some png else if t = "gif".toList then some gif else none

/-- The last four characters of a name, in lower case. -/
def suffix (path : Text) : Text :=
  (path.drop (path.length - 4)).map Char.toLower

/-- The format of a picture file, told by the suffix of its name. -/
def ofPath? (path : Text) : Option PictureFormat :=
  if suffix path = ".png".toList then some png
  else if suffix path = ".gif".toList then some gif
  else none

/-- The name of a file of this format. -/
def withSuffix (format : PictureFormat) (path : Text) : Text :=
  if (ofPath? path).isSome then path else path ++ "." ++ format.name

end PictureFormat

/-- Why frames have no pixels to write. -/
inductive Emptiness where
  /-- There are no frames. -/
  | noFrames
  /-- This frame has no pixels, where frames are counted from one. -/
  | frame (number : Nat)
deriving DecidableEq, Repr

/-- Why a picture file could not be written. -/
inductive PictureError where
  /-- The suffix of the name is that of no format. -/
  | unsupportedFormat (path : Text)
  /-- There are no pixels to write. -/
  | empty (why : Emptiness)
  /-- The file could not be opened or finished. -/
  | unwritable (path reason : Text)
  /-- A frame is too large for the format. -/
  | dimensions
  /-- A piece could not be written. -/
  | refused (reason : Text)
deriving DecidableEq, Repr

namespace PictureError

/-- The wording of the fault. -/
def message : PictureError → Text
  | unsupportedFormat path => "Unsupported image file format: " ++ path
  | empty .noFrames => "Cannot write an empty image: no frames"
  | empty (.frame number) =>
    "Cannot write an empty image: frame " ++ Numeral.decimal number ++ " has no pixels"
  | unwritable path reason => "Unable to write image file '" ++ path ++ "': " ++ reason
  | dimensions =>
    "Image encoding failed: The Image's dimensions are either too small or too large"
  | refused reason => "Image encoding failed: " ++ reason

end PictureError

/-- A piece of a picture file: a raster, and for how long it is shown in an animation. -/
structure Piece where
  raster : Raster
  delay : Option Nat
deriving DecidableEq, Repr

/-- The pieces that an encoder writes, and how it ends after writing them. -/
structure Encoding where
  pieces : List Piece
  outcome : Except PictureError Unit

namespace Encoding

/-- The longest delay and the longest side of a frame of an animation. -/
def maxAnimated : Nat := 65535

/-- The pieces of an animation, up to the first frame that is too large. -/
def animation : List Frame → Encoding
  | [] => ⟨[], .ok ()⟩
  | f :: fs =>
    if f.width ≤ maxAnimated ∧ f.height ≤ maxAnimated then
      { animation fs with
        pieces := ⟨f.rasterise, some (min f.delay.toNat maxAnimated)⟩ :: (animation fs).pieces }
    else ⟨[], .error .dimensions⟩

/-- The encoding of frames in a format.  Nothing is written if one of them has no pixels. -/
def ofFrames (format : PictureFormat) (frames : List Frame) : Encoding :=
  match frames.findIdx? Frame.isEmpty, frames with
  | some n, _ => ⟨[], .error (.empty (.frame (n + 1)))⟩
  | none, [] => ⟨[], .error (.empty .noFrames)⟩
  | none, first :: rest =>
    match format with
    | .png => ⟨[⟨first.rasterise, none⟩], .ok ()⟩
    | .gif => animation (first :: rest)

end Encoding

end MemoryDoc
