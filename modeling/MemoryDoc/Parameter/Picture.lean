/-
# Parameters of pictures

The parameters of a picture may be followed by a cropping rectangle in braces and a file name in
brackets.  A file name that follows at once leaves no room for a rectangle.

Main statement: reading them advances (`advances_read`).
-/
import MemoryDoc.Parameter.Spec
import MemoryDoc.Picture.Frame

namespace MemoryDoc.Parameter

/-- The parameters of a picture, how it is cropped, and the name of its file. -/
structure Picture where
  values : Values
  crop : Crop := {}
  fileName : Option Text
deriving DecidableEq, Repr

namespace Picture

/-- The parameters of a cropping rectangle. -/
def cropSpec : Spec where
  names := ["x".toList, "y".toList, "width".toList, "height".toList]
  defaults := [some 0, some 0, none, none]
  named := true

/-- The cropping rectangle of given parameters.  A side of zero is one that is not given. -/
def cropOf (values : Values) : Crop where
  x := values.number 0
  y := values.number 1
  width := (values.number? 2).filter (· ≠ 0)
  height := (values.number? 3).filter (· ≠ 0)

/-- Read a cropping rectangle whose opening brace is the first character, and a file name. -/
def readCrop : Reader (Crop × Option Text) := fun t =>
  match cropSpec.read t.tail with
  | .error fault => .error fault
  | .ok (values, '}' :: rest) =>
    match Reader.optionalBracketed rest with
    | .ok (fileName, rest) => .ok ((cropOf values, fileName), rest)
    | .error fault => .error fault
  | .ok (_, rest) => .error (.unclosedCrop (Text.consumed t rest))

/-- Read the parameters of a picture, which may have the characters `extra` too. -/
def read (s : Spec) (extra : Text) : Reader Picture := fun t =>
  match readString (s.accepts extra) t with
  | .error fault => .error fault
  | .ok ((params, fileName), rest) =>
    match s.get params with
    | .error fault => .error fault
    | .ok values =>
      match fileName, rest with
      | none, '{' :: _ =>
        match readCrop rest with
        | .ok ((crop, fileName), rest) => .ok (⟨values, crop, fileName⟩, rest)
        | .error fault => .error fault
      | _, _ => .ok ({ values, fileName }, rest)

/-- A crop and a name are read off the front. -/
theorem advances_readCrop : Reader.Advances readCrop := by
  intro t a left h
  unfold readCrop at h
  split at h
  · cases h
  · next hc =>
    split at h
    · next ho =>
      cases h
      exact (Reader.advances_optionalBracketed ho).trans <| (List.suffix_cons _ _).trans <|
        (cropSpec.advances_read hc).trans (List.tail_suffix t)
    · cases h
  · cases h

/-- **Reading the parameters of a picture leaves an end of the text.** -/
theorem advances_read (s : Spec) (extra : Text) : Reader.Advances (read s extra) := by
  intro t a left h
  unfold read at h
  split at h
  · cases h
  · next hs =>
    split at h
    · cases h
    · split at h
      · split at h
        · next hc => cases h; exact (advances_readCrop hc).trans (advances_readString _ hs)
        · cases h
      · cases h; exact advances_readString _ hs

end Picture

end MemoryDoc.Parameter
