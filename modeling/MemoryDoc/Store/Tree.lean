/-
# File trees

A file tree is a root directory with all that is in it.  A path is followed part by part, from the
root if a slash is in front and from the working directory otherwise: an empty part and `.` stay,
`..` goes up, and every other part is a name in a directory.  Parts follow directories only, so a
path that ends with a slash leads to a directory.

A directory or a file is made at the last name of a path, in the directory that the parts before it
lead to.  The directories that lead to a path can be made with it; they are tried from the longest
path on, and made once one is reached whose own directory is there.

Main statement: the path of the directory that a path lies in is shorter (`length_above_lt`).
-/
import MemoryDoc.Store.Node

namespace MemoryDoc

/-- Why something cannot be done in a file tree. -/
inductive TreeError where
  | missing
  | exists
  | notDirectory
  | isDirectory
  | nameTooLong
  | noSpace
  | badName
deriving DecidableEq, Repr

/-- The wording of the fault. -/
def TreeError.message : TreeError → Text
  | missing => "No such file or directory (os error 2)"
  | .exists => "File exists (os error 17)"
  | notDirectory => "Not a directory (os error 20)"
  | isDirectory => "Is a directory (os error 21)"
  | noSpace => "No space left on device (os error 28)"
  | nameTooLong => "File name too long (os error 36)"
  | badName => "file name contained an unexpected NUL byte"

/-! ## Following paths -/

/-- The part of a path that stays. -/
def Place.here : Text := "."

/-- The part of a path that goes up. -/
def Place.up : Text := ".."

/-- The part of a path stays where it is. -/
def Place.idle (part : Text) : Bool :=
  part = [] || part = Place.here

/-- Where a path leads: a node, and the directories on the way to it with the names that were taken
in them, the last first. -/
structure Spot where
  way : List (Text × Node) := []
  node : Node
deriving Repr

namespace Spot

/-- The names that lead to the spot. -/
def place (s : Spot) : Place :=
  (s.way.map (·.1)).reverse

/-- The directory that the node is in.  The root is in itself. -/
def up (s : Spot) : Spot :=
  match s.way with
  | [] => s
  | (_, n) :: way => ⟨way, n⟩

/-- The most bytes that a name may have. -/
def maxName : Nat := 255

/-- Follow one part of a path. -/
def follow (s : Spot) (part : Text) : Except TreeError Spot :=
  if !s.node.isDirectory then .error .notDirectory
  else if Place.idle part then .ok s
  else if part = Place.up then .ok s.up
  else if maxName < Text.byteSize part then .error .nameTooLong
  else
    match s.node.entries.find? part with
    | some n => .ok ⟨(part, s.node) :: s.way, n⟩
    | none => .error .missing

end Spot

/-- A root directory, and the place of the directory that paths without a slash in front start
from. -/
structure FileTree where
  root : Node := .empty
  working : Place := []
deriving Repr

namespace FileTree

/-- The parts of a path are what is between its slashes. -/
def partsOf (path : Text) : List Text :=
  path.splitOn '/'

/-- The most bytes that a path may have. -/
def maxPath : Nat := 4095

/-- Where a path starts. -/
def start (t : FileTree) (path : Text) : Except TreeError Spot :=
  if path.contains '\x00' then .error .badName
  else if path = [] then .error .missing
  else if maxPath < Text.byteSize path then .error .nameTooLong
  else if path.head? = some '/' then .ok { node := t.root }
  else t.working.foldlM Spot.follow { node := t.root }

/-- Where a path leads. -/
def find (t : FileTree) (path : Text) : Except TreeError Spot := do
  (partsOf path).foldlM Spot.follow (← t.start path)

/-- The directory that the last part of a path is looked for in, and this part if it is a name.
Slashes at the end mean nothing. -/
def findLast (t : FileTree) (path : Text) : Except TreeError (Spot × Option Text) := do
  let s ← t.start path
  match (partsOf path).reverse.dropWhile (· = []) with
  | [] => return (s, none)
  | last :: before =>
    let s ← (before.reverse ++ [Place.here]).foldlM Spot.follow s
    return (s, if last = Place.here ∨ last = Place.up then none else some last)

/-- What a path leads to, if there is something. -/
def node? (t : FileTree) (path : Text) : Option Node :=
  (t.find path).toOption.map Spot.node

/-- The path leads to a file that keeps what is written to it. -/
def isFile (t : FileTree) (path : Text) : Bool :=
  (t.node? path).any Node.isFile

/-- The path leads to a directory. -/
def isDirectory (t : FileTree) (path : Text) : Bool :=
  (t.node? path).any Node.isDirectory

/-- The tree with another node under a name in a directory. -/
def put (t : FileTree) (s : Spot) (name : Text) (node : Node) : FileTree :=
  { t with root := t.root.put (s.place ++ [name]) node }

/-! ## Making directories -/

/-- Make one directory. -/
def makeOne (t : FileTree) (path : Text) : Except TreeError FileTree := do
  match ← t.findLast path with
  | (_, none) => throw .exists
  | (s, some name) =>
    match s.follow name with
    | .ok _ => throw .exists
    | .error .missing => return t.put s name .empty
    | .error e => throw e

/-- Make one directory unless it is there. -/
def ensureOne (t : FileTree) (path : Text) : Except TreeError Unit × FileTree :=
  match t.makeOne path with
  | .ok t => (.ok (), t)
  | .error e => if t.isDirectory path then (.ok (), t) else (.error e, t)

/-- The path of the directory that a path lies in.  Parts come last first, and parts that stay are
left out at the end of either path. -/
def above (parts : List Text) : List Text :=
  ((parts.dropWhile Place.idle).drop 1).dropWhile Place.idle

theorem length_above_lt {parts : List Text} (h : parts ≠ []) :
    (above parts).length < parts.length := by
  have h1 := (List.dropWhile_sublist Place.idle (l := parts)).length_le
  have h2 := (List.dropWhile_sublist Place.idle
    (l := (parts.dropWhile Place.idle).drop 1)).length_le
  have h3 := List.length_pos_iff.mpr h
  rw [List.length_drop] at h2
  unfold above
  omega

/-- Make a directory and those that lead to it unless they are there.  The parts of its path come
last first. -/
def ensureParts (t : FileTree) (parts : List Text) : Except TreeError Unit × FileTree :=
  if h : parts = [] then (.ok (), t)
  else
    have := length_above_lt h
    let path := Text.join "/" parts.reverse
    match t.makeOne path with
    | .error .missing =>
      match t.ensureParts (above parts) with
      | (.ok (), t) => t.ensureOne path
      | (.error e, t) => (.error e, t)
    | _ => t.ensureOne path
termination_by parts.length

/-- Make a directory and those that lead to it unless they are there. -/
def ensureDirectory (t : FileTree) (path : Text) : Except TreeError Unit × FileTree :=
  if path = [] then (.ok (), t) else t.ensureParts (partsOf path).reverse

/-- Make the directory that a path lies in, and those that lead to it, unless they are there. -/
def ensureAbove (t : FileTree) (path : Text) : Except TreeError Unit × FileTree :=
  t.ensureParts (above (partsOf path).reverse)

/-! ## Reading and writing files -/

/-- What is in the file at a path. -/
def read (t : FileTree) (path : Text) : Except TreeError Contents := do
  match (← t.find path).node with
  | .file contents => return contents
  | .sink _ => return .empty
  | .directory _ => throw .isDirectory

/-- Put contents in the file at a path, which is made if it is missing.  A file is not made at a
path that ends with a slash, nor looked for. -/
def write (t : FileTree) (path : Text) (contents : Contents) : Except TreeError FileTree := do
  match ← t.findLast path with
  | (_, none) => throw .isDirectory
  | (s, some name) =>
    if path.getLast? = some '/' then
      throw .isDirectory
    match s.follow name with
    | .error .missing => return t.put s name (.file contents)
    | .error e => throw e
    | .ok inner =>
      match inner.node with
      | .directory _ => throw .isDirectory
      | .file _ => return t.put s name (.file contents)
      | .sink full => if full && !contents.isEmpty then throw .noSpace else return t

/-- Add a piece of a picture to the file at a path. -/
def append (t : FileTree) (path : Text) (piece : Piece) : Except TreeError FileTree := do
  let contents ← t.read path
  t.write path (contents.add piece)

end FileTree

end MemoryDoc
