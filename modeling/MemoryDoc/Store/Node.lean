/-
# Directories and files

A node is a directory, which holds other nodes under their names, or a file.  A place is the list
of the names that lead to a node.

A file holds bytes or the pieces of a picture.  A sink is a file that holds nothing, whatever is
written to it; a full sink refuses what is written to it.
-/
import MemoryDoc.Dictionary
import MemoryDoc.Picture.File

namespace MemoryDoc

/-- What is in a file. -/
inductive Contents where
  | bytes (bytes : List UInt8)
  | picture (pieces : List Piece)
deriving DecidableEq, Repr

namespace Contents

/-- The contents of an empty file. -/
def empty : Contents :=
  .bytes []

/-- There is nothing in the file. -/
def isEmpty : Contents → Bool
  | .bytes bs => bs.isEmpty
  | .picture ps => ps.isEmpty

/-- The contents with one more piece of a picture. -/
def add (contents : Contents) (piece : Piece) : Contents :=
  match contents with
  | .bytes _ => .picture [piece]
  | .picture pieces => .picture (pieces ++ [piece])

end Contents

/-- A directory or a file. -/
inductive Node where
  | directory (entries : List (Text × Node))
  | file (contents : Contents)
  | sink (full : Bool)
deriving Repr

/-- The names that lead to a node. -/
abbrev Place := List Text

namespace Node

/-- An empty directory. -/
def empty : Node :=
  .directory []

/-- The node is a directory. -/
def isDirectory : Node → Bool
  | directory _ => true
  | _ => false

/-- The node is a file that keeps what is written to it. -/
def isFile : Node → Bool
  | file _ => true
  | _ => false

/-- What is in a directory.  There is nothing in a file. -/
def entries : Node → Dictionary Node
  | directory entries => entries
  | _ => []

/-- The node at a place. -/
def at? : (n : Node) → (place : Place) → Option Node
  | n, [] => some n
  | n, name :: place =>
    match n.entries.find? name with
    | some inner => at? inner place
    | none => none

/-- Put a node at a place.  The directories that lead there are made if they are missing. -/
def put : (n : Node) → (place : Place) → (new : Node) → Node
  | _, [], new => new
  | n, name :: place, new =>
    .directory (n.entries.set name (put ((n.entries.find? name).getD empty) place new))

mutual

/-- All that is in a node, with its place.  The names that lead to the node come last first. -/
def inside (way : List Text) : (n : Node) → List (Place × Node)
  | directory entries => insideAll way entries
  | _ => []

/-- All that the entries of a directory are and hold, with its place. -/
def insideAll (way : List Text) : (entries : List (Text × Node)) → List (Place × Node)
  | [] => []
  | (name, n) :: entries =>
    ((name :: way).reverse, n) :: (inside (name :: way) n ++ insideAll way entries)

end

/-- All that is in a node, with its place.  A directory comes before what is in it. -/
def nodes (n : Node) : List (Place × Node) :=
  n.inside []

@[simp] theorem entries_directory (es : List (Text × Node)) : (directory es).entries = es := rfl

end Node

end MemoryDoc
