/-
# Stores in file trees

The files of a store may be those below a directory of a file tree.  Opening a file makes the
directories that lead to it.
-/
import MemoryDoc.Store.Basic
import MemoryDoc.Store.Tree

namespace MemoryDoc.Store

/-- A directory of a file tree that is used as a store. -/
structure Directory where
  /-- The path of the directory. -/
  root : Text
  replaces : Bool := false
deriving DecidableEq, Repr

namespace Directory

/-- The path in the tree of a path in the store.  Slashes that follow each other are one. -/
def pathOf (d : Directory) (path : Text) : Text :=
  match (FileTree.partsOf path).filter (· ≠ []) with
  | [] => d.root
  | parts =>
    let slash := if d.root = [] ∨ d.root.getLast? = some '/' then [] else ['/']
    d.root ++ slash ++ Text.join "/" parts

/-- Do something with a tree that may fail, in which case the tree stays as it is. -/
def attempt (t : FileTree) (result : Except TreeError FileTree) : Except Text Unit × FileTree :=
  match result with
  | .ok t => (.ok (), t)
  | .error e => (.error e.message, t)

/-- Open a file, which becomes empty.  The directories that lead to it are made. -/
def openPath (d : Directory) (t : FileTree) (path : Text) : Except Text Unit × FileTree :=
  match t.ensureAbove (d.pathOf path) with
  | (.error e, t) => (.error e.message, t)
  | (.ok (), t) => attempt t (t.write (d.pathOf path) .empty)

/-- The store in a file tree. -/
def store (d : Directory) : Store FileTree where
  replaces := d.replaces
  has t path := t.isFile (d.pathOf path)
  openFile := d.openPath
  write t path piece := attempt t (t.append (d.pathOf path) piece)
  flush t _ := (.ok (), t)

end Directory

end MemoryDoc.Store
