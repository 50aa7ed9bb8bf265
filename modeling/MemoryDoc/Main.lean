/-
# The program

The program runs a command on the files around it.  It is run on a tree that holds the files that
the command names.  If it would write to places that the tree does not know, they are looked up and
the command is run again, until it knows all places that it writes to.  Only then is anything
written.
-/
import MemoryDoc.CommandLine.Run
import MemoryDoc.Picture.Gif
import MemoryDoc.Picture.Png

namespace MemoryDoc.Program

open CommandLine

/-! ## Files -/

/-- The path of a place. -/
def pathOfPlace (place : Place) : String :=
  String.ofList ('/' :: Text.join "/" place)

/-- What is at a place. -/
def nodeAt (place : Place) : IO (Option Node) := do
  try
    return some (.file (.bytes (← IO.FS.readBinFile (pathOfPlace place)).toList))
  catch
    | .inappropriateType .. => return some .empty
    | _ => return none

/-- Look up a place that the tree does not know. -/
def lookUp (t : FileTree) (place : Place) : IO FileTree := do
  if (t.root.at? place).isSome then
    return t
  match ← nodeAt place with
  | some node => return { t with root := t.root.put place node }
  | none => return t

/-- Look up a place and the places that lead to it. -/
def lookUpAll (t : FileTree) (place : Place) : IO FileTree :=
  (List.range place.length).foldlM (fun t n => lookUp t (place.take (n + 1))) t

/-- The places that a path comes by. -/
def placesOn (working : Place) (path : Text) : List Place :=
  let first : Place := if path.head? = some '/' then [] else working
  ((FileTree.partsOf path).foldl (fun (place, places) part =>
    let place :=
      if Place.idle part then place
      else if part = Place.up then place.dropLast
      else place ++ [part]
    (place, place :: places)) (first, [first])).2

/-- The bytes of a file. -/
def bytesOf (place : Place) : Contents → ByteArray
  | .bytes bytes => ⟨bytes.toArray⟩
  | .picture pieces =>
    match PictureFormat.ofPath? (place.getLastD []), pieces with
    | some .png, p :: _ => Png.file p.raster
    | _, pieces => Gif.file pieces

/-- Write a directory or a file. -/
def writeNode (place : Place) : Node → IO Unit
  | .directory _ => IO.FS.createDir (pathOfPlace place)
  | .file contents => IO.FS.writeBinFile (pathOfPlace place) (bytesOf place contents)
  | .sink _ => return

/-- A place has the node already, apart from what is in it. -/
def hasNode (t : FileTree) (place : Place) (node : Node) : Bool :=
  match t.root.at? place, node with
  | some (.file old), .file new => old = new
  | some (.sink _), .sink _ => true
  | some (.directory _), .directory _ => true
  | _, _ => false

/-- What a tree has at other places or otherwise than before.  Directories come before what is in
them. -/
def changes (before after : FileTree) : List (Place × Node) :=
  after.root.nodes.filter fun (place, node) => !hasNode before place node

/-! ## Commands -/

/-- The paths that a command names. -/
def namedPaths : Command → List Text
  | .expand job => [job.memory, job.input, job.outputDirectory] ++ job.output.toList
  | .macros => []

/-- Run a command on a tree that knows all places that it writes to.  The places in `known` have
been looked up. -/
partial def runKnown (command : Command) (t : FileTree) (known : List Place) :
    IO (Except RunError Printed × FileTree × FileTree) := do
  let (result, after) := command.run t
  let unknown := ((changes t after).map (·.1)).filter (· ∉ known)
  if unknown.isEmpty then
    return (result, t, after)
  let t ← unknown.foldlM lookUpAll t
  runKnown command t (unknown ++ known)

/-- Run a command on the files around it. -/
def runCommand (command : Command) : IO (Except RunError Printed) := do
  let working := (FileTree.partsOf (← IO.currentDir).toString.toList).filter (· ≠ [])
  let t ← lookUpAll { working } working
  let t ← ((namedPaths command).flatMap (placesOn working)).foldlM lookUpAll t
  let (result, before, after) ← runKnown command t []
  for (place, node) in changes before after do
    writeNode place node
  return result

/-! ## Usage -/

/-- How the program is used. -/
def usage : String :=
  "Usage: memorydoc expand [OPTIONS] MEMORY INPUT
       memorydoc macros

Options of expand:
      --org ADDRESS         load address of the memory [default: 0 for 64K, else 16384]
      --cwd DIR             directory of the page, relative to the root of the site
  -O, --output FILE         write the page to this file
  -d, --output-dir DIR      root of the site [default: .]
  -o, --rebuild-images      write pictures even if they exist
      --format FORMAT       format of pictures: png or gif [default: png]
  -l, --lower               write registers in lower case
  -a, --asm-labels          link to addresses by their labels
      --no-images           make no pictures
      --path ID=PATH        set the place of a page or directory
      --entry ADDR[=LABEL]  declare an entry
"

/-- What is said about arguments that are refused. -/
def usageMessage : UsageError → String
  | .help => ""
  | .noCommand => "error: a command is required"
  | .unknownCommand => "error: unknown command"
  | .missingArgument => "error: a required argument is missing"
  | .unknownArgument => "error: unexpected argument"
  | .noValue => "error: a value is required"
  | .badValue => "error: invalid value"
  | .conflict => "error: an argument is given more than once"
  | .unexpectedValue => "error: unexpected value"

/-- Do what the arguments ask for. -/
def run (arguments : List Text) : IO UInt32 := do
  match Command.ofArguments arguments with
  | .error .help =>
    IO.print usage
    return 0
  | .error e =>
    IO.eprintln (usageMessage e)
    IO.eprint usage
    return 2
  | .ok command =>
    match ← runCommand command with
    | .ok printed =>
      IO.print (String.ofList printed.out)
      IO.eprint (String.ofList printed.note)
      return 0
    | .error e =>
      IO.eprintln ("Error: " ++ String.ofList e.message)
      return 1

end MemoryDoc.Program

def main (arguments : List String) : IO UInt32 :=
  MemoryDoc.Program.run (arguments.map String.toList)
