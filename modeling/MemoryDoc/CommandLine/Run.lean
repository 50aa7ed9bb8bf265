/-
# Running commands

A command is run on a tree of files.  It prints a text, or fails with an error that is told from
the outside in; in either case it may have changed the tree.

Main statement: the text of a job is expanded as in any session (`Job.run_eq_expand`).
-/
import MemoryDoc.CommandLine.Command
import MemoryDoc.Expansion
import MemoryDoc.Store.Directory

namespace MemoryDoc

/-- What a picture error is due to, in words. -/
def PictureError.causes : PictureError → List Text
  | unwritable _ reason => [reason]
  | refused reason => [reason]
  | dimensions => ["The Image's dimensions are either too small or too large"]
  | unsupportedFormat _ | empty _ => []

/-- The wording of a macro error, and what it is due to. -/
def MacroError.chain (e : MacroError) : List Text :=
  e.message ::
    match e with
    | picture e => e.causes
    | _ => []

/-- The wording of the error of an expansion, and what it is due to. -/
def ExpansionError.chain (e : ExpansionError) : List Text :=
  e.message ::
    match e with
    | inMacro _ _ cause => cause.chain
    | _ => []

namespace CommandLine

/-- Why a command fails. -/
inductive RunError where
  | unreadable (path reason : Text)
  | setting (e : Site.SettingError)
  | entry (e : Site.SettingError)
  | expansion (e : ExpansionError)
  /-- The expansion takes too many steps. -/
  | endless
  | unwritable (reason : Text)
deriving DecidableEq, Repr

/-- The wording of the error, and what it is due to. -/
def RunError.chain : RunError → List Text
  | unreadable path reason => ["Unable to read " ++ path, reason]
  | setting e => [e.message]
  | entry e => ["Invalid entry".toList, e.message]
  | expansion e => "Macro expansion failed".toList :: e.chain
  | endless => ["Macro expansion failed".toList, "Too many macros".toList]
  | unwritable reason => ["Unable to write file".toList, reason]

/-- The wording of the error. -/
def RunError.message (e : RunError) : Text :=
  Text.join ": " e.chain

/-- What a command prints, for its reader and about itself. -/
structure Printed where
  out : Text
  note : Text := []
deriving DecidableEq, Repr

/-! ## What is read -/

/-- The bytes of a file. -/
def readBytes (t : FileTree) (path : Text) : Except RunError (List UInt8) :=
  match t.read path with
  | .ok (.bytes bytes) => .ok bytes
  | .ok (.picture _) => .ok []
  | .error e => .error (.unreadable path e.message)

/-- The text of a file. -/
def readText (t : FileTree) (path : Text) : Except RunError Text := do
  let bytes ← readBytes t path
  match String.fromUTF8? ⟨bytes.toArray⟩ with
  | some s => return s.toList
  | none => throw (.unreadable path "stream did not contain valid UTF-8")

/-- The address that a small memory is loaded from. -/
def defaultOrigin : UInt16 := 16384

/-- The memory that holds the bytes of a file.  A file of 64K fills it. -/
def memoryOf (origin : Option UInt16) (bytes : List UInt8) : Memory :=
  Memory.ofBytes (origin.getD (if bytes.length = Memory.size then 0 else defaultOrigin)) bytes

/-- The entry of a specification `address` or `address=label`. -/
def entryOf (spec : Text) : Except Site.SettingError Site.Entry :=
  let (address, label) := (Text.cut '=' spec).getD (spec, [])
  match Numeral.address? address with
  | none => .error (.badAddress address)
  | some n =>
    let instruction : Site.Instruction :=
      { Site.Instruction.ofAddress n with label := if label = [] then none else some label }
    .ok { Site.Entry.ofAddress n .code with instructions := [instruction] }

/-- The settings of a job. -/
def Job.settings (j : Job) : Except Site.SettingError Site.Settings :=
  j.paths.foldlM Site.Settings.setPath {
    format := j.format
    replacePictures := j.rebuild
    lowerCase := j.lower
    labels := j.labels
    pictures := j.pictures }

/-- The site of a job. -/
def Job.site (j : Job) (t : FileTree) : Except RunError Site := do
  let bytes ← readBytes t j.memory
  let settings ← j.settings.mapError .setting
  let entries ← (j.entries.mapM entryOf).mapError .entry
  return ⟨settings, { memory := memoryOf j.origin bytes, entries := .ofList entries }⟩

/-! ## Expanding a file -/

/-- The most steps that an expansion may take. -/
def maxSteps : Nat := 1000000000

/-- The directory that a job writes pictures to. -/
def Job.directory (j : Job) : Store.Directory where
  root := j.outputDirectory
  replaces := j.rebuild

/-- What the macros of a job are expanded with.  There are no functions to call. -/
def Job.environment (j : Job) (site : Site) : Environment FileTree where
  site := site
  functions := []
  store := j.directory.store
  encoding := Encoding.ofFrames

/-- Print a page, or write it to a file. -/
def finish (t : FileTree) (page : Text) : (output : Option Text) →
    Except RunError Printed × FileTree
  | none => (.ok { out := page ++ "\n" }, t)
  | some path =>
    match t.write path (.bytes (String.ofList page).toUTF8.toList) with
    | .ok t => (.ok { out := [], note := "Wrote " ++ path ++ "\n" }, t)
    | .error e => (.error (.unwritable e.message), t)

/-- Expand the macros of a file. -/
def Job.run (j : Job) (t : FileTree) : Except RunError Printed × FileTree :=
  let input : Except RunError (Site × Text) := do
    let site ← j.site t
    let text ← readText t j.input
    return (site, text)
  match input with
  | .error e => (.error e, t)
  | .ok (site, text) =>
    match Session.sweep (j.environment site) j.cwd maxSteps [] text
        (Session.start site.listing.memory t) with
    | none => (.error .endless, t)
    | some (.error e, s) => (.error (.expansion e), s.files)
    | some (.ok page, s) => finish s.files page j.output

/-- **The text of a job is expanded as in any session**, in which nothing has happened yet. -/
theorem Job.run_eq_expand {j : Job} {t : FileTree} {site : Site} {text : Text}
    (hsite : j.site t = .ok site) (htext : readText t j.input = .ok text) :
    j.run t =
      match Session.expand (j.environment site) j.cwd maxSteps text
          (Session.start site.listing.memory t) with
      | none => (.error .endless, t)
      | some (.error e, s) => (.error (.expansion e), s.files)
      | some (.ok page, s) => finish s.files page j.output := by
  unfold run
  rw [hsite, htext]
  simp only [Session.sweep_nil]
  rfl

/-- All macros, a line each. -/
def macroLines : Text :=
  MacroName.all.flatMap fun m => '#' :: m.name ++ "\n"

/-- Run a command. -/
def Command.run (c : Command) (t : FileTree) : Except RunError Printed × FileTree :=
  match c with
  | .expand job => job.run t
  | .macros => (.ok { out := macroLines }, t)

end CommandLine

end MemoryDoc
