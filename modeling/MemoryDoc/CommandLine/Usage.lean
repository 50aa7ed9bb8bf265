/-
# Usage

A command is named by the first argument.  Behind it stand flags, options with a value, and
positional arguments, in any order.  A flag or option has a name behind two dashes, and some have a
letter behind one dash too.  Letters of flags can be written together.  A value follows its option
as the next argument, or behind an `=`, or at once behind the letter.  After `--` all arguments are
positional.

Arguments are taken from left to right.  A value that is an argument of its own is looked at when
the next argument has been recognized, so that an argument that is not known is reported first.
-/
import MemoryDoc.Picture.File

namespace MemoryDoc.CommandLine

/-- Why arguments are refused, or answered with help. -/
inductive UsageError where
  /-- Help is asked for. -/
  | help
  | noCommand
  | unknownCommand
  /-- A positional argument is missing. -/
  | missingArgument
  /-- There is no such option, or there are too many positional arguments. -/
  | unknownArgument
  /-- An option stands without its value, or a path is empty. -/
  | noValue
  /-- A value is not of the form that its option asks for. -/
  | badValue
  /-- A flag, or an option that has one value, is given twice. -/
  | conflict
  /-- A flag is given a value. -/
  | unexpectedValue
deriving DecidableEq, Repr

/-- What can be asked for without a value. -/
inductive Flag where
  /-- Pictures are written even if they exist. -/
  | rebuild
  /-- Registers are written in lower case. -/
  | lower
  /-- Addresses are linked to by their labels. -/
  | labels
  /-- Macros make no pictures. -/
  | noPictures
deriving DecidableEq, Repr

/-- What can be set to a value. -/
inductive Setting where
  /-- The address that the memory is loaded from. -/
  | origin
  /-- The directory of the page. -/
  | cwd
  /-- The file that the page is written to. -/
  | output
  /-- The directory of the site. -/
  | outputDirectory
  | format
  /-- The place of a page or directory. -/
  | path
  /-- An address where an entry starts. -/
  | entry
deriving DecidableEq, Repr

namespace Setting

/-- The setting can be given several times. -/
def isRepeatable : Setting → Bool
  | path | entry => true
  | _ => false

/-- Check the value of a setting. -/
def check (s : Setting) (value : Text) : Except UsageError Unit :=
  match s with
  | origin => if (Numeral.address? value).isSome then .ok () else .error .badValue
  | format => if (PictureFormat.ofName? value).isSome then .ok () else .error .badValue
  | output | outputDirectory => if value = [] then .error .noValue else .ok ()
  | cwd | path | entry => .ok ()

end Setting

/-- What stands behind dashes. -/
inductive Switch where
  | help
  | flag (f : Flag)
  | setting (s : Setting)
deriving DecidableEq, Repr

/-- The arguments that a command takes. -/
structure Grammar where
  names : List (Text × Switch)
  letters : List (Char × Switch)
  /-- The number of positional arguments. -/
  positionals : Nat

namespace Grammar

/-- The arguments of a command that takes none but help. -/
def bare : Grammar where
  names := [("help".toList, .help)]
  letters := [('h', .help)]
  positionals := 0

/-- The arguments of the command that expands macros. -/
def expansion : Grammar where
  names := bare.names ++
    [("org".toList, .setting .origin),
     ("cwd".toList, .setting .cwd),
     ("output".toList, .setting .output),
     ("output-dir".toList, .setting .outputDirectory),
     ("rebuild-images".toList, .flag .rebuild),
     ("format".toList, .setting .format),
     ("lower".toList, .flag .lower),
     ("asm-labels".toList, .flag .labels),
     ("no-images".toList, .flag .noPictures),
     ("path".toList, .setting .path),
     ("entry".toList, .setting .entry)]
  letters := bare.letters ++
    [('O', .setting .output), ('d', .setting .outputDirectory), ('o', .flag .rebuild),
     ('l', .flag .lower), ('a', .flag .labels)]
  positionals := 2

end Grammar

/-! ## What has been given -/

/-- An argument that has been taken but not yet looked at. -/
inductive Pending where
  | setting (s : Setting) (value : Option Text)
  | positional (value : Text)
deriving DecidableEq, Repr

/-- What the arguments taken so far have given. -/
structure Given where
  flags : List Flag := []
  settings : List (Setting × Text) := []
  positionals : List Text := []
  pending : Option Pending := none
  /-- All further arguments are positional. -/
  trailing : Bool := false
deriving DecidableEq, Repr

namespace Given

/-- The number of positional arguments taken so far. -/
def count (g : Given) : Nat :=
  match g.pending with
  | some (.positional _) => g.positionals.length + 1
  | _ => g.positionals.length

/-- The last value of a setting. -/
def value? (g : Given) (s : Setting) : Option Text :=
  (g.settings.filter (·.1 = s)).getLast?.map (·.2)

/-- All values of a setting. -/
def values (g : Given) (s : Setting) : List Text :=
  (g.settings.filter (·.1 = s)).map (·.2)

/-- Set something to a value. -/
def assign (g : Given) (s : Setting) (value : Text) : Except UsageError Given := do
  if !s.isRepeatable && (g.value? s).isSome then
    throw .conflict
  s.check value
  return { g with settings := g.settings ++ [(s, value)] }

/-- Ask for something. -/
def raise (g : Given) (f : Flag) : Except UsageError Given :=
  if f ∈ g.flags then .error .conflict else .ok { g with flags := f :: g.flags }

/-- Look at the argument that has been taken last. -/
def settle (g : Given) : Except UsageError Given :=
  match g.pending with
  | none => .ok g
  | some (.setting _ none) => .error .noValue
  | some (.setting s (some value)) => { g with pending := none }.assign s value
  | some (.positional value) =>
    if value = [] then .error .noValue
    else .ok { g with pending := none, positionals := g.positionals ++ [value] }

/-- Take a switch, with the value that stands in the same argument. -/
def switch (g : Given) (s : Switch) (attached : Option Text) : Except UsageError Given :=
  match s, attached with
  | .setting s, some value => do (← g.settle).assign s value
  | .setting s, none => do return { ← g.settle with pending := some (.setting s none) }
  | _, some _ => .error .unexpectedValue
  | .flag f, none => do (← g.settle).raise f
  | .help, none => do
    let _ ← g.settle
    throw .help

/-- Take a positional argument. -/
def position (gr : Grammar) (g : Given) (value : Text) : Except UsageError Given :=
  if gr.positionals ≤ g.count then .error .unknownArgument
  else do return { ← g.settle with pending := some (.positional value) }

/-- Take the name of a switch, and the value behind an `=`. -/
def name (gr : Grammar) (g : Given) (argument : Text) : Except UsageError Given :=
  let (name, attached) : Text × Option Text :=
    match Text.cut '=' argument with
    | some (name, value) => (name, some value)
    | none => (argument, none)
  match gr.names.lookup name with
  | some s => g.switch s attached
  | none => .error .unknownArgument

/-- The value that stands behind the letter of a setting. -/
def attachedValue : Text → Option Text
  | [] => none
  | '=' :: value => some value
  | value => some value

/-- Take the letters of switches.  What stands behind the letter of a setting is its value. -/
def letters (gr : Grammar) (g : Given) : Text → Except UsageError Given
  | [] => .ok g
  | c :: cs =>
    match gr.letters.lookup c with
    | none => .error .unknownArgument
    | some (.setting s) => g.switch (.setting s) (attachedValue cs)
    | some s => do letters gr (← g.switch s none) cs

/-- Take an argument. -/
def take (gr : Grammar) (g : Given) (argument : Text) : Except UsageError Given :=
  match g.trailing, argument, g.pending with
  | true, _, _ => g.position gr argument
  | false, ['-', '-'], _ => .ok { g with trailing := true }
  | false, '-' :: '-' :: rest, _ => g.name gr rest
  | false, '-' :: c :: rest, _ => g.letters gr (c :: rest)
  | false, _, some (.setting s none) => .ok { g with pending := some (.setting s (some argument)) }
  | false, _, _ => g.position gr argument

end Given

/-- What all arguments of a command give. -/
def readArguments (gr : Grammar) (arguments : List Text) : Except UsageError Given := do
  let g ← arguments.foldlM (Given.take gr) {}
  let g ← g.settle
  if g.positionals.length < gr.positionals then
    throw .missingArgument
  return g

end MemoryDoc.CommandLine
