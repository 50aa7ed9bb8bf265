/-
# Commands

There are two commands.  One expands the macros in a text file that documents a file of memory, the
other lists the macros.
-/
import MemoryDoc.CommandLine.Usage
import MemoryDoc.Site.Settings

namespace MemoryDoc.CommandLine

/-- What the expansion of a file is given. -/
structure Job where
  /-- The file of memory. -/
  memory : Text
  /-- The file with macros. -/
  input : Text
  origin : Option UInt16 := none
  cwd : Text := []
  output : Option Text := none
  outputDirectory : Text := "."
  format : PictureFormat := .png
  rebuild : Bool := false
  lower : Bool := false
  labels : Bool := false
  pictures : Bool := true
  /-- The places of pages and directories, in the form `name=path`. -/
  paths : List Text := []
  /-- The addresses where entries start, in the form `address` or `address=label`. -/
  entries : List Text := []
deriving DecidableEq, Repr

/-- What can be asked for on the command line. -/
inductive Command where
  | expand (job : Job)
  | macros
deriving DecidableEq, Repr

/-- The job that arguments give. -/
def Job.ofGiven (g : Given) : Job where
  memory := g.positionals.getD 0 []
  input := g.positionals.getD 1 []
  origin := (g.value? .origin).bind Numeral.address?
  cwd := (g.value? .cwd).getD []
  output := g.value? .output
  outputDirectory := (g.value? .outputDirectory).getD "."
  format := ((g.value? .format).bind PictureFormat.ofName?).getD .png
  rebuild := Flag.rebuild ∈ g.flags
  lower := Flag.lower ∈ g.flags
  labels := Flag.labels ∈ g.flags
  pictures := Flag.noPictures ∉ g.flags
  paths := g.values .path
  entries := g.values .entry

/-- The commands, and the one that asks for help. -/
inductive CommandName where
  | expand
  | macros
  | help
deriving DecidableEq, Repr

/-- The command of a name or an alias. -/
def CommandName.ofText? (t : Text) : Option CommandName :=
  if t ∈ ["expand".toList, "e".toList, "x".toList] then some .expand
  else if t ∈ ["macros".toList, "m".toList] then some .macros
  else if t = "help".toList then some .help
  else none

/-- The command that arguments ask for where no command has been named yet. -/
def Command.ofFirst (argument : Text) (arguments : List Text) : Except UsageError Command :=
  match CommandName.ofText? argument with
  | some .expand => do return .expand (.ofGiven (← readArguments .expansion arguments))
  | some .macros => do
    let _ ← readArguments .bare arguments
    return .macros
  | some .help =>
    match arguments with
    | [] => .error .help
    | [a] => if (CommandName.ofText? a).isSome then .error .help else .error .unknownCommand
    | _ => .error .unknownCommand
  | none =>
    match argument with
    | '-' :: _ :: _ => do
      let _ ← Given.take .bare {} argument
      throw .noCommand
    | _ => .error .unknownCommand

/-- The command that arguments ask for. -/
def Command.ofArguments : List Text → Except UsageError Command
  | [] => .error .noCommand
  | ['-', '-'] :: [] => .error .noCommand
  | ['-', '-'] :: argument :: _ =>
    if (CommandName.ofText? argument).isSome then .error .unknownArgument
    else .error .unknownCommand
  | argument :: arguments => Command.ofFirst argument arguments

end MemoryDoc.CommandLine
