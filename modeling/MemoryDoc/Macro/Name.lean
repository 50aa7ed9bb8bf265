/-
# Names of macros

A macro is written as a `#` and its name in capital letters.  Most macros turn into text and do
nothing else, four make pictures, and three change the memory.
-/
import MemoryDoc.Text.Basic

namespace MemoryDoc

/-- The macros that turn into text and do nothing else. -/
inductive TextMacro where
  | bug | call | chr | d | erefs | fact | html | link | list | poke | r | refs | reg | space | table
  | udgtable
deriving DecidableEq, Repr

/-- The macros that make pictures. -/
inductive PictureMacro where
  | font | scr | udg | udgarray
deriving DecidableEq, Repr

/-- All macros. -/
inductive MacroName where
  | text (m : TextMacro)
  | picture (m : PictureMacro)
  | pokes
  | pops
  | pushs
deriving DecidableEq, Repr

namespace MacroName

/-- The name of a macro. -/
def name : MacroName → Text
  | text .bug => "BUG"
  | text .call => "CALL"
  | text .chr => "CHR"
  | text .d => "D"
  | text .erefs => "EREFS"
  | text .fact => "FACT"
  | text .html => "HTML"
  | text .link => "LINK"
  | text .list => "LIST"
  | text .poke => "POKE"
  | text .r => "R"
  | text .refs => "REFS"
  | text .reg => "REG"
  | text .space => "SPACE"
  | text .table => "TABLE"
  | text .udgtable => "UDGTABLE"
  | picture .font => "FONT"
  | picture .scr => "SCR"
  | picture .udg => "UDG"
  | picture .udgarray => "UDGARRAY"
  | pokes => "POKES"
  | pops => "POPS"
  | pushs => "PUSHS"

/-- All macros, in the order of their names. -/
def all : List MacroName :=
  [text .bug, text .call, text .chr, text .d, text .erefs, text .fact, picture .font, text .html,
   text .link, text .list, text .poke, pokes, pops, pushs, text .r, text .refs, text .reg,
   picture .scr, text .space, text .table, picture .udg, picture .udgarray, text .udgtable]

/-- The macro of a name. -/
def ofName? (t : Text) : Option MacroName :=
  all.find? (·.name = t)

/-- The macro makes a picture. -/
def isPicture : MacroName → Bool
  | picture _ => true
  | _ => false

/-- Every macro is among all macros, and found by its name. -/
theorem ofName?_name (m : MacroName) : ofName? m.name = some m := by
  cases m with
  | text m => cases m <;> decide
  | picture m => cases m <;> decide
  | _ => decide

end MacroName

end MemoryDoc
