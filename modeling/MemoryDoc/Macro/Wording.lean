/-
# Macros that turn into text

The handlers of the macros that turn into text and do nothing else: links to pages, items and
addresses, lists of routines, descriptions, characters, registers, calls, lists and tables.
-/
import MemoryDoc.Macro.Error
import MemoryDoc.Macro.Name
import MemoryDoc.Macro.TableText
import MemoryDoc.Text.Letter

namespace MemoryDoc

/-- A function that a macro can call: it is given the directory of the page and the arguments. -/
abbrev Callable := Text → List Text → Text

/-- A page of a site that is being written. -/
structure Page where
  site : Site
  functions : Dictionary Callable
  /-- The directory of the page. -/
  cwd : Text

namespace Wording

open Reader (accept readWhile optionalBracketed bracketed number address rest)
open Site (ItemKind)

/-! ## Links -/

/-- `#name` where a macro may name an anchor.  The text is empty if it names none. -/
def anchor : Reader Text := do
  if ← accept '#' then
    return '#' :: (← readWhile Text.isNameChar)
  else
    return []

/-- `[#item][(text)]` -/
def item (p : Page) (kind : ItemKind) : Handler Text := do
  let anchor ← anchor
  let text ← optionalBracketed
  Handler.ofLink (p.site.itemLink p.cwd kind anchor.tail (text.getD []))

/-- A character that the name of a page may be written with. -/
def isPageChar (c : Char) : Bool :=
  !Text.isBlank c && c != '(' && c != '#'

/-- `:page[#anchor](text)` -/
def page (p : Page) : Handler Text := do
  let start ← rest
  let colon ← accept ':'
  let page ← readWhile fun c => colon && isPageChar c
  if page = [] then
    throw (.fault (.noPage (Text.consumed start (← rest))))
  let anchor ← anchor
  match ← optionalBracketed with
  | none => throw (.fault (.noLinkText (Text.consumed start (← rest))))
  | some text => Handler.ofLink (p.site.pageLink p.cwd page anchor text)

/-- `@code` where a macro may name another program. -/
def code : Reader (Option Text) := do
  if ← accept '@' then
    return some (← readWhile Text.isNameChar)
  else
    return none

/-- `address[@code][#anchor][(text)]` -/
def routine (p : Page) : Handler Text := do
  let (written, address) ← address
  let code ← code
  let anchor ← anchor
  let text ← optionalBracketed
  Handler.ofLink (p.site.addressLink p.cwd written address code anchor (text.getD []))

/-! ## Routines that refer to an address -/

/-- The macro that links to an address. -/
def routineMarker (address : UInt16) : Text :=
  "#R" ++ Numeral.decimal address.toNat

/-- One or more routines in words. -/
def routines (addresses : List UInt16) : Text :=
  match (addresses.map routineMarker).reverse with
  | [] => []
  | [only] => "routine at " ++ only
  | last :: before => "routines at " ++ Text.join ", " before.reverse ++ " and " ++ last

/-- What is written where nothing refers to an entry. -/
def noRoutines : Text := "Not used directly by any other routines"

/-- `address[(text)]` -/
def referrers (p : Page) : Handler Text := do
  let (written, address) ← address
  let text ← optionalBracketed
  let refs ← Handler.ofLink (p.site.referrers written address)
  if refs = [] then
    return noRoutines
  else
    return Text.trimFront Text.isBlank (text.getD [] ++ " " ++ routines refs)

/-- `address` -/
def entryPointReferrers (p : Page) : Handler Text := do
  let (written, address) ← address
  let refs ← Handler.ofLink (p.site.entryPointReferrers written address)
  return routines refs

/-- `address` -/
def description (p : Page) : Handler Text := do
  let (written, address) ← address
  Handler.ofLink (p.site.description written address)

/-! ## Characters, registers and calls -/

/-- The digits of a number, or a text in brackets without the blanks at its ends. -/
def numberText : Reader Text := do
  match ← rest with
  | '(' :: _ => return TableText.trimmed (← bracketed)
  | _ => number

/-- A number, or a number in brackets, if there is one. -/
def numberArgument : Reader (Option UInt32) := do
  let raw ← numberText
  if raw = [] then
    return none
  match Numeral.parse? raw with
  | some n => return some n
  | none => throw (.badNumber raw)

/-- The entity of a character. -/
def entity (n : UInt32) : Text :=
  "&#" ++ Numeral.decimal n.toNat ++ ";"

/-- `number` -/
def character : Handler Text := do
  match ← numberArgument with
  | some n => return entity n
  | none => throw (.fault .noNumber)

/-- `[number]` -/
def spaces : Handler Text := do
  let n := (← numberArgument).getD 1
  return (List.replicate n.toNat (entity 160)).flatten

/-- `(text)` -/
def html : Handler Text :=
  bracketed

/-- The registers that a macro can name. -/
def registers : List Text :=
  ["a".toList, "b".toList, "c".toList, "d".toList, "e".toList, "f".toList, "h".toList, "l".toList,
   "i".toList, "r".toList, "af".toList, "bc".toList, "de".toList, "hl".toList, "sp".toList,
   "pc".toList, "ix".toList, "iy".toList, "ixh".toList, "ixl".toList, "iyh".toList, "iyl".toList,
   "a'".toList, "b'".toList, "c'".toList, "d'".toList, "e'".toList, "f'".toList, "h'".toList,
   "l'".toList, "af'".toList, "bc'".toList, "de'".toList, "hl'".toList]

/-- The characters that registers are written with. -/
def registerChars : Text := "abcdefhilprsxy'"

/-- `register` -/
def register (p : Page) : Handler Text := do
  let name ← readWhile registerChars.contains
  if name = [] then
    throw (.fault .noRegister)
  if !registers.contains name then
    throw (.fault (.badRegister name))
  return Site.Markup.register (if p.site.settings.lowerCase then name else name.map Char.toUpper)

/-- `:function(arguments)` -/
def call (p : Page) : Handler Text := do
  if !(← accept ':') then
    throw (.fault .noFunction)
  let name ← readWhile Text.isWordChar
  match ← optionalBracketed with
  | none => throw (.fault (.noArguments name))
  | some args =>
    match p.functions.find? name with
    | none => throw (.fault (.unknownFunction name))
    | some f => return f p.cwd (if args = [] then [] else args.splitOn ',')

/-! ## Lists and tables -/

/-- Turn the text up to a closing word into something else. -/
def block (word kind : Text) (f : Text → Except Fault Text) : Handler Text := fun t =>
  match Text.cutWord word t with
  | none => .error (.fault (.noTerminator kind))
  | some (body, rest) =>
    match f body with
    | .ok markup => .ok (markup, rest)
    | .error fault => .error (.fault fault)

/-- `[(class,...)] rows` -/
def tableMarkup (body : Text) : Except Fault Text := do
  let (classes, rows) ← optionalBracketed body
  let classes := ((classes.getD []).splitOn ',').map TableText.trimmed
  let table ← TableText.tableOf rows (classes.headD []) classes.tail
  return Site.Markup.table table

/-- `[(class)] items` -/
def listMarkup (body : Text) : Except Fault Text := do
  let (cls, items) ← optionalBracketed body
  return Site.Markup.list (TableText.trimmed (cls.getD [])) (TableText.blocks items)

end Wording

/-- The handler of a macro. -/
def TextMacro.handler (p : Page) : TextMacro → Handler Text
  | .bug => Wording.item p .bug
  | .fact => Wording.item p .fact
  | .poke => Wording.item p .poke
  | .link => Wording.page p
  | .r => Wording.routine p
  | .refs => Wording.referrers p
  | .erefs => Wording.entryPointReferrers p
  | .d => Wording.description p
  | .chr => Wording.character
  | .space => Wording.spaces
  | .html => Wording.html
  | .reg => Wording.register p
  | .call => Wording.call p
  | .list => Wording.block "LIST#" "list" Wording.listMarkup
  | .table | .udgtable => Wording.block "TABLE#" "table" Wording.tableMarkup

end MemoryDoc
