/-
# Markup

The elements that macros turn into: links, pictures, registers, lists and tables.
-/
import MemoryDoc.Text.Blank
import MemoryDoc.Text.Numeral

namespace MemoryDoc.Site

/-- A cell of a table. -/
structure Cell where
  contents : Text := []
  header : Bool := false
  transparent : Bool := false
  colspan : Nat := 1
  rowspan : Nat := 1
  /-- The class of the column in which the cell starts. -/
  cls : Text := []
deriving DecidableEq, Repr

/-- A table, row by row. -/
structure Table where
  cls : Text
  rows : List (List Cell)
deriving DecidableEq, Repr

namespace Markup

/-- An attribute with a value. -/
def attr (name value : Text) : Text :=
  " " ++ name ++ "=\"" ++ value ++ "\""

/-- The attribute for a class, if there is one. -/
def classAttr (cls : Text) : Text :=
  if cls = [] then [] else attr "class" cls

def link (href text : Text) : Text :=
  "<a" ++ attr "href" href ++ ">" ++ text ++ "</a>"

def picture (alt source : Text) : Text :=
  "<img" ++ attr "alt" alt ++ attr "src" source ++ " />"

def register (name : Text) : Text :=
  "<span class=\"register\">" ++ name ++ "</span>"

/-- The attribute for the number of rows or columns that a cell spans, if it is more than one. -/
def spanAttr (name : Text) (n : Nat) : Text :=
  if 1 < n then attr name (Numeral.decimal n) else []

/-- The classes of a cell.  Header cells have none. -/
def cellClass (c : Cell) : Text :=
  if c.header then []
  else Text.trimFront Text.isBlank (c.cls ++ if c.transparent then " transparent".toList else [])

def cell (c : Cell) : Text :=
  let tag : Text := if c.header then "th" else "td"
  "<" ++ tag ++ classAttr (cellClass c) ++ spanAttr "colspan" c.colspan
    ++ spanAttr "rowspan" c.rowspan ++ ">" ++ c.contents ++ "</" ++ tag ++ ">"

/-- The lines of a row. -/
def rowLines (cells : List Cell) : List Text :=
  ["<tr>".toList] ++ cells.map cell ++ ["</tr>".toList]

def table (t : Table) : Text :=
  Text.join "\n" <|
    ["<table" ++ classAttr t.cls ++ ">"] ++ t.rows.flatMap rowLines ++ ["</table>".toList]

def list (cls : Text) (items : List Text) : Text :=
  Text.join "\n" <|
    ["<ul" ++ classAttr cls ++ ">"] ++ items.map (fun item : Text => "<li>" ++ item ++ "</li>")
      ++ ["</ul>".toList]

end Markup

end MemoryDoc.Site
