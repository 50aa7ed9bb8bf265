/-
# Settings of a site

Where the pages and pictures of a site are, what the pages are called, which bugs, facts and pokes
they list, and how macros are rendered.
-/
import MemoryDoc.Dictionary
import MemoryDoc.Fault
import MemoryDoc.Picture.File

namespace MemoryDoc.Site

/-- A named item on the page of bugs, of facts or of pokes. -/
structure Item where
  anchor : Text
  title : Text
deriving DecidableEq, Repr

/-- The pages that hold items. -/
inductive ItemKind where
  | bug
  | fact
  | poke
deriving DecidableEq, Repr

/-- The page of the items of a kind. -/
def ItemKind.page : ItemKind → Text
  | bug => "Bugs"
  | fact => "Facts"
  | poke => "Pokes"

/-- The names of the directories of pages and pictures. -/
def codeDirectory : Text := "CodePath"
def fontDirectory : Text := "FontImagePath"
def screenDirectory : Text := "ScreenshotImagePath"
def tileDirectory : Text := "UDGImagePath"

/-- Where pages and pictures are unless set otherwise. -/
def defaultPaths : Dictionary Text :=
  [(codeDirectory, "asm"),
   (fontDirectory, "images/font"),
   (screenDirectory, "images/scr"),
   (tileDirectory, "images/udgs"),
   ("Bugs".toList, "reference/bugs.html"),
   ("Changelog".toList, "reference/changelog.html"),
   ("DataMap".toList, "maps/data.html"),
   ("Facts".toList, "reference/facts.html"),
   ("GameIndex".toList, "index.html"),
   ("GameStatusBuffer".toList, "buffers/gbuffer.html"),
   ("Glossary".toList, "reference/glossary.html"),
   ("GraphicGlitches".toList, "graphics/glitches.html"),
   ("Graphics".toList, "graphics/graphics.html"),
   ("MemoryMap".toList, "maps/all.html"),
   ("MessagesMap".toList, "maps/messages.html"),
   ("Pokes".toList, "reference/pokes.html"),
   ("RoutinesMap".toList, "maps/routines.html"),
   ("UnusedMap".toList, "maps/unused.html")]

/-- The titles of pages unless set otherwise. -/
def defaultTitles : Dictionary Text :=
  [("Bugs".toList, "Bugs"),
   ("Changelog".toList, "Changelog"),
   ("DataMap".toList, "Data"),
   ("Facts".toList, "Trivia"),
   ("GameIndex".toList, "Index"),
   ("GameStatusBuffer".toList, "Game status buffer"),
   ("Glossary".toList, "Glossary"),
   ("GraphicGlitches".toList, "Graphic glitches"),
   ("Graphics".toList, "Graphics"),
   ("MemoryMap".toList, "Memory map"),
   ("MessagesMap".toList, "Messages"),
   ("Pokes".toList, "Pokes"),
   ("RoutinesMap".toList, "Routines"),
   ("UnusedMap".toList, "Unused addresses")]

/-- The settings of a site. -/
structure Settings where
  /-- The places of pages and directories, relative to the root. -/
  paths : Dictionary Text := defaultPaths
  titles : Dictionary Text := defaultTitles
  /-- The link texts of pages that are not linked to by their titles. -/
  links : Dictionary Text := []
  bugs : List Item := []
  facts : List Item := []
  pokes : List Item := []
  /-- The directories of the entry pages of other programs. -/
  otherCode : Dictionary Text := []
  /-- The format of pictures whose names do not tell it. -/
  format : PictureFormat := .png
  /-- Pictures are written even if they exist. -/
  replacePictures : Bool := false
  /-- Registers are written in lower case. -/
  lowerCase : Bool := false
  /-- Addresses are linked to by their labels. -/
  labels : Bool := false
  /-- Macros may make pictures. -/
  pictures : Bool := true
deriving Repr

/-- What is wrong with a setting. -/
inductive SettingError where
  /-- A path is not set in the form `name=path`. -/
  | badPath (spec : Text)
  /-- A text is not the number of an address. -/
  | badAddress (text : Text)
deriving DecidableEq, Repr

/-- The wording of the fault. -/
def SettingError.message : SettingError → Text
  | badPath spec => "Invalid path specification: " ++ Fault.quoted spec
  | badAddress text => "Invalid address: " ++ Fault.quoted text

namespace Settings

/-- The items of a kind. -/
def items (s : Settings) : ItemKind → List Item
  | .bug => s.bugs
  | .fact => s.facts
  | .poke => s.pokes

/-- The place of a page or directory. -/
def path? (s : Settings) (name : Text) : Option Text :=
  s.paths.find? name

/-- The text of a link to a page: its link text, or else its title, or else its name. -/
def linkText (s : Settings) (page : Text) : Text :=
  match (s.links.find? page).filter (· ≠ []), s.titles.find? page with
  | some text, _ => text
  | none, some title => title
  | none, none => page

/-- The directory of the entry pages of the program, or of another program. -/
def codePath? (s : Settings) : (code : Option Text) → Option Text
  | none => s.path? codeDirectory
  | some name => s.otherCode.find? name

/-- Set a path in the form `name=path`. -/
def setPath (s : Settings) (spec : Text) : Except SettingError Settings :=
  match Text.cut '=' spec with
  | some (name, path) =>
    if name = [] then .error (.badPath spec) else .ok { s with paths := s.paths.set name path }
  | none => .error (.badPath spec)

end Settings

end MemoryDoc.Site
