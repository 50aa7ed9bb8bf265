/-
# Links

Links lead from a page to other pages, to items on them, to the entry that has an instruction at an
address, and to pictures.  Their paths are relative to the directory of the page.
-/
import MemoryDoc.Site.Listing
import MemoryDoc.Site.Markup
import MemoryDoc.Site.Path
import MemoryDoc.Site.Settings

namespace MemoryDoc

namespace Site

/-- Why a link cannot be made. -/
inductive LinkError where
  | unknownPage (page : Text)
  /-- A picture file belongs in a directory that is not set. -/
  | unknownDirectory (directory fileName : Text)
  | unknownCode (code : Text)
  /-- No entry has an instruction at an address. -/
  | noContainer (written : Text)
  | unknownItem (anchor : Text)
  | noEntry (written : Text)
  | noDescription (written : Text)
  | noReferrers (written : Text)
deriving DecidableEq, Repr

/-- The wording of the fault. -/
def LinkError.message : LinkError → Text
  | unknownPage page => "Unknown page ID: " ++ page
  | unknownDirectory directory fileName =>
    "Unknown path ID " ++ Fault.quoted directory ++ " for image file " ++ Fault.quoted fileName
  | unknownCode code => "Could not find code path for " ++ Fault.quoted code ++ " disassembly"
  | noContainer written => "Could not find routine file containing " ++ written
  | unknownItem anchor => "Cannot determine title of item " ++ Fault.quoted anchor
  | noEntry written => "Cannot determine description for nonexistent entry at " ++ written
  | noDescription written => "Entry at " ++ written ++ " has no description"
  | noReferrers written => "Entry point at " ++ written ++ " has no referrers"

end Site

/-- A site: its settings and the listing that it shows. -/
structure Site where
  settings : Site.Settings
  /-- The disassembly of the program.  A listing is the one kind of it that there is, so whatever is
  asked of a disassembly is answered as listings answer it. -/
  listing : Site.Listing

namespace Site

/-- `text`, or `default` if it is empty. -/
def orElse (text default : Text) : Text :=
  if text = [] then default else text

/-- The path of a page from a directory. -/
def pagePath (s : Site) (cwd page : Text) : Except LinkError Text :=
  match s.settings.path? page with
  | some path => .ok (Path.relative cwd path)
  | none => .error (.unknownPage page)

/-- A link to a page.  The anchor is written with its `#`. -/
def pageLink (s : Site) (cwd page anchor text : Text) : Except LinkError Text := do
  let path ← s.pagePath cwd page
  return Markup.link (path ++ anchor) (orElse text (s.settings.linkText page))

/-- The text of a link to an item, or to the page of the items if no item is named. -/
def itemText (s : Site) (kind : ItemKind) (item text : Text) : Except LinkError Text :=
  if text ≠ [] then .ok text
  else if item = [] then .ok (s.settings.linkText kind.page)
  else
    match (s.settings.items kind).find? (·.anchor = item) with
    | some i => .ok i.title
    | none => .error (.unknownItem item)

/-- A link to an item, or to the page of the items if no item is named. -/
def itemLink (s : Site) (cwd : Text) (kind : ItemKind) (item text : Text) :
    Except LinkError Text := do
  let text ← s.itemText kind item text
  let path ← s.pagePath cwd kind.page
  return Markup.link (path ++ if item = [] then [] else '#' :: item) text

/-- The directory of the entry pages of a program. -/
def codePath (s : Site) (code : Option Text) : Except LinkError Text :=
  match code, s.settings.codePath? code with
  | _, some path => .ok path
  | some name, none => .error (.unknownCode name)
  | none, none => .ok []

/-- The address of the entry with an instruction at an address.  An address of another program may
lie in no entry that is known. -/
def containerAddress (s : Site) (written : Text) (address : UInt16) (code : Option Text) :
    Except LinkError UInt16 :=
  match s.listing.container? address code, code with
  | some entry, _ => .ok entry.address
  | none, some _ => .ok address
  | none, none => .error (.noContainer written)

/-- The text of a link to an address for which none is given. -/
def addressText (s : Site) (written : Text) (address : UInt16) (code : Option Text) : Text :=
  let label? := if s.settings.labels then s.listing.label? address else none
  match label?, s.listing.written? address code with
  | some label, _ => label
  | none, some written => written
  | none, none => written

/-- A link to the instruction at an address.  Within an entry its address is the anchor. -/
def addressLink (s : Site) (cwd written : Text) (address : UInt16) (code : Option Text)
    (anchor text : Text) : Except LinkError Text := do
  let codePath ← s.codePath code
  let entry ← s.containerAddress written address code
  let anchor := if address = entry then anchor else '#' :: Numeral.decimal address.toNat
  let path := Path.relative cwd (Path.entryPage entry codePath)
  return Markup.link (path ++ anchor) (orElse text (s.addressText written address code))

/-- The path of a picture file from the root.  A name that starts with a slash is taken from the
root, any other from a directory. -/
def picturePath (s : Site) (fileName directory : Text) : Except LinkError (Option Text) :=
  match fileName, s.settings.path? directory with
  | [], _ => .ok none
  | '/' :: rooted, _ => .ok (some (s.settings.format.withSuffix rooted))
  | _, some path => .ok (some (Path.join [path, s.settings.format.withSuffix fileName]))
  | _, none => .error (.unknownDirectory directory fileName)

/-- The name of a picture file without its directory and its suffix. -/
def pictureName (path : Text) : Text :=
  let base := (path.reverse.takeWhile (· ≠ '/')).reverse
  if Text.byteSize base < 4 then []
  else
    match Text.dropBytes? 4 base.reverse with
    | some name => name.reverse
    | none => base

/-- The element that shows a picture. -/
def pictureElement (cwd path : Text) : Text :=
  Markup.picture (pictureName path) (Path.relative cwd path)

/-- The first paragraph of the description of the entry at an address. -/
def description (s : Site) (written : Text) (address : UInt16) : Except LinkError Text :=
  match s.listing.entries.at? address with
  | none => .error (.noEntry written)
  | some entry =>
    match entry.description with
    | [] => .error (.noDescription written)
    | first :: _ => .ok first

/-- The addresses of the entries that refer to an address, in ascending order. -/
def entryPointReferrers (s : Site) (written : Text) (address : UInt16) :
    Except LinkError (List UInt16) :=
  match s.listing.entries.refersTo address with
  | [] => .error (.noReferrers written)
  | refs => .ok (refs.mergeSort (· ≤ ·))

/-- The addresses of the other entries that refer to the entry at an address, in ascending order. -/
def referrers (s : Site) (written : Text) (address : UInt16) : Except LinkError (List UInt16) :=
  match s.listing.entries.at? address with
  | none => .error (.noEntry written)
  | some _ => .ok ((s.listing.entries.referrers address).mergeSort (· ≤ ·))

end Site

end MemoryDoc
