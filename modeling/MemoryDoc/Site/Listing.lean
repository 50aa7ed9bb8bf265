/-
# Listings

A listing annotates the program in a memory: entries for its routines and data, in the order of
their addresses, each with its instructions.  An instruction may have a label and may refer to an
address.  A listing may know the entries of other programs too.
-/
import MemoryDoc.Dictionary
import MemoryDoc.Memory.Basic
import MemoryDoc.Text.Numeral

namespace MemoryDoc.Site

/-- An instruction, or a piece of data. -/
structure Instruction where
  address : UInt16
  /-- The address as the listing writes it. -/
  written : Text
  label : Option Text := none
  /-- The address that the instruction refers to. -/
  reference : Option UInt16 := none
deriving DecidableEq, Repr

/-- An instruction whose address is written in decimal. -/
def Instruction.ofAddress (address : UInt16) : Instruction where
  address := address
  written := Numeral.decimal address.toNat

/-- What an entry holds. -/
inductive EntryKind where
  | code
  | data
  | text
  | unused
  | gameStatus
deriving DecidableEq, Repr

namespace EntryKind

/-- The letter that stands for a kind. -/
def letter : EntryKind → Char
  | code => 'c'
  | data => 'b'
  | text => 't'
  | unused => 'u'
  | gameStatus => 'g'

/-- The kind that a letter stands for. -/
def ofLetter? : Text → Option EntryKind
  | ['c'] => some code
  | ['b'] => some data
  | ['t'] => some text
  | ['u'] => some unused
  | ['g'] => some gameStatus
  | _ => none

end EntryKind

/-- A routine or a block of data. -/
structure Entry where
  address : UInt16
  kind : EntryKind
  /-- The paragraphs of its description. -/
  description : List Text := []
  instructions : List Instruction
deriving DecidableEq, Repr

namespace Entry

/-- An entry that holds one instruction, at its own address. -/
def ofAddress (address : UInt16) (kind : EntryKind) : Entry where
  address := address
  kind := kind
  instructions := [Instruction.ofAddress address]

/-- The first instruction at an address. -/
def instruction? (e : Entry) (address : UInt16) : Option Instruction :=
  e.instructions.find? (·.address = address)

/-- The entry has an instruction at an address. -/
def contains (e : Entry) (address : UInt16) : Bool :=
  e.instructions.any (·.address = address)

/-- The entry has an instruction that refers to an address of class `p`. -/
def refersTo (e : Entry) (p : UInt16 → Bool) : Bool :=
  e.instructions.any fun i => i.reference.any p

end Entry

/-- Entries in the order of their addresses. -/
abbrev Entries := List Entry

namespace Entries

/-- Add an entry before all that do not have a smaller address. -/
def add (es : Entries) (e : Entry) : Entries :=
  es.takeWhile (·.address < e.address) ++ e :: es.dropWhile (·.address < e.address)

/-- The entries of a list, added one after the other. -/
def ofList (es : List Entry) : Entries :=
  es.foldl add []

/-- The first entry that starts at an address. -/
def at? (es : Entries) (address : UInt16) : Option Entry :=
  es.find? (·.address = address)

/-- The first entry that has an instruction at an address. -/
def container? (es : Entries) (address : UInt16) : Option Entry :=
  es.find? (·.contains address)

/-- The first instruction at an address. -/
def instruction? (es : Entries) (address : UInt16) : Option Instruction :=
  es.findSome? (·.instruction? address)

/-- The addresses of the entries with an instruction that refers to an address. -/
def refersTo (es : Entries) (address : UInt16) : List UInt16 :=
  (es.filter (·.refersTo (· = address))).map (·.address)

/-- The addresses of the other entries that refer to an instruction of the entry at an address. -/
def referrers (es : Entries) (address : UInt16) : List UInt16 :=
  match es.at? address with
  | none => []
  | some entry =>
    (es.filter fun e => e.address ≠ address && e.refersTo entry.contains).map (·.address)

end Entries

/-- The annotated program in a memory. -/
structure Listing where
  memory : Memory
  entries : Entries := []
  /-- The entries of other programs, by name. -/
  others : Dictionary Entries := []

namespace Listing

/-- The entries of the program, or of another program. -/
def code? (l : Listing) : (code : Option Text) → Option Entries
  | none => some l.entries
  | some name => l.others.find? name

/-- The entry of a program that has an instruction at an address. -/
def container? (l : Listing) (address : UInt16) (code : Option Text) : Option Entry :=
  (l.code? code).bind (·.container? address)

/-- The label of the instruction at an address. -/
def label? (l : Listing) (address : UInt16) : Option Text :=
  (l.entries.instruction? address).bind (·.label)

/-- The address of an instruction of a program, as the listing writes it. -/
def written? (l : Listing) (address : UInt16) (code : Option Text) : Option Text :=
  (l.code? code).bind fun es => (es.instruction? address).map (·.written)

end Listing

end MemoryDoc.Site
