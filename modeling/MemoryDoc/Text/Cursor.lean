/-
# Cursors

A cursor is a place in a text: its distance from the start in bytes, and what can be read from
there.  Nothing can be read at a place beyond the end or inside a character.  Each reader moves a
cursor by the bytes that it consumes.
-/
import MemoryDoc.Text.Reader

namespace MemoryDoc

/-- A place in a text. -/
structure Cursor where
  /-- The distance from the start, in bytes. -/
  position : Nat
  /-- What can be read from here. -/
  rest : Text
deriving DecidableEq, Repr

namespace Cursor

/-- The place `position` bytes after the start of `input`. -/
def ofPosition (input : Text) (position : Nat) : Cursor :=
  ⟨position, (Text.dropBytes? position input).getD []⟩

/-- The place where `rest` is left to be read. -/
def moveTo (c : Cursor) (rest : Text) : Cursor :=
  ⟨c.position + Text.byteSize (Text.consumed c.rest rest), rest⟩

/-- Read with `r`; a fault leaves the cursor where it is. -/
def read {α : Type} (r : Reader α) (c : Cursor) : Except Fault α × Cursor :=
  match r c.rest with
  | .ok (a, rest) => (.ok a, c.moveTo rest)
  | .error fault => (.error fault, c)

/-- The character at the cursor. -/
def char? (c : Cursor) : Option Char :=
  c.rest.head?

/-- Move over the character at the cursor. -/
def skip (c : Cursor) : Cursor :=
  c.moveTo c.rest.tail

/-- Read a text in brackets.  A bracket that is never closed takes the cursor to the end. -/
def readBracketed (c : Cursor) : Except Fault Text × Cursor :=
  match Reader.bracketed c.rest with
  | .ok (inside, rest) => (.ok inside, c.moveTo rest)
  | .error .noText => (.error .noText, c)
  | .error fault => (.error fault, c.moveTo [])

/-- Read a text in brackets if a bracket comes next. -/
def readOptionalBracketed (c : Cursor) : Except Fault (Option Text) × Cursor :=
  if c.char? = some '(' then
    let (answer, c) := c.readBracketed
    (answer.map some, c)
  else (.ok none, c)

/-- Read an address.  A number that is no address is passed over all the same. -/
def readAddress (c : Cursor) : Except Fault (Text × UInt16) × Cursor :=
  ((c.read Reader.address).1, (c.read Reader.number).2)

end Cursor

end MemoryDoc
