/-
# Parameters

A macro declares its parameters: their names in order, and the defaults of those at the end that
may be left out.  Parameters are given as tokens between commas.  A token is the value of the next
parameter in order or, where the macro allows it, `name=value`.  An empty value stands for the
default, and the last value that is given for a parameter counts.

Main statement: what reading parameters leaves is an end of the text (`advances_read`).
-/
import MemoryDoc.Text.Reader
import MemoryDoc.Text.Cursor

namespace MemoryDoc.Parameter

/-- The value of a parameter. -/
inductive Value where
  | number (n : UInt32)
  | text (t : Text)
  /-- The parameter was left out and has no default. -/
  | unset
deriving DecidableEq, Repr

/-- The parameters that a macro declares. -/
structure Spec where
  names : List Text
  /-- The defaults of the parameters at the end. -/
  defaults : List (Option UInt32)
  /-- The places of the parameters that are kept as texts. -/
  texts : List Nat := []
  /-- Parameters may be given by name. -/
  named : Bool := false
deriving DecidableEq, Repr

/-- The values of the declared parameters, in order. -/
abbrev Values := List Value

namespace Values

/-- The number at a place, if there is one. -/
def number? (vs : Values) (slot : Nat) : Option UInt32 :=
  match vs[slot]? with
  | some (.number n) => some n
  | _ => none

/-- The number at a place, or zero. -/
def number (vs : Values) (slot : Nat) : UInt32 :=
  (vs.number? slot).getD 0

/-- The text at a place, or the empty text. -/
def text (vs : Values) (slot : Nat) : Text :=
  match vs[slot]? with
  | some (.text t) => t
  | _ => []

end Values

/-- The tokens of a parameter string. -/
def tokens (params : Text) : List Text :=
  if params.isEmpty then [] else params.splitOn ','

/-- What the tokens read so far have given. -/
structure Given where
  /-- The number of tokens without a name. -/
  positional : Nat
  /-- The last value given for each parameter. -/
  values : List (Option Value)
deriving DecidableEq, Repr

namespace Spec

/-- The number of parameters that have no default. -/
def required (s : Spec) : Nat :=
  s.names.length - s.defaults.length

/-- The place that a token addresses, its value, and the number of positional tokens up to it. -/
def address (s : Spec) (positional : Nat) (token : Text) : Except Fault (Nat × Text × Nat) :=
  match s.named, Text.cut '=' token with
  | true, some (name, raw) =>
    match s.names.findIdx? (· = name) with
    | some slot => .ok (slot, raw, positional)
    | none => .error (.unknownKeyword name)
  | _, _ => .ok (positional, token, positional + 1)

/-- The value that a text gives to the parameter at a place. -/
def value (s : Spec) (params : Text) (slot : Nat) (raw : Text) : Except Fault Value :=
  if slot ∈ s.texts then .ok (.text raw)
  else
    match Numeral.parse? raw with
    | some n => .ok (.number n)
    | none => .error (.badParameter raw params)

/-- Take one token. -/
def take (s : Spec) (params : Text) (given : Given) (token : Text) : Except Fault Given := do
  let (slot, raw, positional) ← s.address given.positional token
  if s.names.length ≤ slot then
    throw (.tooManyParameters s.names.length params)
  if raw.isEmpty then
    return { given with positional }
  let v ← s.value params slot raw
  return ⟨positional, given.values.set slot (some v)⟩

/-- The value of a parameter of which nothing is known but its default. -/
def fallback (s : Spec) (params : Text) (slot : Nat) : Except Fault Value :=
  if s.required ≤ slot then
    match (s.defaults[slot - s.required]?).join with
    | some n => .ok (.number n)
    | none => .ok .unset
  else if s.named then .error (.missingParameter (s.names.getD slot []) params)
  else .error (.tooFewParameters s.required params)

/-- The value of a parameter: what was given, or else its default. -/
def complete (s : Spec) (params : Text) : Option Value × Nat → Except Fault Value
  | (some v, _) => .ok v
  | (none, slot) => s.fallback params slot

/-- The values that a parameter string gives to the declared parameters. -/
def get (s : Spec) (params : Text) : Except Fault Values := do
  let given ← (tokens params).foldlM (s.take params) ⟨0, s.names.map fun _ => none⟩
  given.values.zipIdx.mapM (s.complete params)

/-! ## Reading parameters -/

/-- The characters of numbers and of the commas between them. -/
def numberChars : Text := "$0123456789abcdefABCDEF,"

/-- The further characters that names are written with. -/
def nameChars : Text := "ghijklmnopqrstuvwxyz="

/-- The characters that a parameter string may be made of, besides `extra`. -/
def accepts (s : Spec) (extra : Text) (c : Char) : Bool :=
  numberChars.contains c || extra.contains c || (s.named && nameChars.contains c)

/-- Read a parameter string. -/
def read (s : Spec) : Reader Values := fun t =>
  match s.get (t.takeWhile (s.accepts [])) with
  | .ok values => .ok (values, t.dropWhile (s.accepts []))
  | .error fault => .error fault

/-- Parameters are read off the front, and taken apart afterwards. -/
theorem advances_read (s : Spec) : Reader.Advances s.read := by
  intro t a left h
  unfold read at h
  split at h <;> cases h
  exact List.dropWhile_suffix _

end Spec

/-- Read a string of characters of class `p`, and a text in brackets if one follows. -/
def readString (p : Char → Bool) : Reader (Text × Option Text) := fun t =>
  match Reader.optionalBracketed (t.dropWhile p) with
  | .ok (text, rest) => .ok ((t.takeWhile p, text), rest)
  | .error fault => .error fault

/-- A word and a text in brackets are read off the front. -/
theorem advances_readString (p : Char → Bool) : Reader.Advances (readString p) := by
  intro t a left h
  unfold readString at h
  split at h
  · next hb =>
    cases h
    exact (Reader.advances_optionalBracketed hb).trans (List.dropWhile_suffix _)
  · cases h

end MemoryDoc.Parameter
