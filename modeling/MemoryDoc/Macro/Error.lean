/-
# Errors of macros

A macro fails because of its arguments, because of something that it refers to, or because a
picture cannot be made or written.  An expansion fails with the first macro that fails.
-/
import MemoryDoc.Memory.Stack
import MemoryDoc.Site.Link
import MemoryDoc.Text.Reader

namespace MemoryDoc

/-- Why a macro fails. -/
inductive MacroError where
  | fault (fault : Fault)
  /-- The macro makes a picture where pictures are not allowed. -/
  | unsupported
  | underflow (e : Memory.Stack.Underflow)
  | tooLarge (e : Frame.TooLarge)
  | picture (e : PictureError)
  | link (e : Site.LinkError)
deriving DecidableEq, Repr

/-- The wording of the error. -/
def MacroError.message : MacroError → Text
  | fault f => f.message
  | unsupported => "Macro not supported here"
  | underflow e => e.message
  | tooLarge e => e.message
  | picture e => e.message
  | link e => e.message

/-- Why an expansion fails. -/
inductive ExpansionError where
  | unknown (marker : Text)
  | unsupported (marker : Text)
  /-- The macro `marker` fails.  `span` is the text from its `#` to the next blank. -/
  | inMacro (marker span : Text) (cause : MacroError)
deriving DecidableEq, Repr

/-- The wording of the error. -/
def ExpansionError.message : ExpansionError → Text
  | unknown marker => "Found unknown macro: " ++ marker
  | unsupported marker => "Found unsupported macro: " ++ marker
  | inMacro marker span cause =>
    "Error while parsing " ++ marker ++ " macro: " ++ cause.message ++ " (at " ++ Fault.quoted span
      ++ ")"

/-- A handler reads the arguments of a macro from the text behind its name. -/
abbrev Handler := StateT Text (Except MacroError)

namespace Handler

/-- Faults of readers are errors of macros. -/
instance : MonadLift Reader Handler where
  monadLift r := Reader.mapFault .fault r

/-- A link that cannot be made is an error of the macro. -/
def ofLink {α : Type} (link : Except Site.LinkError α) : Handler α := fun t =>
  match link with
  | .ok a => .ok (a, t)
  | .error e => .error (.link e)

/-- A reader reads the same when it is used in a handler. -/
theorem lift_eq_ok {α : Type} {r : Reader α} {t : Text} {result : α × Text} :
    (monadLift r : Handler α) t = .ok result ↔ r t = .ok result :=
  Reader.mapFault_eq_ok

/-- A link that is made leaves the text as it is. -/
theorem ofLink_eq_ok {α : Type} {link : Except Site.LinkError α} {t rest : Text} {a : α} :
    ofLink link t = .ok (a, rest) ↔ link = .ok a ∧ rest = t := by
  unfold ofLink
  cases link <;> simp [eq_comm]

/-- A reader that leaves an end of the text still does so in a handler. -/
theorem advances_lift {α : Type} {r : Reader α} (hr : Reader.Advances r) :
    Reader.Advances (monadLift r : Handler α) :=
  Reader.advances_mapFault _ hr

/-- Making a link reads nothing. -/
theorem advances_ofLink {α : Type} (link : Except Site.LinkError α) :
    Reader.Advances (ofLink link) := by
  intro t a left h
  unfold ofLink at h
  split at h <;> cases h
  exact List.suffix_refl t

end Handler

end MemoryDoc
