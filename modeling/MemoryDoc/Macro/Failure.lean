/-
# How handlers fail

A handler reads the arguments of its macro and follows links.  Where it fails, it is because of one of
these, and no picture has been tried.

Main statements: this holds of the handlers of all macros that turn into text
(`TextMacro.blames_handler`) and of all that make pictures (`PictureMacro.blames_handler`).
-/
import MemoryDoc.Macro.PictureJob

namespace MemoryDoc

/-- The error is about an argument or a link. -/
inductive MacroError.Blames : MacroError → Prop where
  | fault (fault : Fault) : Blames (.fault fault)
  | link (e : Site.LinkError) : Blames (.link e)

namespace Handler

variable {α β : Type}

/-- A handler fails because of an argument or a link. -/
def Blames (r : Handler α) : Prop :=
  ∀ ⦃t e⦄, r t = .error e → e.Blames

theorem blames_pure (a : α) : Blames (pure a : Handler α) := by
  intro t e h
  cases h

theorem blames_throw (fault : Fault) : Blames (throw (.fault fault) : Handler α) := by
  intro t e h
  cases h
  exact .fault fault

theorem blames_lift (r : Reader α) : Blames (monadLift r : Handler α) := by
  intro t e h
  change Reader.mapFault MacroError.fault r t = _ at h
  unfold Reader.mapFault at h
  split at h
  · cases h
  · cases h
    exact .fault _

/-- Where a link cannot be made, the link is to blame. -/
theorem blames_ofLink (link : Except Site.LinkError α) : Blames (ofLink link) := by
  intro t e h
  unfold ofLink at h
  split at h
  · cases h
  · cases h
    exact .link _

/-- A handler that goes on after another one fails where one of them does. -/
theorem blames_bind {r : Handler α} {f : α → Handler β} (hr : Blames r) (hf : ∀ a, Blames (f a)) :
    Blames (r >>= f) := by
  intro t e h
  change (r t >>= fun p => f p.1 p.2) = _ at h
  cases hrt : r t with
  | error e' =>
    rw [hrt] at h
    cases h
    exact hr hrt
  | ok p =>
    rw [hrt] at h
    exact hf p.1 h

/-- A handler that stops at once has this error, whatever would come next. -/
theorem blames_throw_bind (fault : Fault) (f : α → Handler β) :
    Blames ((throw (.fault fault) : Handler α) >>= f) := by
  intro t e h
  cases h
  exact .fault fault

/-- What is read of the arguments first does not matter. -/
theorem blames_lift_bind (r : Reader α) {f : α → Handler β} (hf : ∀ a, Blames (f a)) :
    Blames ((monadLift r : Handler α) >>= f) :=
  blames_bind (blames_lift r) hf

theorem blames_ite {c : Prop} [Decidable c] {r r' : Handler α} (hr : Blames r) (hr' : Blames r') :
    Blames (if c then r else r') := by
  split
  · exact hr
  · exact hr'

end Handler

open Handler

/-! ## Macros that turn into text -/

namespace Wording

/-- A link to an item fails in its brackets or in its target. -/
theorem blames_item (p : Page) (kind : Site.ItemKind) : Blames (item p kind) := by
  apply blames_lift_bind
  intro anchor
  apply blames_lift_bind
  intro text
  exact blames_ofLink _

/-- A link to a page fails for want of a name or a text, or because there is no such page. -/
theorem blames_page (p : Page) : Blames (page p) := by
  apply blames_lift_bind
  intro start
  apply blames_lift_bind
  intro colon
  apply blames_lift_bind
  intro name
  apply blames_ite
  · apply blames_lift_bind
    exact fun _ => blames_throw_bind _ _
  · apply blames_lift_bind
    intro anchor
    apply blames_lift_bind
    intro text
    cases text with
    | none => exact blames_lift_bind _ fun _ => blames_throw _
    | some text => exact blames_ofLink _

/-- A link to a routine fails in its address, in its brackets or in its target. -/
theorem blames_routine (p : Page) : Blames (routine p) := by
  apply blames_lift_bind
  intro address
  apply blames_lift_bind
  intro code
  apply blames_lift_bind
  intro anchor
  apply blames_lift_bind
  intro text
  exact blames_ofLink _

/-- A list of referrers fails in its address or because there is no entry. -/
theorem blames_referrers (p : Page) : Blames (referrers p) := by
  apply blames_lift_bind
  intro address
  apply blames_lift_bind
  intro text
  apply blames_bind (blames_ofLink _)
  intro refs
  exact blames_ite (blames_pure _) (blames_pure _)

theorem blames_entryPointReferrers (p : Page) : Blames (entryPointReferrers p) :=
  blames_lift_bind _ fun _ => blames_bind (blames_ofLink _) fun _ => blames_pure _

theorem blames_description (p : Page) : Blames (description p) :=
  blames_lift_bind _ fun _ => blames_ofLink _

theorem blames_character : Blames character := by
  apply blames_lift_bind
  intro n
  cases n with
  | none => exact blames_throw _
  | some n => exact blames_pure _

theorem blames_spaces : Blames spaces :=
  blames_lift_bind _ fun _ => blames_pure _

theorem blames_register (p : Page) : Blames (register p) := by
  apply blames_lift_bind
  intro name
  apply blames_ite
  · exact blames_throw_bind _ _
  · apply blames_ite
    · exact blames_throw_bind _ _
    · exact blames_pure _

/-- A call fails if it is not written in full, or because its name is unknown. -/
theorem blames_call (p : Page) : Blames (call p) := by
  apply blames_lift_bind
  intro colon
  apply blames_ite
  · exact blames_throw_bind _ _
  · apply blames_lift_bind
    intro name
    apply blames_lift_bind
    intro arguments
    cases arguments with
    | none => exact blames_throw _
    | some arguments =>
      dsimp only
      split
      · exact blames_throw _
      · exact blames_pure _

/-- A block fails if it is not closed or because of what is inside. -/
theorem blames_block (word kind : Text) (f : Text → Except Fault Text) :
    Blames (block word kind f) := by
  intro t e h
  unfold block at h
  split at h
  · cases h
    exact .fault _
  · split at h
    · cases h
    · cases h
      exact .fault _

end Wording

/-- **A macro that turns into text fails because of an argument or a link.** -/
theorem TextMacro.blames_handler (p : Page) (m : TextMacro) : Blames (m.handler p) := by
  cases m with
  | bug => exact Wording.blames_item p .bug
  | fact => exact Wording.blames_item p .fact
  | poke => exact Wording.blames_item p .poke
  | link => exact Wording.blames_page p
  | r => exact Wording.blames_routine p
  | refs => exact Wording.blames_referrers p
  | erefs => exact Wording.blames_entryPointReferrers p
  | d => exact Wording.blames_description p
  | chr => exact Wording.blames_character
  | space => exact Wording.blames_spaces
  | html => exact blames_lift _
  | reg => exact Wording.blames_register p
  | call => exact Wording.blames_call p
  | list => exact Wording.blames_block _ _ _
  | table => exact Wording.blames_block _ _ _
  | udgtable => exact Wording.blames_block _ _ _

/-! ## Macros that make pictures -/

namespace PictureJob

/-- A path fails as a link does, or because there is no name for the file. -/
theorem blames_pathOr (p : Page) (fileName : Option Text) (default directory : Text) :
    Blames (pathOr p fileName default directory) := by
  apply blames_bind (blames_ofLink _)
  intro path
  cases path with
  | none => exact blames_throw _
  | some path => exact blames_pure _

/-- A tile fails in its parameters, its mask mode or its path. -/
theorem blames_tile (p : Page) : Blames (tile p) := by
  apply blames_lift_bind
  intro head
  apply blames_lift_bind
  intro mode
  apply blames_lift_bind
  intro mask
  exact blames_bind (blames_pathOr _ _ _ _) fun _ => blames_pure _

/-- An array fails in its parameters or its groups, or because its file is not named. -/
theorem blames_array (p : Page) : Blames (array p) := by
  apply blames_lift_bind
  intro start
  apply blames_lift_bind
  intro head
  apply blames_ite
  · apply blames_lift_bind
    exact fun _ => blames_throw_bind _ _
  · apply blames_lift_bind
    intro mode
    apply blames_lift_bind
    intro gs
    apply blames_lift_bind
    intro left
    -- The name in the brackets may be missing, or have nothing in front of and behind its star.
    apply blames_ite
    · exact blames_throw_bind _ _
    · apply blames_ite
      · exact blames_throw_bind _ _
      · exact blames_bind (blames_ofLink _) fun _ => blames_pure _

theorem blames_animated (p : Page) : Blames (animated p) := by
  apply blames_lift_bind
  intro start
  apply blames_lift_bind
  intro read
  apply blames_lift_bind
  intro left
  apply blames_ite
  · exact blames_throw_bind _ _
  · exact blames_bind (blames_pathOr _ _ _ _) fun _ => blames_pure _

theorem blames_arrayOrAnimation (p : Page) : Blames (arrayOrAnimation p) := by
  intro t e h
  unfold arrayOrAnimation at h
  split at h
  · exact blames_animated p h
  · exact blames_array p h

theorem blames_message : Blames message := by
  apply blames_lift_bind
  intro start
  apply blames_lift_bind
  intro colon
  apply blames_ite
  · apply blames_lift_bind
    intro text
    apply blames_ite
    · apply blames_lift_bind
      exact fun _ => blames_throw_bind _ _
    · exact blames_pure _
  · exact blames_pure _

theorem blames_font (p : Page) : Blames (font p) := by
  apply blames_bind blames_message
  intro text
  apply blames_lift_bind
  intro head
  exact blames_bind (blames_pathOr _ _ _ _) fun _ => blames_pure _

theorem blames_screen (p : Page) : Blames (screen p) := by
  apply blames_lift_bind
  intro head
  exact blames_bind (blames_pathOr _ _ _ _) fun _ => blames_pure _

end PictureJob

/-- **A macro that makes a picture fails because of an argument or a link, before it tries to.** -/
theorem PictureMacro.blames_handler (p : Page) (m : PictureMacro) : Blames (m.handler p) := by
  cases m with
  | udg => exact PictureJob.blames_tile p
  | udgarray => exact PictureJob.blames_arrayOrAnimation p
  | font => exact PictureJob.blames_font p
  | scr => exact PictureJob.blames_screen p

end MemoryDoc
