/-
# Handlers advance

A handler is given the text behind the name of its macro.  Whatever it reads of it, what it leaves
is an end of that text.

Main statements: this holds of the handlers of all macros that turn into text
(`TextMacro.advances_handler`), of all that make pictures (`PictureMacro.advances_handler`), and of
clauses of pokes (`Poke.suffix_of_clauses`).
-/
import MemoryDoc.Macro.PictureJob
import MemoryDoc.Macro.Pokes

namespace MemoryDoc

open Reader Handler

/-! ## Macros that turn into text -/

namespace Wording

/-- An anchor is a sharp with the name behind it, or nothing. -/
theorem advances_anchor : Advances anchor := by
  refine advances_bind (advances_accept _) fun found => advances_ite ?_ (advances_pure _)
  exact advances_bind (advances_readWhile _) fun _ => advances_pure _

theorem advances_code : Advances code := by
  refine advances_bind (advances_accept _) fun found => advances_ite ?_ (advances_pure _)
  exact advances_bind (advances_readWhile _) fun _ => advances_pure _

/-- A link to an item reads an anchor and then a text in brackets, and looks at nothing else. -/
theorem advances_item (p : Page) (kind : Site.ItemKind) : Advances (item p kind) := by
  refine advances_bind (advances_lift advances_anchor) fun _ => ?_
  refine advances_bind (advances_lift advances_optionalBracketed) fun _ => ?_
  exact advances_ofLink _

/-- A link to a page stops behind its text, or fails where there is none. -/
theorem advances_page (p : Page) : Advances (page p) := by
  refine advances_bind (advances_lift advances_rest) fun _ => ?_
  refine advances_bind (advances_lift (advances_accept _)) fun _ => ?_
  refine advances_bind (advances_lift (advances_readWhile _)) fun _ => ?_
  refine advances_ite ?_ ?_
  · exact advances_bind (advances_lift advances_rest) fun _ => advances_throw_bind _ _
  · refine advances_bind (advances_lift advances_anchor) fun _ => ?_
    refine advances_bind (advances_lift advances_optionalBracketed) fun text => ?_
    cases text with
    | none => exact advances_bind (advances_lift advances_rest) fun _ => advances_throw _
    | some text => exact advances_ofLink _

/-- A link to a routine stops behind its text, or behind the address, code and anchor. -/
theorem advances_routine (p : Page) : Advances (routine p) := by
  refine advances_bind (advances_lift advances_address) fun _ => ?_
  refine advances_bind (advances_lift advances_code) fun _ => ?_
  refine advances_bind (advances_lift advances_anchor) fun _ => ?_
  refine advances_bind (advances_lift advances_optionalBracketed) fun _ => ?_
  exact advances_ofLink _

/-- Where no entry refers to the address, the text in front of the list has been read all the
same. -/
theorem advances_referrers (p : Page) : Advances (referrers p) := by
  refine advances_bind (advances_lift advances_address) fun _ => ?_
  refine advances_bind (advances_lift advances_optionalBracketed) fun _ => ?_
  refine advances_bind (advances_ofLink _) fun _ => ?_
  exact advances_ite (advances_pure _) (advances_pure _)

theorem advances_entryPointReferrers (p : Page) : Advances (entryPointReferrers p) := by
  refine advances_bind (advances_lift advances_address) fun _ => ?_
  exact advances_bind (advances_ofLink _) fun _ => advances_pure _

theorem advances_description (p : Page) : Advances (description p) :=
  advances_bind (advances_lift advances_address) fun _ => advances_ofLink _

/-- The text of a number is in brackets or goes on to the last digit. -/
theorem advances_numberText : Advances numberText := by
  refine advances_bind advances_rest fun t => ?_
  split
  · exact advances_bind advances_bracketed fun _ => advances_pure _
  · exact advances_number

/-- A number is what its text says, and nothing more is read. -/
theorem advances_numberArgument : Advances numberArgument := by
  refine advances_bind advances_numberText fun raw => advances_ite (advances_pure _) ?_
  split
  · exact advances_pure _
  · exact advances_throw _

theorem advances_character : Advances character := by
  refine advances_bind (advances_lift advances_numberArgument) fun n => ?_
  cases n with
  | none => exact advances_throw _
  | some n => exact advances_pure _

theorem advances_spaces : Advances spaces :=
  advances_bind (advances_lift advances_numberArgument) fun _ => advances_pure _

/-- A register is read as far as its characters go, and looked up afterwards. -/
theorem advances_register (p : Page) : Advances (register p) := by
  refine advances_bind (advances_lift (advances_readWhile _)) fun _ => ?_
  refine advances_ite ?_ (advances_ite ?_ (advances_pure _))
  · exact advances_throw_bind _ _
  · exact advances_throw_bind _ _

/-- A call is its name and the brackets behind it. -/
theorem advances_call (p : Page) : Advances (call p) := by
  refine advances_bind (advances_lift (advances_accept _)) fun _ => advances_ite ?_ ?_
  · exact advances_throw_bind _ _
  · refine advances_bind (advances_lift (advances_readWhile _)) fun _ => ?_
    refine advances_bind (advances_lift advances_optionalBracketed) fun arguments => ?_
    cases arguments with
    | none => exact advances_throw _
    | some arguments =>
      simp only
      split
      · exact advances_throw _
      · exact advances_pure _

/-- What stands behind a word is an end of the text. -/
theorem suffix_of_cutWord {word t before after : Text}
    (h : Text.cutWord word t = some (before, after)) : after <:+ t :=
  ⟨before ++ word, by rw [Text.eq_of_cutWord h, List.append_assoc]⟩

/-- A block is read up to the word that ends it, which is read as well. -/
theorem advances_block (word kind : Text) (f : Text → Except Fault Text) :
    Advances (block word kind f) := by
  intro t a left h
  unfold block at h
  split at h
  · cases h
  · next hc =>
    split at h
    · cases h
      exact suffix_of_cutWord hc
    · cases h

end Wording

/-- **A macro that turns into text leaves an end of the text behind its name.** -/
theorem TextMacro.advances_handler (p : Page) (m : TextMacro) : Advances (m.handler p) := by
  cases m with
  | bug => exact Wording.advances_item p .bug
  | fact => exact Wording.advances_item p .fact
  | poke => exact Wording.advances_item p .poke
  | link => exact Wording.advances_page p
  | r => exact Wording.advances_routine p
  | refs => exact Wording.advances_referrers p
  | erefs => exact Wording.advances_entryPointReferrers p
  | d => exact Wording.advances_description p
  | chr => exact Wording.advances_character
  | space => exact Wording.advances_spaces
  | html => exact advances_lift advances_bracketed
  | reg => exact Wording.advances_register p
  | call => exact Wording.advances_call p
  | list => exact Wording.advances_block _ _ _
  | table => exact Wording.advances_block _ _ _
  | udgtable => exact Wording.advances_block _ _ _

/-! ## Macros that make pictures -/

namespace PictureJob

theorem advances_pathOr (p : Page) (fileName : Option Text) (default directory : Text) :
    Advances (pathOr p fileName default directory) := by
  refine advances_bind (advances_ofLink _) fun path => ?_
  cases path with
  | none => exact advances_throw _
  | some path => exact advances_pure _

/-- The mask of a tile is read only behind a colon. -/
theorem advances_tileMask (step : UInt32) : Advances (tileMask step) := by
  refine advances_bind (advances_accept _) fun _ => advances_ite ?_ (advances_pure _)
  exact advances_bind (Parameter.Picture.advances_read _ _) fun _ => advances_pure _

theorem advances_tile (p : Page) : Advances (tile p) := by
  refine advances_bind (advances_lift (Parameter.Picture.advances_read _ _)) fun _ => ?_
  refine advances_bind (advances_lift (advances_maskMode _)) fun _ => ?_
  refine advances_bind (advances_lift (advances_tileMask _)) fun _ => ?_
  exact advances_bind (advances_pathOr _ _ _ _) fun _ => advances_pure _

/-- Groups are read for as long as a semicolon follows, and each leaves less of the text. -/
theorem suffix_of_groups {header : Parameter.Values} {sofar gs : List Group} {t left : Text}
    (h : groups header sofar t = .ok (gs, left)) : left <:+ t := by
  fun_induction groups header sofar t with
  | case1 => cases h
  | case2 sofar behind next left' hg ih =>
    exact (ih h).trans ((advances_group header hg).trans (List.suffix_cons _ _))
  | case3 =>
    cases h
    exact List.suffix_refl _

/-- What the groups of an array leave is what the last of them leaves. -/
theorem advances_readGroups (header : Parameter.Values) : Advances (readGroups header) := by
  intro t gs left h
  unfold readGroups at h
  split at h
  · next hg => cases h; exact suffix_of_groups hg
  · cases h

/-- An array fails before its groups are read, or behind the last of them. -/
theorem advances_array (p : Page) : Advances (array p) := by
  refine advances_bind (advances_lift advances_rest) fun _ => ?_
  refine advances_bind (advances_lift (Parameter.Picture.advances_read _ _)) fun _ => ?_
  refine advances_ite ?_ ?_
  · exact advances_bind (advances_lift advances_rest) fun _ => advances_throw_bind _ _
  · refine advances_bind (advances_lift (advances_maskMode _)) fun _ => ?_
    refine advances_bind (advances_lift (advances_readGroups _)) fun gs => ?_
    refine advances_bind (advances_lift advances_rest) fun _ => ?_
    refine advances_ite ?_ (advances_ite ?_ ?_)
    · exact advances_throw_bind _ _
    · exact advances_throw_bind _ _
    · exact advances_bind (advances_ofLink _) fun _ => advances_pure _

theorem advances_animated (p : Page) : Advances (animated p) := by
  refine advances_bind (advances_lift advances_rest) fun _ => ?_
  refine advances_bind (advances_lift (Parameter.advances_readString _)) fun _ => ?_
  refine advances_bind (advances_lift advances_rest) fun _ => advances_ite ?_ ?_
  · exact advances_throw_bind _ _
  · exact advances_bind (advances_pathOr _ _ _ _) fun _ => advances_pure _

/-- A star in front tells an animation from an array, and both leave an end of the text. -/
theorem advances_arrayOrAnimation (p : Page) : Advances (arrayOrAnimation p) := by
  intro t a left h
  unfold arrayOrAnimation at h
  split at h
  · exact advances_animated p h
  · exact advances_array p h

/-- The message of a font is in brackets, if a colon announces one. -/
theorem advances_message : Advances message := by
  refine advances_bind (advances_lift advances_rest) fun _ => ?_
  refine advances_bind (advances_lift (advances_accept _)) fun _ => ?_
  refine advances_ite ?_ (advances_pure _)
  refine advances_bind (advances_lift advances_bracketed) fun _ => advances_ite ?_ (advances_pure _)
  exact advances_bind (advances_lift advances_rest) fun _ => advances_throw_bind _ _

theorem advances_font (p : Page) : Advances (font p) := by
  refine advances_bind advances_message fun _ => ?_
  refine advances_bind (advances_lift (Parameter.Picture.advances_read _ _)) fun _ => ?_
  exact advances_bind (advances_pathOr _ _ _ _) fun _ => advances_pure _

theorem advances_screen (p : Page) : Advances (screen p) := by
  refine advances_bind (advances_lift (Parameter.Picture.advances_read _ _)) fun _ => ?_
  exact advances_bind (advances_pathOr _ _ _ _) fun _ => advances_pure _

end PictureJob

/-- **A macro that makes a picture leaves an end of the text behind its name.** -/
theorem PictureMacro.advances_handler (p : Page) (m : PictureMacro) : Advances (m.handler p) := by
  cases m with
  | udg => exact PictureJob.advances_tile p
  | udgarray => exact PictureJob.advances_arrayOrAnimation p
  | font => exact PictureJob.advances_font p
  | scr => exact PictureJob.advances_screen p

/-! ## Pokes -/

/-- **The clauses of pokes leave an end of the text.** -/
theorem Poke.suffix_of_clauses {t left : Text} {ps : List Poke}
    (h : Poke.clauses t = (ps, .ok left)) : left <:+ t := by
  fun_induction Poke.clauses t generalizing ps with
  | case1 => cases h
  | case2 t values rest hr more outcome hc ih =>
    cases h
    exact (ih hc).trans ((List.suffix_cons _ _).trans (Poke.spec.advances_read hr))
  | case3 t values rest _ hr =>
    cases h
    exact Poke.spec.advances_read hr

end MemoryDoc
