/-
# Text behind the arguments of pictures

The arguments of a macro that makes a picture may end with a file name in brackets.  Text behind it
is left alone, unless it begins with the mark of a part that could still follow: a colon may bring a
mask, and in an array of tiles a semicolon may bring a further group.  Both are looked for behind a
file name too.

Main statements: it is told by the next character whether text behind arguments is left alone
(`PictureMacro.local_handler`), and arguments that end with a file name are read the same in front of
any text that does not begin with such a mark (`PictureMacro.handler_append`).
-/
import MemoryDoc.Macro.Advance
import MemoryDoc.Parameter.Lookahead

namespace MemoryDoc

open Reader Handler

/-! ## Tiles -/

namespace PictureJob

variable {marks : List Char}

/-- Whether a link can be made is not told by the text. -/
theorem still_ofLink {α : Type} (link : Except Site.LinkError α) : Still (ofLink link) :=
  ⟨link.mapError .link, fun t => by cases link <;> rfl⟩

theorem still_pathOr (p : Page) (fileName : Option Text) (default directory : Text) :
    Still (pathOr p fileName default directory) := by
  refine (still_ofLink _).bind fun path => ?_
  cases path with
  | none => exact still_throw _
  | some path => exact still_pure _

theorem still_maskMode (n : UInt32) : Still (maskMode n) := by
  unfold maskMode
  split
  · exact still_pure _
  · exact still_throw _

theorem still_range (t : Text) (width : UInt32) : Still (range t width) := by
  unfold range
  split
  · exact still_pure _
  · exact still_throw _

/-- The mask of a tile is there or not, as the text begins with a colon. -/
theorem tail_tileMask (hcolon : ':' ∈ marks) (step : UInt32) : Tail marks (tileMask step) := by
  have hrequired : 0 < (tileMaskSpec step).required := Nat.one_pos
  refine (tail_accept hcolon (by decide)).bind fun found => tail_ite ?_ (tail_pure _)
  exact (Parameter.Picture.tail_read hrequired (by decide)).bind fun _ => tail_pure _

/-- A single tile is read the same in front of text that does not begin with a colon. -/
theorem sealed_tile (hcolon : ':' ∈ marks) (p : Page) : Sealed marks (tile p) := by
  refine ((Parameter.Picture.sealed_read _ (by decide)).mapFault _).bind fun head => ?_
  refine ((still_maskMode _).tail.mapFault _).bind fun mode => ?_
  refine ((tail_tileMask hcolon _).mapFault _).bind fun mask => ?_
  exact (still_pathOr _ _ _ _).tail.bind fun path => tail_pure _

/-! ## Arrays of tiles -/

theorem tail_groupMasks (hcolon : ':' ∈ marks) (width step : UInt32) :
    Tail marks (groupMasks width step) := by
  have hrequired : 0 < (groupMaskSpec step).required := Nat.one_pos
  refine (tail_accept hcolon (by decide)).bind fun found => tail_ite ?_ (tail_pure _)
  refine (Parameter.Picture.tail_read hrequired (by decide)).bind fun masks => ?_
  exact (still_range _ _).tail.bind fun _ => tail_pure _

/-- A group that ends with a bracket is not followed by masks unless a colon stands there. -/
theorem sealed_group (hcolon : ':' ∈ marks) (header : Parameter.Values) :
    Sealed marks (group header) := by
  refine (Parameter.Picture.sealed_read _ (by decide)).bind fun head => ?_
  refine (still_range _ _).tail.bind fun addresses => ?_
  refine (tail_groupMasks hcolon _ _).bind fun masks => ?_
  cases masks <;> exact tail_pure _

/-- The groups of an array are told by what is read of them and the next character. -/
theorem groups_alike {header : Parameter.Values} {sofar gs : List Group} {x y y' : Text}
    (hy : y.head? = y'.head?) (h : groups header sofar (x ++ y) = .ok (gs, y)) :
    groups header sofar (x ++ y') = .ok (gs, y') := by
  have hgroup : Sealed [':'] (group header) := sealed_group List.mem_cons_self header
  generalize ht : x ++ y = t at h
  fun_induction groups header sofar t generalizing x with
  | case1 => cases h
  | case2 sofar behind next left hnext ih =>
    obtain ⟨x₂, rfl⟩ := suffix_of_groups h
    obtain ⟨x₁, rfl⟩ := hgroup.advances hnext
    obtain rfl : x = ';' :: (x₁ ++ x₂) := by
      refine (List.append_left_inj y).1 ?_
      rw [ht]
      simp
    have hhead : (x₂ ++ y).head? = (x₂ ++ y').head? := by
      rw [List.head?_append, List.head?_append, hy]
    rw [List.cons_append, groups_cons, List.append_assoc, hgroup.alike hhead hnext]
    exact ih rfl h
  | case3 sofar t hne =>
    cases h
    obtain rfl : x = [] := by simpa using ht
    refine groups_of_head?_ne _ fun hhead => ?_
    rw [List.nil_append, ← hy] at hhead
    obtain ⟨u, rfl⟩ := List.head?_eq_some_iff.1 hhead
    exact hne u rfl

/-- The groups up to a closing bracket are read the same in front of text that begins neither with a
colon nor with a semicolon. -/
theorem groups_append (hcolon : ':' ∈ marks) (hsemicolon : ';' ∈ marks)
    {header : Parameter.Values} {sofar gs : List Group} {x y : Text}
    (hx : x = [] ∨ x.getLast? = some ')') (hy : Unmarked marks y)
    (h : groups header sofar x = .ok (gs, [])) : groups header sofar (x ++ y) = .ok (gs, y) := by
  fun_induction groups header sofar x with
  | case1 => cases h
  | case2 sofar behind next left hgroup ih =>
    have hbehind : behind.getLast? = some ')' := by
      rcases hx with hx | hx
      · cases hx
      · cases behind with
        | nil => exact absurd (Option.some.inj hx) (by decide)
        | cons c behind => rwa [List.getLast?_cons_cons] at hx
    obtain ⟨happend, hleft⟩ := (sealed_group hcolon header).append hbehind hy hgroup
    rw [List.cons_append, groups_cons, happend]
    exact ih hleft h
  | case3 =>
    cases h
    exact groups_of_head?_ne _ fun hhead => hy ';' hhead hsemicolon

/-- The groups of an array are kept in reverse while they are read. -/
theorem readGroups_eq_ok {header : Parameter.Values} {gs : List Group} {t left : Text} :
    readGroups header t = .ok (gs, left) ↔ groups header [] t = .ok (gs.reverse, left) := by
  unfold readGroups
  constructor
  · intro h
    split at h
    · next hgroups =>
      cases h
      rw [hgroups, List.reverse_reverse]
    · cases h
  · intro h
    simp only [h, List.reverse_reverse]

/-- No more groups are read behind a text in which they end, unless a semicolon stands there. -/
theorem tail_readGroups (hcolon : ':' ∈ marks) (hsemicolon : ';' ∈ marks)
    (header : Parameter.Values) : Tail marks (readGroups header) where
  advances := advances_readGroups header
  alike _ _ _ _ hy h := readGroups_eq_ok.2 (groups_alike hy (readGroups_eq_ok.1 h))
  closed _ _ _ hx hy h := readGroups_eq_ok.2
    (groups_append hcolon hsemicolon (.inr hx) hy (readGroups_eq_ok.1 h))
  idle _ _ hy h := readGroups_eq_ok.2
    (groups_append hcolon hsemicolon (.inl rfl) hy (readGroups_eq_ok.1 h))

/-- The text is looked at for errors only. -/
theorem agrees_rest {α : Type} {f : Text → Handler α} (h : ∀ t t', Agrees (f t) (f t')) :
    Agrees ((monadLift rest : Handler Text) >>= f) (f []) :=
  fun t result => h t [] t result

/-- An array of tiles is read the same in front of text that begins neither with a colon nor with a
semicolon. -/
theorem sealed_array (hcolon : ':' ∈ marks) (hsemicolon : ';' ∈ marks) (p : Page) :
    Sealed marks (array p) := by
  -- What was read so far is told by errors only.
  refine .of_agrees (agrees_rest fun start start' => ?_) ?_
  · refine agrees_bind fun head => agrees_ite ?_ ?_
    · exact agrees_of_fails (fun _ _ h => by cases h) (fun _ _ h => by cases h)
    refine agrees_bind fun mode => agrees_bind fun gs => agrees_bind fun left => ?_
    exact agrees_guard (agrees_guard (.refl _))
  · refine ((Parameter.Picture.sealed_read _ (by decide)).mapFault _).bind fun head => ?_
    refine tail_ite (tail_of_fails fun _ _ h => by cases h) ?_
    refine ((still_maskMode _).tail.mapFault _).bind fun mode => ?_
    refine ((tail_readGroups hcolon hsemicolon _).mapFault _).bind fun gs => ?_
    refine .of_agrees (agrees_rest fun left left' => ?_) ?_
    · exact agrees_guard (agrees_guard (.refl _))
    · refine tail_guard (tail_guard ?_)
      exact (still_ofLink _).tail.bind fun path => tail_pure _

/-- An animation is read if its frames are and a file name follows. -/
theorem animated_eq_ok {p : Page} {t left : Text} {job : PictureJob} :
    animated p t = .ok (job, left) ↔
      ∃ cels name path, Parameter.readString isCelChar t = .ok ((cels, some name), left) ∧
        name ≠ [] ∧
        pathOr p (some name) [] Site.tileDirectory left = .ok (path, left) ∧
        job = .animation cels.tail (Text.consumed t left) path := by
  constructor
  · intro h
    -- The text in front is kept for the arguments, and the parts are read from it in order.
    obtain ⟨start, _, hstart, h⟩ := bind_eq_ok.1 h
    cases lift_eq_ok.1 hstart
    obtain ⟨⟨cels, fileName⟩, behind, hread, h⟩ := bind_eq_ok.1 h
    obtain ⟨_, _, hrest, h⟩ := bind_eq_ok.1 h
    cases lift_eq_ok.1 hrest
    split at h
    · cases h
    next hname =>
    dsimp only at h
    obtain ⟨path, behind, hpath, h⟩ := bind_eq_ok.1 h
    cases h
    obtain ⟨rfl, -⟩ := (still_pathOr _ _ _ _).eq_of_eq_ok hpath
    cases fileName with
    | none => exact absurd rfl hname
    | some name => exact ⟨cels, name, path, lift_eq_ok.1 hread, hname, hpath, rfl⟩
  · rintro ⟨cels, name, path, hread, hname, hpath, rfl⟩
    refine bind_eq_ok.2 ⟨_, _, lift_eq_ok.2 rfl, ?_⟩
    refine bind_eq_ok.2 ⟨_, _, lift_eq_ok.2 hread, ?_⟩
    refine bind_eq_ok.2 ⟨_, _, lift_eq_ok.2 rfl, ?_⟩
    dsimp only [Option.getD_some]
    rw [if_neg hname]
    exact bind_eq_ok.2 ⟨path, _, hpath, rfl⟩

/-- An animation is read the same in front of any text. -/
theorem sealed_animated (p : Page) : Sealed marks (animated p) where
  advances := advances_animated p
  alike x y y' job hy h := by
    obtain ⟨cels, name, path, hread, hname, hpath, rfl⟩ := animated_eq_ok.1 h
    obtain ⟨-, hsame⟩ := (still_pathOr _ _ _ _).eq_of_eq_ok hpath
    refine animated_eq_ok.2 ⟨cels, name, path, ?_, hname, hsame y', by simp [Text.consumed]⟩
    exact (Parameter.local_readString _).alike hy hread
  closed x y job _ _ h := by
    obtain ⟨cels, name, path, hread, hname, hpath, rfl⟩ := animated_eq_ok.1 h
    obtain ⟨-, hsame⟩ := (still_pathOr _ _ _ _).eq_of_eq_ok hpath
    refine animated_eq_ok.2 ⟨cels, name, path, ?_, hname, hsame y, by simp [Text.consumed]⟩
    exact Parameter.readString_append hread y

/-! ## Fonts and the screen -/

/-- A message that ends with a bracket has been read in full. -/
theorem sealed_message : Sealed marks message := by
  refine .of_agrees (agrees_rest fun start start' => ?_) ?_
  · refine agrees_bind fun found => agrees_ite ?_ (.refl _)
    refine agrees_bind fun text => agrees_ite ?_ (.refl _)
    exact agrees_of_fails (fun _ _ h => by cases h) (fun _ _ h => by cases h)
  · refine ((sealed_accept (by decide)).mapFault _).bind fun found => tail_ite ?_ (tail_pure _)
    refine (tail_bracketed.mapFault _).bind fun text => tail_ite ?_ (tail_pure _)
    exact tail_of_fails fun _ _ h => by cases h

/-- A picture of glyphs is read the same in front of any text. -/
theorem sealed_font (p : Page) : Sealed marks (font p) := by
  refine sealed_message.bind fun text => ?_
  have hrequired : 0 < (fontSpec text.length).required := Nat.one_pos
  refine ((Parameter.Picture.tail_read hrequired (by decide)).mapFault _).bind fun head => ?_
  exact (still_pathOr _ _ _ _).tail.bind fun path => tail_pure _

/-- A picture of the screen is read the same in front of any text. -/
theorem sealed_screen (p : Page) : Sealed marks (screen p) := by
  refine ((Parameter.Picture.sealed_read _ (by decide)).mapFault _).bind fun head => ?_
  exact (still_pathOr _ _ _ _).tail.bind fun path => tail_pure _

end PictureJob

/-! ## All macros that make pictures -/

/-- The marks of the parts that are looked for behind a file name too: the mask of a tile, and in an
array further groups of tiles. -/
def PictureMacro.marks (m : PictureMacro) (arguments : Text) : List Char :=
  match m with
  | .udg => [':']
  | .udgarray => if arguments.head? = some '*' then [] else [':', ';']
  | .font => []
  | .scr => []

/-- Whether an array or an animation is read is told by the first character. -/
theorem PictureJob.local_arrayOrAnimation (p : Page) : Local (arrayOrAnimation p) where
  advances := advances_arrayOrAnimation p
  alike x y y' job hy h := by
    have hanimated : Sealed [] (animated p) := sealed_animated p
    have harray : Sealed [':', ';'] (array p) := sealed_array (by decide) (by decide) p
    have hhead : (x ++ y').head? = (x ++ y).head? := by
      rw [List.head?_append, List.head?_append, hy]
    unfold arrayOrAnimation at h ⊢
    rw [hhead]
    split at h
    · next hstar =>
      rw [if_pos hstar]
      exact hanimated.alike hy h
    · next hstar =>
      rw [if_neg hstar]
      exact harray.alike hy h

/-- **The macros that make pictures look no further than the character behind what they read.** -/
theorem PictureMacro.local_handler (p : Page) (m : PictureMacro) : Local (m.handler p) := by
  have htile : Sealed [':'] (PictureJob.tile p) := PictureJob.sealed_tile (by decide) p
  have hfont : Sealed [] (PictureJob.font p) := PictureJob.sealed_font p
  have hscreen : Sealed [] (PictureJob.screen p) := PictureJob.sealed_screen p
  cases m with
  | udg => exact htile.toLocal
  | udgarray => exact PictureJob.local_arrayOrAnimation p
  | font => exact hfont.toLocal
  | scr => exact hscreen.toLocal

/-- **Arguments that end with a file name are read the same in front of text that does not begin
with a mark,** and that text is left. -/
theorem PictureMacro.handler_append {p : Page} {m : PictureMacro} {arguments behind : Text}
    {job : PictureJob} (hclose : arguments.getLast? = some ')')
    (hbehind : Unmarked (m.marks arguments) behind)
    (h : m.handler p arguments = .ok (job, [])) :
    m.handler p (arguments ++ behind) = .ok (job, behind) := by
  cases m with
  | udg => exact (PictureJob.sealed_tile List.mem_cons_self p).closed hclose hbehind h
  | udgarray =>
    have hhead : (arguments ++ behind).head? = arguments.head? := by
      cases arguments with
      | nil => cases hclose
      | cons c arguments => rfl
    change PictureJob.arrayOrAnimation p arguments = _ at h
    change PictureJob.arrayOrAnimation p (arguments ++ behind) = _
    unfold PictureJob.arrayOrAnimation at h ⊢
    rw [hhead]
    split at h
    · next hstar =>
      rw [if_pos hstar]
      exact (PictureJob.sealed_animated p).closed hclose hbehind h
    · next hstar =>
      rw [if_neg hstar]
      rw [marks, if_neg hstar] at hbehind
      exact (PictureJob.sealed_array (by decide) (by decide) p).closed hclose hbehind h
  | font => exact (PictureJob.sealed_font p).closed hclose hbehind h
  | scr => exact (PictureJob.sealed_screen p).closed hclose hbehind h

end MemoryDoc
