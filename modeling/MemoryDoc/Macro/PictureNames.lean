/-
# Names of pictures

The arguments of a macro that makes a picture tell the path that the picture is written to and the
name that its frame is kept under.  Only the frame of an array of tiles is kept, and only an array
may come without a path: its brackets hold the names of both, and either may be left out.

Main statements: every macro but that of an array writes its picture and keeps no frame
(`PictureMacro.array_or_written`), and what an array does with the names in its brackets
(`PictureJob.still_of_array`).
-/
import MemoryDoc.Macro.Lookahead

namespace MemoryDoc

open Reader Handler

namespace PictureJob

/-- The name that the frame of the picture is kept under. -/
def keepAs? : PictureJob → Option Text
  | still _ keepAs _ => keepAs
  | animation _ _ _ => none

/-! ## Arrays of tiles -/

/-- The picture that an array of some groups is drawn as. -/
def arrayDrawing (head : Parameter.Picture) (mode : MaskMode) (gs : List Group) : Drawing where
  source := .tiles (head.values.number 0).toNat (gs.flatMap (·.sources))
  flip := head.values.number 5
  rotate := head.values.number 6
  scale := head.values.number 2
  mask := if gs.any (·.masked) then mode else .ignored
  crop := ((gs.getLast?.map fun g => (g.crop, g.fileName)).getD (head.crop, head.fileName)).1

/-- A mask mode that is read is the one of its number. -/
theorem maskMode_eq_ok {n : UInt32} {mode : MaskMode} {t left : Text}
    (h : maskMode n t = .ok (mode, left)) : MaskMode.ofNumber? n = some mode ∧ left = t := by
  unfold maskMode at h
  cases hmode : MaskMode.ofNumber? n with
  | none =>
    rw [hmode] at h
    cases h
  | some read =>
    rw [hmode] at h
    cases h
    exact ⟨rfl, rfl⟩

/-- What an array of tiles is read from, and the picture that it is drawn as. -/
theorem of_array_eq_ok {p : Page} {t left : Text} {job : PictureJob}
    (h : array p t = .ok (job, left)) :
    ∃ head behind mode gs fileName path,
      Parameter.Picture.read arraySpec [] t = .ok (head, behind) ∧
      head.values.number 0 ≠ 0 ∧
      MaskMode.ofNumber? (head.values.number 7) = some mode ∧
      readGroups head.values behind = .ok (gs, left) ∧
      ((gs.getLast?.map fun g => (g.crop, g.fileName)).getD (head.crop, head.fileName)).2.getD [] =
        fileName ∧
      p.site.picturePath (arrayNames fileName).1 Site.tileDirectory = .ok path ∧
      job = .still (arrayDrawing head mode gs) (arrayNames fileName).2 path := by
  obtain ⟨start, _, hstart, hread⟩ := bind_eq_ok.1 h
  cases lift_eq_ok.1 hstart
  obtain ⟨head, behind, hhead, hwidth⟩ := bind_eq_ok.1 hread
  dsimp only at hwidth
  split at hwidth
  · cases hwidth
  next hpos =>
  obtain ⟨mode, _, hmode, hgroups⟩ := bind_eq_ok.1 hwidth
  obtain ⟨hnumber, rfl⟩ := maskMode_eq_ok (lift_eq_ok.1 hmode)
  obtain ⟨gs, rest, hgs, hrest⟩ := bind_eq_ok.1 hgroups
  obtain ⟨_, _, hleft, hnames⟩ := bind_eq_ok.1 hrest
  cases lift_eq_ok.1 hleft
  split at hnames
  · cases hnames
  split at hnames
  · cases hnames
  obtain ⟨path, _, hlink, hjob⟩ := bind_eq_ok.1 hnames
  obtain ⟨hpath, rfl⟩ := ofLink_eq_ok.1 hlink
  cases hjob
  exact ⟨head, _, mode, gs, _, path, lift_eq_ok.1 hhead, hpos, hnumber, lift_eq_ok.1 hgs, rfl,
    hpath, rfl⟩

/-- The names of an array, as they are written in the brackets behind its last part. -/
def arrayName : Reader Text := do
  let head ← Parameter.Picture.read arraySpec []
  let gs ← readGroups head.values
  return ((gs.getLast?.map (·.fileName)).getD head.fileName).getD []

/-- **An array is kept and written under the names in its brackets.** -/
theorem still_of_array {p : Page} {t left : Text} {job : PictureJob}
    (h : array p t = .ok (job, left)) :
    ∃ name drawing path, arrayName t = .ok (name, left) ∧
      job = .still drawing (arrayNames name).2 path ∧
      p.site.picturePath (arrayNames name).1 Site.tileDirectory = .ok path := by
  obtain ⟨head, behind, mode, gs, name, path, hhead, -, -, hgs, rfl, hpath, rfl⟩ :=
    of_array_eq_ok h
  have hlast : ((gs.getLast?.map fun g => (g.crop, g.fileName)).getD (head.crop, head.fileName)).2 =
      (gs.getLast?.map (·.fileName)).getD head.fileName := by
    cases gs.getLast? <;> rfl
  refine ⟨_, _, path, ?_, rfl, hpath⟩
  rw [hlast]
  exact bind_eq_ok.2 ⟨head, behind, hhead, bind_eq_ok.2 ⟨gs, left, hgs, rfl⟩⟩

/-- A frame is kept under a name that is not empty. -/
theorem arrayNames_snd_ne (t : Text) : (arrayNames t).2 ≠ some [] := by
  unfold arrayNames
  split
  · nofun
  · dsimp only
    split
    · nofun
    · next hname => simpa using hname

/-- Only a picture without a name has no path. -/
theorem picturePath_eq_none {site : Site} {fileName directory : Text}
    (h : site.picturePath fileName directory = .ok none) : fileName = [] := by
  unfold Site.picturePath at h
  split at h
  · rfl
  · cases h
  · cases h
  · cases h

/-! ## All macros that make pictures -/

/-- A handler leaves jobs that write a picture and keep no frame. -/
def Writes (r : Handler PictureJob) : Prop :=
  ∀ ⦃t left job⦄, r t = .ok (job, left) → job.keepAs? = none ∧ ∃ path, job.path? = some path

/-- A picture is written after anything else as it is on its own. -/
theorem writes_bind {α : Type} {r : Handler α} {f : α → Handler PictureJob}
    (hf : ∀ a, Writes (f a)) : Writes (r >>= f) := by
  intro t left job h
  obtain ⟨a, behind, -, h⟩ := bind_eq_ok.1 h
  exact hf a h

/-- A still picture with a path and no name to be kept under is written. -/
theorem writes_still (drawing : Drawing) (path : Text) :
    Writes (pure (.still drawing none (some path))) := by
  intro t left job h
  cases h
  exact ⟨rfl, path, rfl⟩

theorem writes_tile (p : Page) : Writes (tile p) := by
  refine writes_bind fun head => writes_bind fun mode => writes_bind fun mask => ?_
  exact writes_bind fun path => writes_still _ path

theorem writes_font (p : Page) : Writes (font p) := by
  refine writes_bind fun text => writes_bind fun head => ?_
  exact writes_bind fun path => writes_still _ path

theorem writes_screen (p : Page) : Writes (screen p) := by
  refine writes_bind fun head => ?_
  exact writes_bind fun path => writes_still _ path

theorem writes_animated (p : Page) : Writes (animated p) := by
  intro t left job h
  obtain ⟨cels, name, path, -, -, -, rfl⟩ := animated_eq_ok.1 h
  exact ⟨rfl, path, rfl⟩

end PictureJob

namespace PictureMacro

/-- The macro makes an array of tiles and not an animation. -/
def IsArray (m : PictureMacro) (arguments : Text) : Prop :=
  m = .udgarray ∧ arguments.head? ≠ some '*'

/-- **Every macro but that of an array writes its picture and keeps no frame.** -/
theorem array_or_written {p : Page} {m : PictureMacro} {arguments left : Text} {job : PictureJob}
    (h : m.handler p arguments = .ok (job, left)) :
    m.IsArray arguments ∧ PictureJob.array p arguments = .ok (job, left) ∨
      ¬m.IsArray arguments ∧ job.keepAs? = none ∧ ∃ path, job.path? = some path := by
  cases m with
  | udg => exact .inr ⟨nofun, PictureJob.writes_tile p h⟩
  | font => exact .inr ⟨nofun, PictureJob.writes_font p h⟩
  | scr => exact .inr ⟨nofun, PictureJob.writes_screen p h⟩
  | udgarray =>
    change PictureJob.arrayOrAnimation p arguments = _ at h
    rw [PictureJob.arrayOrAnimation] at h
    split at h
    · next hstar => exact .inr ⟨fun harray => harray.2 hstar, PictureJob.writes_animated p h⟩
    · next hstar => exact .inl ⟨⟨rfl, hstar⟩, h⟩

/-- The macro names a file for its picture, unless it is an array with no name in front of the star in
its brackets. -/
def NamesFile (m : PictureMacro) (arguments : Text) : Prop :=
  m.IsArray arguments → ∀ names left, PictureJob.arrayName arguments = .ok (names, left) →
    (PictureJob.arrayNames names).1 ≠ []

/-- **A macro that names a file has a path for its picture.** -/
theorem exists_path {p : Page} {m : PictureMacro} {arguments left : Text} {job : PictureJob}
    (h : m.handler p arguments = .ok (job, left)) (hnames : m.NamesFile arguments) :
    ∃ path, job.path? = some path := by
  rcases array_or_written h with ⟨hdirect, harray⟩ | ⟨-, -, hpath⟩
  · obtain ⟨names, drawing, path?, hread, rfl, hpath⟩ := PictureJob.still_of_array harray
    cases path? with
    | none => exact absurd (PictureJob.picturePath_eq_none hpath) (hnames hdirect names left hread)
    | some path => exact ⟨path, rfl⟩
  · exact hpath

end PictureMacro

end MemoryDoc
