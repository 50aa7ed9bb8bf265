/-
# Animations

An animation is written as the names of frames that were kept, each with a delay or without one.  A
frame is shown for the delay that was given last, and the frames that are kept stay as they are.

Main statement: what an animation writes, and that nothing is opened if a part of it cannot be shown
(`run_animation`).
-/
import MemoryDoc.Macro.Address
import MemoryDoc.Macro.Lookahead
import MemoryDoc.Proofs.Calls
import MemoryDoc.Proofs.PrintedParameters
import MemoryDoc.Proofs.Writing
import MemoryDoc.Site.PicturePath
import MemoryDoc.Store.Listed

namespace MemoryDoc

/-! ## Cuts at the last separator -/

namespace Text

variable {sep : Char} {t : Text}

/-- A text without the separator is not cut. -/
theorem cutLast_of_not_mem (h : sep ∉ t) : cutLast sep t = none := by
  rw [cutLast, cut_of_not_mem fun hmem => h (List.mem_reverse.1 hmem)]
  rfl

/-- A text is cut at the last separator. -/
theorem cutLast_append (before : Text) (h : sep ∉ t) :
    cutLast sep (before ++ sep :: t) = some (before, t) := by
  have hreverse : (before ++ sep :: t).reverse = t.reverse ++ sep :: before.reverse := by simp
  rw [cutLast, hreverse, cut_append fun hmem => h (List.mem_reverse.1 hmem)]
  simp

end Text

namespace PictureJob

/-! ## Parts of animations -/

/-- A part of an animation as it is written: the name of a frame, and a delay if one is given. -/
structure WrittenCel where
  name : Text
  delay : Option Text
  chars_name : ∀ c ∈ name, isCelChar c = true ∧ c ≠ ';'
  chars_delay : ∀ raw ∈ delay, ∀ c ∈ raw, isCelChar c = true ∧ c ≠ ';' ∧ c ≠ ','
  /-- A name with a comma would be read as a name with a delay. -/
  comma_name : delay = none → ',' ∉ name

namespace WrittenCel

/-- The part as it is written. -/
def text (cel : WrittenCel) : Text :=
  cel.name ++ cel.delay.elim [] (',' :: ·)

/-- The number that is given as delay. -/
def delay? (cel : WrittenCel) : Option UInt32 :=
  cel.delay.bind Numeral.parse?

/-- The part names a frame that is kept, and its delay is a number if it is given. -/
structure Plays (kept : Dictionary Frame) (cel : WrittenCel) : Prop where
  name_ne_nil : cel.name ≠ []
  find?_ne_none : kept.find? cel.name ≠ none
  parse?_ne_none : ∀ raw ∈ cel.delay, Numeral.parse? raw ≠ none

/-- The delay of the part, if it is given and no number. -/
def badDelay? (cel : WrittenCel) : Option Text :=
  cel.delay.filter fun raw => (Numeral.parse? raw).isNone

/-- What is wrong with the part. -/
def fault? (kept : Dictionary Frame) (arguments : Text) (cel : WrittenCel) : Option Fault :=
  match cel.badDelay? with
  | some raw => some (.badDelay raw)
  | none =>
    if cel.name = [] then some (.noFrameName arguments)
    else
      match kept.find? cel.name with
      | none => some (.unknownFrame cel.name)
      | some _ => none

end WrittenCel

variable {kept : Dictionary Frame} {arguments : Text} {cel : WrittenCel} {fault : Fault}

namespace WrittenCel

/-- A delay is no reason to fail if it can be read or there is none. -/
theorem badDelay?_eq_none :
    cel.badDelay? = none ↔ ∀ raw ∈ cel.delay, Numeral.parse? raw ≠ none := by
  simp [badDelay?, Option.filter_eq_none_iff]

/-- Nothing is wrong with a part exactly when it plays. -/
theorem fault?_eq_none : cel.fault? kept arguments = none ↔ cel.Plays kept := by
  unfold fault?
  constructor
  · intro h
    split at h
    · cases h
    next hdelay =>
    split at h
    · cases h
    next hname =>
    split at h
    · cases h
    next hfind =>
    exact ⟨hname, by simp [hfind], badDelay?_eq_none.1 hdelay⟩
  · rintro ⟨hname, hfind, hdelay⟩
    obtain ⟨frame, hframe⟩ := Option.ne_none_iff_exists'.1 hfind
    simp only [badDelay?_eq_none.2 hdelay, if_neg hname, hframe]

/-- A part is read as its name, with its own delay or that of the part before. -/
theorem cel_text (cel : WrittenCel) (delay : UInt32) :
    PictureJob.cel delay cel.text =
      match cel.badDelay? with
      | some raw => .error (.badDelay raw)
      | none => .ok (cel.name, cel.delay?.getD delay) := by
  unfold PictureJob.cel text badDelay? delay?
  cases hdelay : cel.delay with
  | none =>
    have hcut := Text.cutLast_of_not_mem (cel.comma_name hdelay)
    simp [hcut]
  | some raw =>
    have hcomma : ',' ∉ raw := fun hmem => (cel.chars_delay raw hdelay ',' hmem).2.2 rfl
    have hcut := Text.cutLast_append cel.name hcomma
    cases hparse : Numeral.parse? raw <;> simp [hcut, hparse, Option.filter]

/-- **What a part does:** an animation fails if something is wrong with it, and else shows its frame
for its own delay or that of the part before. -/
theorem frames_text (cel : WrittenCel) (kept : Dictionary Frame) (arguments : Text)
    (delay : UInt32) (parts : List Text) :
    (∀ fault, cel.fault? kept arguments = some fault →
      frames kept arguments delay (cel.text :: parts) = .error fault) ∧
    (cel.fault? kept arguments = none → ∃ frame, kept.find? cel.name = some frame ∧
      frames kept arguments delay (cel.text :: parts) =
        (frames kept arguments (cel.delay?.getD delay) parts).map
          (frame.withDelay (cel.delay?.getD delay) :: ·)) := by
  rw [frames_cons, cel_text]
  unfold fault?
  cases cel.badDelay? with
  | some raw => simp
  | none =>
    by_cases hname : cel.name = []
    · simp [hname]
    · cases hfind : kept.find? cel.name <;> simp [hname, hfind]

/-! ## All parts -/

/-- The delay for which the part at a place is shown: the last one that is given up to there, or
`default` if none is. -/
def delayAt (default : UInt32) (cels : List WrittenCel) (i : Nat) : UInt32 :=
  ((cels.take (i + 1)).filterMap (·.delay?)).getLast?.getD default

/-- The frames are those that the parts name, each with the delay for which it is shown. -/
structure Shows (kept : Dictionary Frame) (default : UInt32) (cels : List WrittenCel)
    (shown : List Frame) : Prop where
  length_eq : shown.length = cels.length
  getElem?_eq : ∀ i (h : i < cels.length), ∃ frame, kept.find? cels[i].name = some frame ∧
    shown[i]? = some { frame with delay := delayAt default cels i }

variable {cels : List WrittenCel} {shown : List Frame}

/-- The first cel has its own delay, or else that of the animation. -/
theorem delayAt_zero (default : UInt32) (cel : WrittenCel) (cels : List WrittenCel) :
    delayAt default (cel :: cels) 0 = cel.delay?.getD default := by
  cases h : cel.delay? <;> simp [delayAt, h]

/-- A part behind the first is shown as if the delay of the first were the default. -/
theorem delayAt_succ (default : UInt32) (cel : WrittenCel) (cels : List WrittenCel) (i : Nat) :
    delayAt default (cel :: cels) (i + 1) = delayAt (cel.delay?.getD default) cels i := by
  cases h : cel.delay? with
  | none => simp [delayAt, h]
  | some delay =>
    simp only [delayAt, List.take_succ_cons, List.filterMap_cons, h, Option.getD_some,
      List.getLast?_cons]

/-- One more cel in front shows its frame, and hands its delay on. -/
theorem Shows.cons {default : UInt32} {frame : Frame}
    (hfind : kept.find? cel.name = some frame)
    (h : Shows kept (cel.delay?.getD default) cels shown) :
    Shows kept default (cel :: cels) (frame.withDelay (cel.delay?.getD default) :: shown) where
  length_eq := congrArg (· + 1) h.length_eq
  getElem?_eq i hi := by
    cases i with
    | zero => exact ⟨frame, hfind, by rw [delayAt_zero]; rfl⟩
    | succ i =>
      obtain ⟨frame, hframe, hshown⟩ := h.getElem?_eq i (Nat.lt_of_succ_lt_succ hi)
      exact ⟨frame, hframe, by rw [delayAt_succ]; exact hshown⟩

/-- **Parts that all play are shown,** each with the last delay that is given up to there. -/
theorem frames_of_plays (h : ∀ cel ∈ cels, cel.Plays kept) (arguments : Text) (delay : UInt32) :
    ∃ shown, frames kept arguments delay (cels.map (·.text)) = .ok shown ∧
      Shows kept delay cels shown := by
  induction cels generalizing delay with
  | nil => exact ⟨[], rfl, rfl, nofun⟩
  | cons cel cels ih =>
    obtain ⟨frame, hframe, hframes⟩ :=
      (cel.frames_text kept arguments delay (cels.map (·.text))).2
        (fault?_eq_none.2 (h cel List.mem_cons_self))
    obtain ⟨shown, hrest, hshows⟩ := ih (fun cel hcel => h cel (List.mem_cons_of_mem _ hcel))
      (cel.delay?.getD delay)
    -- The others are shown as if the delay of this part had been the default.
    refine ⟨frame.withDelay (cel.delay?.getD delay) :: shown, ?_, hshows.cons hframe⟩
    rw [List.map_cons, hframes, hrest]
    rfl

/-- **An animation fails as the first part with which something is wrong.** -/
theorem frames_of_fault (h : cels.findSome? (·.fault? kept arguments) = some fault)
    (delay : UInt32) : frames kept arguments delay (cels.map (·.text)) = .error fault := by
  induction cels generalizing delay with
  | nil => cases h
  | cons cel cels ih =>
    obtain ⟨hfails, hgoes⟩ := cel.frames_text kept arguments delay (cels.map (·.text))
    rw [List.findSome?_cons] at h
    cases hfault : cel.fault? kept arguments with
    | some fault =>
      rw [hfault] at h
      cases h
      exact hfails fault hfault
    | none =>
      rw [hfault] at h
      obtain ⟨frame, -, hframes⟩ := hgoes hfault
      rw [List.map_cons, hframes, ih h]
      rfl

/-- One cel that cannot be shown is enough to fail. -/
theorem exists_fault (h : ∃ cel ∈ cels, ¬ cel.Plays kept) (arguments : Text) :
    ∃ fault, cels.findSome? (·.fault? kept arguments) = some fault := by
  obtain ⟨cel, hcel, hplays⟩ := h
  have hfault : cel.fault? kept arguments ≠ none := fun hnone => hplays (fault?_eq_none.1 hnone)
  exact Option.isSome_iff_exists.1
    (List.findSome?_isSome_iff.2 ⟨cel, hcel, Option.isSome_iff_ne_none.2 hfault⟩)

/-! ## The text of an animation -/

/-- The parts of an animation as they are written. -/
def textOf (cels : List WrittenCel) : Text :=
  Text.join ";" (cels.map (·.text))

theorem chars_text {c : Char} (hc : c ∈ cel.text) : isCelChar c = true ∧ c ≠ ';' := by
  unfold text at hc
  rcases List.mem_append.1 hc with hc | hc
  · exact cel.chars_name c hc
  · cases hdelay : cel.delay with
    | none =>
      rw [hdelay] at hc
      cases hc
    | some raw =>
      rw [hdelay] at hc
      rcases List.mem_cons.1 hc with rfl | hc
      · decide
      · obtain ⟨hchar, hsemicolon, -⟩ := cel.chars_delay raw hdelay c hc
        exact ⟨hchar, hsemicolon⟩

/-- Cels are written with characters that cels have. -/
theorem isCelChar_of_mem_textOf {c : Char} (hc : c ∈ textOf cels) : isCelChar c = true := by
  rcases Text.mem_join hc with hc | ⟨t, ht, hc⟩
  · rw [List.mem_singleton.1 hc]
    decide
  · obtain ⟨cel, -, rfl⟩ := List.mem_map.1 ht
    exact (chars_text hc).1

/-- The semicolons are those between the parts. -/
theorem splitOn_textOf (hcels : cels ≠ []) : (textOf cels).splitOn ';' = cels.map (·.text) := by
  refine List.splitOn_intercalate ';' (fun t ht => ?_) (by simpa using hcels)
  obtain ⟨cel, -, rfl⟩ := List.mem_map.1 ht
  exact fun hc => (chars_text hc).2 rfl

end WrittenCel

/-- The arguments of an animation as they are written. -/
def animationText (cels : List WrittenCel) (fileName : Text) : Text :=
  '*' :: (WrittenCel.textOf cels ++ Parameter.inBrackets fileName)

/-- The text of an animation is read as its cels and the name of its file. -/
theorem readString_animationText (cels : List WrittenCel) {fileName : Text}
    (h : fileName.Balanced) (rest : Text) :
    Parameter.readString isCelChar (animationText cels fileName ++ rest) =
      .ok (('*' :: WrittenCel.textOf cels, some fileName), rest) := by
  have htext : animationText cels fileName ++ rest =
      ('*' :: WrittenCel.textOf cels) ++ '(' :: (fileName ++ ')' :: rest) := by
    simp [animationText, Parameter.inBrackets]
  have hchars : ∀ c ∈ '*' :: WrittenCel.textOf cels, isCelChar c = true := by
    intro c hc
    rcases List.mem_cons.1 hc with rfl | hc
    · decide
    · exact WrittenCel.isCelChar_of_mem_textOf hc
  rw [Parameter.readString_eq, htext]
  refine Reader.bind_eq_ok.2 ⟨_, _, Reader.readWhile_append hchars (by decide) _, ?_⟩
  exact Reader.bind_eq_ok.2 ⟨_, _, Reader.optionalBracketed_append h rest, rfl⟩

/-- **A written animation is read,** whatever follows it. -/
theorem handler_animationText {p : Page} (cels : List WrittenCel) {fileName path : Text}
    (hname : fileName ≠ []) (hbalanced : fileName.Balanced)
    (hpath : p.site.picturePath fileName Site.tileDirectory = .ok (some path)) (rest : Text) :
    PictureMacro.udgarray.handler p (animationText cels fileName ++ rest) =
      .ok (.animation (WrittenCel.textOf cels) (animationText cels fileName) path, rest) := by
  show arrayOrAnimation p _ = _
  have hstar : (animationText cels fileName ++ rest).head? = some '*' := rfl
  have hread : pathOr p (some fileName) [] Site.tileDirectory rest = .ok (path, rest) := by
    have horElse : Site.orElse ((some fileName).getD []) [] = fileName := if_neg hname
    refine Reader.bind_eq_ok.2 ⟨some path, rest, Handler.ofLink_eq_ok.2 ⟨?_, rfl⟩, rfl⟩
    rw [horElse, hpath]
  rw [arrayOrAnimation, if_pos hstar]
  refine animated_eq_ok.2 ⟨_, fileName, path, readString_animationText cels hbalanced rest, hname,
    hread, ?_⟩
  simp [Text.consumed]

end PictureJob

namespace Session

open PictureJob (WrittenCel animationText animationFrames isCelChar)

variable {σ : Type} {env : Environment σ} {fileName path : Text} {s : Session σ}
  {cels : List WrittenCel}

/-- An animation whose picture is needed is run by writing its frames. -/
theorem run_animationText (cwd : Text) (hpictures : env.site.settings.pictures = true)
    (hcels : cels ≠ []) (hname : fileName ≠ []) (hbalanced : fileName.Balanced)
    (hpath : env.site.picturePath fileName Site.tileDirectory = .ok (some path))
    (hneeds : env.store.needs s.files path = true) (rest : Text) :
    run env cwd (.picture .udgarray) (animationText cels fileName ++ rest) s =
      match PictureJob.frames s.frames (animationText cels fileName) Frame.defaultDelay
        (cels.map (·.text)) with
      | .error fault => (.error (.fault fault), s)
      | .ok frames =>
        ((write env path frames s).1.mapError MacroError.picture |>.map fun _ =>
          (Site.pictureElement cwd path, rest), (write env path frames s).2) := by
  have hhandler := PictureJob.handler_animationText (p := page env cwd) cels hname hbalanced hpath rest
  show runPicture env cwd .udgarray _ s = _
  rw [runPicture, if_pos hpictures, hhandler]
  simp only [perform, if_pos hneeds, animationFrames, WrittenCel.splitOn_textOf hcels]
  cases PictureJob.frames s.frames (animationText cels fileName) Frame.defaultDelay
    (cels.map (·.text)) with
  | error fault => rfl
  | ok frames =>
    simp only [writeFor]
    cases hwrite : write env path frames s with
    | mk answer t => cases answer <;> rfl

section

variable {format : PictureFormat} {files : σ}
  (hformat : PictureFormat.ofPath? path = some format)

include hformat

/-- Where a file cannot be opened, nothing is encoded, and only the files may have changed. -/
theorem write_of_closed (frames : List Frame) {reason : Text}
    (hopen : env.store.openFile s.files path = (.error reason, files)) :
    write env path frames s = (.error (.unwritable path reason), { s with files }) := by
  simp only [write, hformat, hopen]

/-- Frames are encoded once for a file that can be opened, and the file is finished if they could be
written. -/
theorem write_of_opened {frames : List Frame} {outcome : Except PictureError (List Piece)}
    {files' : σ}
    (hopen : env.store.openFile s.files path = (.ok (), files))
    (hencode : env.store.encode path files (env.encoding format frames) = (outcome, files')) :
    (write env path frames s).2.events =
        s.events ++ [.opened path, .encoded path format frames outcome] ∧
      ((write env path frames s).1 = .ok () ↔
        (∃ pieces, outcome = .ok pieces) ∧ (env.store.flush files' path).1 = .ok ()) := by
  have hopened : env.store.encode path ({ s with files }.record (.opened path)).files
      (env.encoding format frames) = (outcome, files') := hencode
  simp only [write, hformat, hopen, encode, hopened]
  cases outcome with
  | error e => simp [finish, record]
  | ok pieces =>
    cases hflush : env.store.flush files' path with
    | mk finished files'' => cases finished <;> simp [finish, record, hflush]

end

/-- **Animations show the frames that are kept, in order, each for the delay that is given last.** -/
theorem run_animation (env : Environment σ) (cwd : Text) (s : Session σ) (cels : List WrittenCel)
    (hcels : cels ≠ []) (fileName : Text) (hname : fileName ≠ []) (hbalanced : fileName.Balanced)
    (hpictures : env.site.settings.pictures = true) (path : Text)
    (hpath : env.site.picturePath fileName Site.tileDirectory = .ok (some path))
    (hneeds : env.store.needs s.files path = true) (rest : Text) :
    ((∀ cel ∈ cels, cel.Plays s.frames) →
      ∃ format shown answer t, PictureFormat.ofPath? path = some format ∧
        WrittenCel.Shows s.frames 32 cels shown ∧
        run env cwd (.picture .udgarray) (animationText cels fileName ++ rest) s = (answer, t) ∧
        t.frames = s.frames ∧ t.memory = s.memory ∧
        (∀ reason files, env.store.openFile s.files path = (.error reason, files) →
          answer = .error (.picture (.unwritable path reason)) ∧ t.events = s.events) ∧
        (∀ files outcome files', env.store.openFile s.files path = (.ok (), files) →
          env.store.encode path files (env.encoding format shown) = (outcome, files') →
          t.events = s.events ++ [.opened path, .encoded path format shown outcome] ∧
          (answer = .ok (Site.pictureElement cwd path, rest) ↔
            (∃ pieces, outcome = .ok pieces) ∧ (env.store.flush files' path).1 = .ok ()))) ∧
    ((∃ cel ∈ cels, ¬ cel.Plays s.frames) →
      ∃ fault, cels.findSome? (·.fault? s.frames (animationText cels fileName)) = some fault ∧
        run env cwd (.picture .udgarray) (animationText cels fileName ++ rest) s =
          (.error (.fault fault), s)) := by
  have hrun := run_animationText cwd hpictures hcels hname hbalanced hpath hneeds rest
  refine ⟨fun hplays => ?_, fun hplays => ?_⟩
  · obtain ⟨shown, hframes, hshows⟩ :=
      WrittenCel.frames_of_plays hplays (animationText cels fileName) Frame.defaultDelay
    obtain ⟨format, hformat⟩ := Option.isSome_iff_exists.1 (Site.isSome_ofPath?_of_picturePath hpath)
    rw [hframes] at hrun
    -- All cels have frames, so what is left is to write them.
    have hwriting : Writing env path shown s _ _ := writing_of_write (Prod.eta _).symm
    refine ⟨format, shown, _, _, hformat, hshows, hrun, hwriting.frames_eq, hwriting.memory, ?_, ?_⟩
    · intro reason files hopen
      rw [write_of_closed hformat shown hopen]
      exact ⟨rfl, rfl⟩
    · intro files outcome files' hopen hencode
      obtain ⟨hevents, hdone⟩ := write_of_opened hformat hopen hencode
      refine ⟨hevents, Iff.trans ?_ hdone⟩
      cases (write env path shown s).1 <;> simp [Except.mapError, Except.map]
  · obtain ⟨fault, hfault⟩ := WrittenCel.exists_fault hplays (animationText cels fileName)
    rw [WrittenCel.frames_of_fault hfault] at hrun
    exact ⟨fault, hfault, hrun⟩

/-- A black square. -/
def square (side : Nat) : Frame where
  tiles := []
  scale := 1
  mask := .ignored
  x := 0
  y := 0
  width := side
  height := side
  fullWidth := side
  fullHeight := side
  delay := 32

/-- The session in which two squares are kept. -/
def squares : Session (List Text) :=
  { start .zeros [] with frames := [("a", square 1), ("b", square 2)] }

/-- Three parts, the second of which is shown as long as the first. -/
def blinking : List WrittenCel :=
  [⟨"a", some "10".toList, by simp [isCelChar], by simp [isCelChar], by decide⟩,
    ⟨"b", none, by simp [isCelChar], by simp [isCelChar], by decide⟩,
    ⟨"a", some "50".toList, by simp [isCelChar], by simp [isCelChar], by decide⟩]

/-- A frame that is kept, and one that is not. -/
def broken : List WrittenCel :=
  [⟨"a", some "10".toList, by simp [isCelChar], by simp [isCelChar], by decide⟩,
    ⟨"c", none, by simp [isCelChar], by simp [isCelChar], by decide⟩]

/-- The second cel takes the delay of the first, and a cel that is unknown stops the animation
before a file is opened. -/
theorem run_animation_blinking :
    (∃ format shown answer t, PictureFormat.ofPath? "images/udgs/anim.gif" = some format ∧
      WrittenCel.Shows squares.frames 32 blinking shown ∧
      run (.usual ({} : Store.Listed).store) [] (.picture .udgarray) "*a,10;b;a,50(anim.gif)."
        squares = (answer, t) ∧
      t.frames = squares.frames ∧
      ∃ outcome, t.events = [.opened "images/udgs/anim.gif",
        .encoded "images/udgs/anim.gif" format shown outcome]) ∧
    run (.usual ({} : Store.Listed).store) [] (.picture .udgarray) "*a,10;c(anim.gif)." squares =
      (.error (.fault (.unknownFrame "c")), squares) := by
  have hpath : (Environment.usual ({} : Store.Listed).store).site.picturePath "anim.gif"
      Site.tileDirectory = .ok (some "images/udgs/anim.gif") := rfl
  have hbalanced : Text.Balanced "anim.gif" :=
    Text.balanced_of_not_mem (by decide) (by decide)
  constructor
  · have hnone : ∀ cel ∈ blinking, cel.fault? squares.frames [] = none := by decide +kernel
    have hplays : ∀ cel ∈ blinking, cel.Plays squares.frames :=
      fun cel hcel => WrittenCel.fault?_eq_none.1 (hnone cel hcel)
    obtain ⟨format, shown, answer, t, hformat, hshows, hrun, hframes, -, -, hopened⟩ :=
      (run_animation (.usual ({} : Store.Listed).store) [] squares blinking nofun "anim.gif" nofun
        hbalanced rfl _ hpath rfl ".").1 hplays
    exact ⟨format, shown, answer, t, hformat, hshows, hrun, hframes,
      _, (hopened _ _ _ rfl rfl).1⟩
  · have hbroken : ∃ cel ∈ broken, ¬ cel.Plays squares.frames :=
      ⟨_, List.mem_cons_of_mem _ List.mem_cons_self, fun hplays => hplays.find?_ne_none rfl⟩
    obtain ⟨fault, hfault, hrun⟩ :=
      (run_animation (.usual ({} : Store.Listed).store) [] squares broken nofun "anim.gif" nofun
        hbalanced rfl _ hpath rfl ".").2 hbroken
    have hunknown : broken.findSome? (·.fault? squares.frames
        (animationText broken "anim.gif")) = some (.unknownFrame "c") := by decide +kernel
    cases hfault.symm.trans hunknown
    exact hrun

end Session

end MemoryDoc
