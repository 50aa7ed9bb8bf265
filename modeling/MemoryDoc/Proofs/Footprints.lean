/-
# What macros leave alone

A macro changes its own part of a session and leaves the rest as it is, also if it fails.  The
memory is changed by the three macros that are made for it, the kept frames by an array of tiles
that gives its frame a name, and the store is used for pictures only.

The arguments of an array are read first, then its path is looked up, then its frame is drawn and
kept, and last it is written.  What was done before one of these fails stays done.

Main statement: what a macro changes, and what it leaves as it is (`run_footprint`).
-/
import MemoryDoc.Macro.PictureNames
import MemoryDoc.Proofs.Calls
import MemoryDoc.Proofs.Writing
import MemoryDoc.Store.Listed

namespace MemoryDoc

variable {σ τ : Type}

namespace Session

/-- The session with the files of another store. -/
def withFiles (s : Session σ) (files : τ) : Session τ where
  memory := s.memory
  frames := s.frames
  files := files
  events := s.events

/-- A macro does not use the store: it opens no file and encodes no frames, and with any other store
it comes to the same. -/
structure SparesStore (env : Environment σ) (cwd : Text) (m : MacroName) (arguments : Text)
    (s : Session σ) : Prop where
  files : (run env cwd m arguments s).2.files = s.files
  events : (run env cwd m arguments s).2.events = s.events
  same : ∀ {τ : Type} (store : Store τ) (encoding : PictureFormat → List Frame → Encoding)
    (files : τ), run { env.withStore store with encoding } cwd m arguments (s.withFiles files) =
      ((run env cwd m arguments s).1, (run env cwd m arguments s).2.withFiles files)

/-- A macro is an array of tiles with a name for its frame, its arguments can be read and its path is
known, and the frame can be drawn from a memory. -/
def KeepsFrame (env : Environment σ) (cwd : Text) (m : MacroName) (arguments : Text)
    (memory : Memory) (name : Text) (frame : Frame) : Prop :=
  ∃ picture names drawing path left, m = .picture picture ∧ picture.IsArray arguments ∧
    env.site.settings.pictures = true ∧ PictureJob.arrayName arguments = .ok (names, left) ∧
    (PictureJob.arrayNames names).2 = some name ∧
    PictureJob.array (page env cwd) arguments = .ok (.still drawing (some name) path, left) ∧
    drawing.frame memory = .ok frame

/-- What a macro may change: it was run in the session `s` and has left the answer and the session
`t`. -/
structure Footprint (env : Environment σ) (cwd : Text) (m : MacroName) (arguments : Text)
    (s : Session σ) (answer : Except MacroError (Text × Text)) (t : Session σ) : Prop where
  /-- Three macros change the memory. -/
  memory : m ≠ .pokes → m ≠ .pushs → m ≠ .pops → t.memory = s.memory
  /-- Saved memories are not poked. -/
  poked : m = .pokes → t.memory = s.memory.modify fun _ => t.memory.current
  /-- Memories are saved and brought back, or nothing is done. -/
  failed : m = .pushs ∨ m = .pops → (∃ e, answer = .error e) → t.memory = s.memory
  /-- A frame is kept under its name and under no other, whether or not it can be written. -/
  kept : ∀ name frame, KeepsFrame env cwd m arguments s.memory.current name frame →
    name ≠ [] ∧ t.frames.find? name = some frame ∧
      ∀ other, other ≠ name → t.frames.find? other = s.frames.find? other
  /-- Else the frames are as they were. -/
  notKept : (∀ name frame, ¬KeepsFrame env cwd m arguments s.memory.current name frame) →
    t.frames = s.frames
  /-- Whatever frames there are, a name is set among them if its frame is kept and only then. -/
  sets_iff : ∀ name frame,
    (∀ frames, (run env cwd m arguments { s with frames }).2.frames = frames.set name frame) ↔
      KeepsFrame env cwd m arguments s.memory.current name frame
  /-- The store is used for pictures only, and not if there are to be no pictures, or the arguments
  cannot be read or the path is not known. -/
  store : m.isPicture = false ∨ env.site.settings.pictures = false ∨
    (∃ picture e, m = .picture picture ∧ picture.handler (page env cwd) arguments = .error e) →
      SparesStore env cwd m arguments s

variable {env : Environment σ} {cwd arguments : Text} {m : MacroName} {s t : Session σ}
  {answer : Except MacroError (Text × Text)}

/-! ## Memory -/

/-- Only the three macros of the memory change it. -/
theorem memory_run (hrun : run env cwd m arguments s = (answer, t)) (hpokes : m ≠ .pokes)
    (hpushs : m ≠ .pushs) (hpops : m ≠ .pops) : t.memory = s.memory := by
  cases m with
  | text m =>
    cases hrun
    rfl
  | picture m => exact memory_run_picture hrun
  | pokes => exact absurd rfl hpokes
  | pushs => exact absurd rfl hpushs
  | pops => exact absurd rfl hpops

/-- Memories are saved and brought back, or left as they are. -/
theorem memory_run_of_error {e : MacroError} (hrun : run env cwd m arguments s = (.error e, t))
    (hm : m = .pushs ∨ m = .pops) : t.memory = s.memory := by
  rcases hm with rfl | rfl
  · cases hrun
  · change runPop arguments s = _ at hrun
    rw [runPop] at hrun
    split at hrun
    · cases hrun
      rfl
    · cases hrun

/-! ## Frames -/

section

variable {memory : Memory} {name : Text} {frame : Frame}

/-- A macro that keeps a frame is an array with a name for it. -/
theorem handler_of_keepsFrame (h : KeepsFrame env cwd m arguments memory name frame) :
    ∃ picture drawing path left, m = .picture picture ∧ env.site.settings.pictures = true ∧
      picture.handler (page env cwd) arguments = .ok (.still drawing (some name) path, left) ∧
      drawing.frame memory = .ok frame := by
  obtain ⟨picture, names, drawing, path, left, rfl, hdirect, hpictures, -, -, harray, hframe⟩ := h
  obtain ⟨rfl, hstar⟩ := hdirect
  refine ⟨.udgarray, drawing, path, left, rfl, hpictures, ?_, hframe⟩
  change PictureJob.arrayOrAnimation (page env cwd) arguments = _
  rw [PictureJob.arrayOrAnimation, if_neg hstar, harray]

/-- Only an array of tiles has a name for its frame, and that is the name in its brackets. -/
theorem keepsFrame_of_handler {picture : PictureMacro} {drawing : Drawing} {path : Option Text}
    {left : Text} (hpictures : env.site.settings.pictures = true)
    (h : picture.handler (page env cwd) arguments = .ok (.still drawing (some name) path, left))
    (hframe : drawing.frame memory = .ok frame) :
    KeepsFrame env cwd (.picture picture) arguments memory name frame := by
  rcases PictureMacro.array_or_written h with ⟨hdirect, harray⟩ | ⟨-, hkeepAs, -⟩
  · obtain ⟨names, _, _, hnames, hjob, -⟩ := PictureJob.still_of_array harray
    obtain ⟨-, hname, -⟩ := PictureJob.still.inj hjob
    exact ⟨picture, names, drawing, path, left, rfl, hdirect, hpictures, hnames, hname.symm, harray,
      hframe⟩
  · cases hkeepAs

/-- A frame is kept under a name that is not empty. -/
theorem name_ne_of_keepsFrame (h : KeepsFrame env cwd m arguments memory name frame) :
    name ≠ [] := by
  obtain ⟨_, names, _, _, _, -, -, -, -, hname, -⟩ := h
  rintro rfl
  exact PictureJob.arrayNames_snd_ne names hname

end

/-- **A frame that is kept is in its place, and all others are as before.** -/
theorem frames_of_keepsFrame {name : Text} {frame : Frame}
    (hrun : run env cwd m arguments s = (answer, t))
    (h : KeepsFrame env cwd m arguments s.memory.current name frame) :
    t.frames = s.frames.set name frame := by
  obtain ⟨picture, drawing, path, left, rfl, hpictures, hhandler, hframe⟩ := handler_of_keepsFrame h
  rcases run_picture_eq hrun with
    ⟨-, -, hoff | ⟨e, herror⟩⟩ | ⟨job, rest, _, -, hjob, hperforming, -⟩
  · rw [hpictures] at hoff
    cases hoff
  · rw [hhandler] at herror
    cases herror
  · rw [hhandler] at hjob
    cases hjob
    rw [hperforming.frames_eq, keepFor, hframe]
    rfl

/-- The frame is found under its name, and every other name finds what it found before. -/
theorem find?_of_keepsFrame {name : Text} {frame : Frame}
    (hrun : run env cwd m arguments s = (answer, t))
    (h : KeepsFrame env cwd m arguments s.memory.current name frame) :
    t.frames.find? name = some frame ∧
      ∀ other, other ≠ name → t.frames.find? other = s.frames.find? other := by
  have hset := fun other => Dictionary.find?_set s.frames name other frame
  rw [frames_of_keepsFrame hrun h]
  refine ⟨?_, fun other hother => ?_⟩
  · rw [hset, if_pos rfl]
  · rw [hset, if_neg hother]

/-- No frame changes if none is kept. -/
theorem frames_of_not_keepsFrame (hrun : run env cwd m arguments s = (answer, t))
    (h : ∀ name frame, ¬KeepsFrame env cwd m arguments s.memory.current name frame) :
    t.frames = s.frames := by
  cases hm : m.isPicture with
  | false => rw [run_other_eq hm hrun]
  | true =>
    cases m with
    | picture picture =>
      rcases run_picture_eq hrun with ⟨rfl, -⟩ | ⟨job, rest, _, hpictures, hjob, hperforming, -⟩
      · rfl
      · rw [hperforming.frames_eq]
        cases job with
        | animation cels text path => rfl
        | still drawing keepAs path =>
          rw [keepFor]
          cases hframe : drawing.frame s.memory.current with
          | error e => rfl
          | ok frame =>
            -- A frame that was made for a name would have been kept.
            cases keepAs with
            | none => rfl
            | some name => exact absurd (keepsFrame_of_handler hpictures hjob hframe) (h name frame)
    | _ => cases hm

/-- Whatever frames there are, a name is set among them if its frame is kept and only then. -/
theorem sets_iff_keepsFrame {name : Text} {frame : Frame} :
    (∀ frames, (run env cwd m arguments { s with frames }).2.frames = frames.set name frame) ↔
      KeepsFrame env cwd m arguments s.memory.current name frame := by
  constructor
  · intro h
    by_cases hkept : ∃ name frame, KeepsFrame env cwd m arguments s.memory.current name frame
    · obtain ⟨name', frame', hkept⟩ := hkept
      have hset : Dictionary.set [] name' frame' = Dictionary.set [] name frame :=
        (frames_of_keepsFrame (s := { s with frames := [] }) rfl hkept).symm.trans (h [])
      cases hset
      exact hkept
    · have hset : [] = Dictionary.set [] name frame :=
        (frames_of_not_keepsFrame (s := { s with frames := [] }) rfl
          fun name frame hk => hkept ⟨name, frame, hk⟩).symm.trans (h [])
      cases hset
  · exact fun h frames => frames_of_keepsFrame (s := { s with frames }) rfl h

/-! ## The store -/

/-- A macro that fails before it has anything to do for a picture fails the same with any store. -/
theorem run_withStore_eq_error {picture : PictureMacro}
    (h : env.site.settings.pictures = false ∨
      ∃ e, picture.handler (page env cwd) arguments = .error e) :
    ∃ e, ∀ {τ : Type} (store : Store τ) (encoding : PictureFormat → List Frame → Encoding)
      (s : Session τ), run { env.withStore store with encoding } cwd (.picture picture) arguments s =
        (.error e, s) := by
  cases hpictures : env.site.settings.pictures with
  | false =>
    refine ⟨.unsupported, fun store encoding s => ?_⟩
    change runPicture _ cwd picture arguments s = _
    rw [runPicture, Environment.withStore, hpictures]
    rfl
  | true =>
    obtain ⟨e, he⟩ : ∃ e, picture.handler (page env cwd) arguments = .error e := by
      rcases h with h | h
      · rw [hpictures] at h
        cases h
      · exact h
    refine ⟨e, fun store encoding s => ?_⟩
    have he' : picture.handler (page { env.withStore store with encoding } cwd) arguments =
        .error e := he
    change runPicture _ cwd picture arguments s = _
    rw [runPicture, he', Environment.withStore, hpictures]
    rfl

/-- A picture macro that shows nothing, or cannot be read, leaves the files alone. -/
theorem sparesStore_picture {picture : PictureMacro}
    (h : env.site.settings.pictures = false ∨
      ∃ e, picture.handler (page env cwd) arguments = .error e) :
    SparesStore env cwd (.picture picture) arguments s := by
  obtain ⟨e, hfails⟩ := run_withStore_eq_error h
  have hrun : run env cwd (.picture picture) arguments s = (.error e, s) :=
    hfails env.store env.encoding s
  exact ⟨by rw [hrun], by rw [hrun], fun store encoding files => by rw [hrun, hfails]⟩

/-- A pop does not depend on the files. -/
theorem runPop_withFiles {files : τ} :
    runPop arguments (s.withFiles files) =
      ((runPop arguments s).1, (runPop arguments s).2.withFiles files) := by
  have hmemory : (s.withFiles files).memory = s.memory := rfl
  unfold runPop
  rw [hmemory]
  cases s.memory.pop <;> rfl

/-- A macro that makes no picture leaves the files alone. -/
theorem sparesStore_other (hm : m.isPicture = false) : SparesStore env cwd m arguments s := by
  cases hrun : run env cwd m arguments s with
  | mk answer t =>
    have hother := run_other_eq hm hrun
    refine ⟨by rw [hrun, hother], by rw [hrun, hother], fun store encoding files => ?_⟩
    cases m with
    | picture m => cases hm
    | text m => rfl
    | pokes => rfl
    | pushs => rfl
    | pops => exact runPop_withFiles

/-! ## All parts -/

/-- **A macro changes its own part of a session and nothing else, also if it fails.** -/
theorem run_footprint (env : Environment σ) (cwd : Text) (m : MacroName) (arguments : Text)
    (s : Session σ) :
    Footprint env cwd m arguments s (run env cwd m arguments s).1
      (run env cwd m arguments s).2 where
  memory := memory_run rfl
  poked hm := by
    subst hm
    rfl
  failed hm := fun ⟨e, he⟩ => memory_run_of_error (Prod.ext he rfl) hm
  kept _ _ h := ⟨name_ne_of_keepsFrame h, find?_of_keepsFrame rfl h⟩
  notKept := frames_of_not_keepsFrame rfl
  sets_iff _ _ := sets_iff_keepsFrame
  store h := by
    rcases h with hm | hpictures | ⟨picture, e, rfl, he⟩
    · exact sparesStore_other hm
    · cases m with
      | picture picture => exact sparesStore_picture (.inl hpictures)
      | _ => exact sparesStore_other rfl
    · exact sparesStore_picture (.inr ⟨e, he⟩)

/-- The environment in which a picture of tiles cannot be written. -/
def closedTiles : Environment (List Text) :=
  .usual ({ closed := ["images/udgs/a.png".toList] } : Store.Listed).store

/-- The drawing of the tile at address zero. -/
def firstTile : Drawing where
  source := .tiles 1 [⟨56, 0, 1, 0, none⟩]
  scale := 2
  crop := {}

/-- An array that cannot be written fails, and keeps its frame all the same. -/
theorem run_footprint_unwritten :
    (run closedTiles [] (.picture .udgarray) "1;0(a*b)" (start .zeros [])).1.toOption = none ∧
      ∃ frame, KeepsFrame closedTiles [] (.picture .udgarray) "1;0(a*b)" .zeros "b" frame ∧
        (run closedTiles [] (.picture .udgarray) "1;0(a*b)" (start .zeros [])).2.frames.find? "b" =
          some frame := by
  have hnames : PictureJob.arrayName "1;0(a*b)" = .ok ("a*b".toList, []) :=
    eq_ok_of_toOption (by decide +kernel)
  have hjob : PictureJob.array (page closedTiles []) "1;0(a*b)" =
      .ok (.still firstTile (some "b".toList) (some "images/udgs/a.png".toList), []) :=
    eq_ok_of_toOption (by decide +kernel)
  have hdrawn : (firstTile.frame .zeros).toOption.isSome = true := by decide +kernel
  obtain ⟨frame, hframe⟩ := Option.isSome_iff_exists.1 hdrawn
  have hkeeps : KeepsFrame closedTiles [] (.picture .udgarray) "1;0(a*b)" .zeros "b" frame :=
    ⟨.udgarray, _, firstTile, _, [], rfl, ⟨rfl, by decide⟩, rfl, hnames, rfl, hjob,
      eq_ok_of_toOption hframe⟩
  have hfootprint := run_footprint closedTiles [] (.picture .udgarray) "1;0(a*b)" (start .zeros [])
  exact ⟨by decide +kernel, frame, hkeeps, (hfootprint.kept _ _ hkeeps).2.1⟩

end Session

end MemoryDoc
