/-
# Ways to write a picture

There are few ways in which frames are written to a file, a picture job is done, and a macro that
makes a picture is run.  Here each way is listed once, with what it leaves of the session.

Main statements: what writing frames to a file (`writing_of_write`), doing a picture job
(`performing_of_perform`) and running a macro that makes a picture (`run_picture_eq`) come to, and
that no other macro uses the store (`run_other_eq`).
-/
import MemoryDoc.Expansion

namespace MemoryDoc.Session

variable {σ : Type}

/-- The session in which a path was opened and frames were encoded for it, with the files as they
are then. -/
def encoded (s : Session σ) (files : σ) (path : Text) (format : PictureFormat)
    (frames : List Frame) (outcome : Except PictureError (List Piece)) : Session σ :=
  { s with files, events := s.events ++ [.opened path, .encoded path format frames outcome] }

/-! ## Frames -/

/-- The ways in which frames are written to a file: the answer, and the session that is left. -/
inductive Writing (env : Environment σ) (path : Text) (frames : List Frame) (s : Session σ) :
    Except PictureError Unit → Session σ → Prop where
  /-- The name of the file tells no format. -/
  | unsupported (hformat : PictureFormat.ofPath? path = none) :
      Writing env path frames s (.error (.unsupportedFormat path)) s
  /-- The file cannot be opened. -/
  | closed {reason : Text} {files : σ}
      (hopen : env.store.openFile s.files path = (.error reason, files)) :
      Writing env path frames s (.error (.unwritable path reason)) { s with files }
  /-- The file is opened, but the frames cannot be encoded or written. -/
  | refused {format : PictureFormat} {e : PictureError} {files files' : σ}
      (hformat : PictureFormat.ofPath? path = some format)
      (hopen : env.store.openFile s.files path = (.ok (), files))
      (hencode : env.store.encode path files (env.encoding format frames) = (.error e, files')) :
      Writing env path frames s (.error e) (s.encoded files' path format frames (.error e))
  /-- The file is opened and the frames are written.  Finishing it may fail. -/
  | written {format : PictureFormat} {pieces : List Piece} {files files' files'' : σ}
      {finished : Except Text Unit} (hformat : PictureFormat.ofPath? path = some format)
      (hopen : env.store.openFile s.files path = (.ok (), files))
      (hencode : env.store.encode path files (env.encoding format frames) = (.ok pieces, files'))
      (hflush : env.store.flush files' path = (finished, files'')) :
      Writing env path frames s (finished.mapError (.unwritable path))
        (s.encoded files'' path format frames (.ok pieces))

variable {env : Environment σ} {path : Text} {frames : List Frame} {s t : Session σ}

/-- **Frames are written in one of these ways.** -/
theorem writing_of_write {answer : Except PictureError Unit}
    (h : write env path frames s = (answer, t)) : Writing env path frames s answer t := by
  rw [write] at h
  -- The format is checked first, then the file is opened, then the frames are encoded.
  split at h
  · next hformat =>
    cases h
    exact .unsupported hformat
  · next format hformat =>
    split at h
    · next hopen =>
      cases h
      exact .closed hopen
    · next files hopen =>
      rw [encode] at h
      split at h
      next outcome files' hencode =>
      have hevents : (s.events ++ [Event.opened path]) ++ [.encoded path format frames outcome] =
          s.events ++ [.opened path, .encoded path format frames outcome] :=
        List.append_assoc ..
      cases outcome with
      | error e =>
        cases h
        rw [record, record, hevents]
        exact .refused hformat hopen hencode
      | ok pieces =>
        rw [finish] at h
        simp only [record] at h
        split at h
        · next hflush =>
          cases h
          rw [hevents]
          exact .written hformat hopen hencode hflush
        · next hflush =>
          cases h
          rw [hevents]
          exact .written hformat hopen hencode hflush

namespace Writing

variable {answer : Except PictureError Unit}

/-- Writing does not touch the memory. -/
theorem memory (h : Writing env path frames s answer t) : t.memory = s.memory := by
  cases h <;> rfl

theorem frames_eq (h : Writing env path frames s answer t) : t.frames = s.frames := by
  cases h <;> rfl

/-- Nothing happened to the store and the frames are not written, or the path was opened and frames
were encoded for it right away. -/
theorem events (h : Writing env path frames s answer t) :
    t.events = s.events ∧ answer ≠ .ok () ∨
      ∃ format outcome,
        t.events = s.events ++ [.opened path, .encoded path format frames outcome] ∧
        (answer = .ok () → ∃ pieces, outcome = .ok pieces) := by
  cases h with
  | unsupported => exact .inl ⟨rfl, nofun⟩
  | closed => exact .inl ⟨rfl, nofun⟩
  | refused => exact .inr ⟨_, _, rfl, nofun⟩
  | written => exact .inr ⟨_, _, rfl, fun _ => ⟨_, rfl⟩⟩

end Writing

/-! ## Picture jobs -/

/-- The session in which the frame of a job is kept, if the job keeps one and it can be drawn. -/
def keepFor (s : Session σ) : PictureJob → Session σ
  | .still drawing name _ =>
    match drawing.frame s.memory.current with
    | .ok frame => s.keep name frame
    | .error _ => s
  | .animation _ _ _ => s

@[simp] theorem memory_keepFor (s : Session σ) (job : PictureJob) :
    (s.keepFor job).memory = s.memory := by
  unfold keepFor
  split
  · split <;> simp
  · rfl

@[simp] theorem files_keepFor (s : Session σ) (job : PictureJob) :
    (s.keepFor job).files = s.files := by
  unfold keepFor
  split
  · split <;> simp
  · rfl

@[simp] theorem events_keepFor (s : Session σ) (job : PictureJob) :
    (s.keepFor job).events = s.events := by
  unfold keepFor
  split
  · split <;> simp
  · rfl

/-- The ways in which a picture job is done: the answer, and the session that is left. -/
inductive Performing (env : Environment σ) (job : PictureJob) (s : Session σ) :
    Except MacroError Unit → Session σ → Prop where
  /-- Nothing is written: the job fails, or its file is not needed or there is none. -/
  | unwritten {answer : Except MacroError Unit} (hneeds : answer = .ok () →
      ∀ path, job.path? = some path → env.store.needs s.files path = false) :
      Performing env job s answer (s.keepFor job)
  /-- Frames are written to the file of the job, which is needed. -/
  | written {path : Text} {frames : List Frame} {answer : Except PictureError Unit} {t : Session σ}
      (hpath : job.path? = some path) (hneeds : env.store.needs s.files path = true)
      (hwriting : Writing env path frames (s.keepFor job) answer t) :
      Performing env job s (answer.mapError .picture) t

/-- What is written for a path that is needed is what the job does. -/
theorem performing_of_writeFor {job : PictureJob} {answer : Except MacroError Unit}
    (hpath : job.path? = some path) (hneeds : env.store.needs s.files path = true)
    (h : writeFor env path frames (s.keepFor job) = (answer, t)) : Performing env job s answer t := by
  rw [writeFor] at h
  split at h
  · next hwrite =>
    cases h
    exact .written hpath hneeds (writing_of_write hwrite)
  · next hwrite =>
    cases h
    exact .written hpath hneeds (writing_of_write hwrite)

/-- What is wanted is the file of the job, and needed. -/
theorem wanted_eq_some {path? : Option Text} (h : wanted env path? s = some path) :
    path? = some path ∧ env.store.needs s.files path = true := by
  simpa [wanted, Option.filter_eq_some_iff] using h

/-- A path that is not wanted is not needed. -/
theorem needs_of_wanted_eq_none {path? : Option Text} (h : wanted env path? s = none)
    (hpath : path? = some path) : env.store.needs s.files path = false := by
  subst hpath
  simpa [wanted, Option.filter_eq_none_iff] using h

/-- **A picture job is done in one of these ways.** -/
theorem performing_of_perform {job : PictureJob} {answer : Except MacroError Unit}
    (h : perform env job s = (answer, t)) : Performing env job s answer t := by
  cases job with
  | still drawing name path? =>
    rw [perform_still] at h
    split at h
    · -- Neither a name nor a path that is wanted: the frame is not even made.
      next hidle =>
      obtain ⟨rfl, hwanted⟩ := hidle
      have hkeep : s.keepFor (.still drawing none path?) = s := by
        cases hframe : drawing.frame s.memory.current <;> simp [keepFor, hframe, keep]
      cases h
      have hdone : Performing env (.still drawing none path?) s (.ok ()) (s.keepFor _) :=
        .unwritten fun _ _ hpath => needs_of_wanted_eq_none hwanted hpath
      rwa [hkeep] at hdone
    · rw [draw] at h
      cases hframe : drawing.frame s.memory.current with
      | error e =>
        -- A frame that cannot be made is not kept, and so nothing has changed.
        have hkeep : s.keepFor (.still drawing name path?) = s := by simp [keepFor, hframe]
        rw [hframe] at h
        cases h
        have hdone : Performing env (.still drawing name path?) s (.error (.tooLarge e))
            (s.keepFor _) := .unwritten fun hok => by cases hok
        rwa [hkeep] at hdone
      | ok frame =>
        have hkeep : s.keepFor (.still drawing name path?) = s.keep name frame := by
          simp [keepFor, hframe]
        rw [hframe] at h
        simp only [← hkeep] at h
        cases hwanted : wanted env path? s with
        | none =>
          rw [hwanted] at h
          cases h
          exact .unwritten fun _ _ hpath => needs_of_wanted_eq_none hwanted hpath
        | some path =>
          rw [hwanted] at h
          obtain ⟨hpath, hneeds⟩ := wanted_eq_some hwanted
          exact performing_of_writeFor hpath hneeds h
  | animation cels arguments path =>
    rw [perform] at h
    split at h
    · next hneeds =>
      split at h
      · cases h
        exact .unwritten fun hok => by cases hok
      · exact performing_of_writeFor rfl hneeds h
    · next hneeds =>
      cases h
      refine .unwritten fun _ p hp => ?_
      cases hp
      simpa using hneeds

namespace Performing

variable {job : PictureJob} {answer : Except MacroError Unit}

theorem memory (h : Performing env job s answer t) : t.memory = s.memory := by
  cases h with
  | unwritten => simp
  | written _ _ hwriting => rw [hwriting.memory, memory_keepFor]

/-- A frame is kept whether or not it can be written. -/
theorem frames_eq (h : Performing env job s answer t) : t.frames = (s.keepFor job).frames := by
  cases h with
  | unwritten => rfl
  | written _ _ hwriting => exact hwriting.frames_eq

/-- Nothing happened to the store, which is no success if the file of the job is needed, or this file
was opened and frames were encoded for it right away. -/
theorem events (h : Performing env job s answer t) :
    t.events = s.events ∧ (answer = .ok () →
        ∀ path, job.path? = some path → env.store.needs s.files path = false) ∨
      ∃ path format frames outcome, job.path? = some path ∧ env.store.needs s.files path = true ∧
        t.events = s.events ++ [.opened path, .encoded path format frames outcome] ∧
        (answer = .ok () → ∃ pieces, outcome = .ok pieces) := by
  cases h with
  | unwritten hneeds => exact .inl ⟨events_keepFor s job, hneeds⟩
  | @written path frames answer _ hpath hneeds hwriting =>
    have hanswer : answer.mapError MacroError.picture = .ok () → answer = .ok () := by
      cases answer with
      | error e => nofun
      | ok _ => exact fun _ => rfl
    rcases hwriting.events with ⟨hevents, hfail⟩ | ⟨format, outcome, hevents, hpieces⟩
    · rw [events_keepFor] at hevents
      exact .inl ⟨hevents, fun h => absurd (hanswer h) hfail⟩
    · rw [events_keepFor] at hevents
      exact .inr ⟨path, format, frames, outcome, hpath, hneeds, hevents,
        fun h => hpieces (hanswer h)⟩

end Performing

/-! ## Macros -/

/-- **A macro that makes a picture fails without doing anything, or does its job.** -/
theorem run_picture_eq {cwd arguments : Text} {m : PictureMacro}
    {result : Except MacroError (Text × Text)}
    (h : run env cwd (.picture m) arguments s = (result, t)) :
    (t = s ∧ (∃ e, result = .error e) ∧ (env.site.settings.pictures = false ∨
      ∃ e, m.handler (page env cwd) arguments = .error e)) ∨
    ∃ job rest answer, env.site.settings.pictures = true ∧
      m.handler (page env cwd) arguments = .ok (job, rest) ∧ Performing env job s answer t ∧
      result = answer.map fun _ => (job.markup cwd, rest) := by
  change runPicture env cwd m arguments s = _ at h
  rw [runPicture] at h
  split at h
  · next hpictures =>
    split at h
    · next e hhandler =>
      cases h
      exact .inl ⟨rfl, ⟨e, rfl⟩, .inr ⟨e, hhandler⟩⟩
    · next job rest hhandler =>
      split at h
      · next hperform =>
        cases h
        exact .inr ⟨job, rest, _, hpictures, hhandler, performing_of_perform hperform, rfl⟩
      · next hperform =>
        cases h
        exact .inr ⟨job, rest, _, hpictures, hhandler, performing_of_perform hperform, rfl⟩
  · next hpictures =>
    cases h
    exact .inl ⟨rfl, ⟨_, rfl⟩, .inl (by simpa using hpictures)⟩

/-- A picture macro does not touch the memory. -/
theorem memory_run_picture {cwd arguments : Text} {m : PictureMacro}
    {result : Except MacroError (Text × Text)}
    (h : run env cwd (.picture m) arguments s = (result, t)) : t.memory = s.memory := by
  rcases run_picture_eq h with ⟨rfl, -⟩ | ⟨job, rest, answer, -, -, hjob, -⟩
  · rfl
  · exact hjob.memory

/-- **No other macro uses the store or keeps a frame.** -/
theorem run_other_eq {cwd arguments : Text} {m : MacroName} (hm : m.isPicture = false)
    {result : Except MacroError (Text × Text)} (h : run env cwd m arguments s = (result, t)) :
    t = { s with memory := t.memory } := by
  cases m with
  | picture m => cases hm
  | text m =>
    cases h
    rfl
  | pokes =>
    cases h
    rfl
  | pops =>
    change runPop arguments s = _ at h
    rw [runPop] at h
    split at h <;> cases h <;> rfl
  | pushs =>
    cases h
    rfl

end MemoryDoc.Session
