/-
# Errors of pictures

A macro that makes a picture leaves a job, whose path is that of a file name.  Only where frames are
written to this path can there be an error of the picture, and no other macro has one.

Main statements: where an error of a picture comes up (`Session.exists_write_of_run`), and that the
format is none where the path tells one, unless the encoder says so by itself
(`Session.outcome_of_write`).
-/
import MemoryDoc.Macro.Failure
import MemoryDoc.Macro.PictureNames
import MemoryDoc.Proofs.Writing

namespace MemoryDoc

/-! ## Paths of jobs -/

namespace PictureJob

variable {p : Page}

/-- A handler leaves jobs whose paths are those of file names. -/
def Resolves (p : Page) (r : Handler PictureJob) : Prop :=
  ∀ ⦃t left job path⦄, r t = .ok (job, left) → job.path? = some path →
    ∃ fileName directory, p.site.picturePath fileName directory = .ok (some path)

/-- A job has a path if what makes it in the end does. -/
theorem resolves_bind {α : Type} {r : Handler α} {f : α → Handler PictureJob}
    (hf : ∀ a, Resolves p (f a)) : Resolves p (r >>= f) := by
  intro t left job path h hpath
  obtain ⟨a, behind, -, h⟩ := Reader.bind_eq_ok.1 h
  exact hf a h hpath

/-- A path that is found is that of a picture. -/
theorem exists_of_pathOr {fileName : Option Text} {default directory t left path : Text}
    (h : pathOr p fileName default directory t = .ok (path, left)) :
    ∃ fileName directory, p.site.picturePath fileName directory = .ok (some path) := by
  obtain ⟨path?, behind, hlink, h⟩ := Reader.bind_eq_ok.1 h
  obtain ⟨hpath, -⟩ := Handler.ofLink_eq_ok.1 hlink
  cases path? with
  | none => cases h
  | some path =>
    cases h
    exact ⟨_, _, hpath⟩

/-- A still picture that is written has the path that was found for it. -/
theorem resolves_still {fileName : Option Text} {default directory : Text} {drawing : Drawing} :
    Resolves p (pathOr p fileName default directory >>= fun path =>
      pure (.still drawing none (some path))) := by
  intro t left job path h hpath
  obtain ⟨path', behind, hread, h⟩ := Reader.bind_eq_ok.1 h
  cases h
  cases hpath
  exact exists_of_pathOr hread

theorem resolves_array : Resolves p (array p) := by
  intro t left job path h hpath
  obtain ⟨name, drawing, path?, -, rfl, hlink⟩ := still_of_array h
  cases hpath
  exact ⟨_, _, hlink⟩

theorem resolves_animated : Resolves p (animated p) := by
  intro t left job path h hpath
  obtain ⟨cels, name, path', -, -, hread, rfl⟩ := animated_eq_ok.1 h
  cases hpath
  exact exists_of_pathOr hread

end PictureJob

/-- **The path of every job is that of a file name.** -/
theorem PictureMacro.resolves_handler (p : Page) (m : PictureMacro) :
    PictureJob.Resolves p (m.handler p) := by
  cases m with
  | udg =>
    apply PictureJob.resolves_bind
    intro head
    apply PictureJob.resolves_bind
    intro mode
    apply PictureJob.resolves_bind
    intro mask
    exact PictureJob.resolves_still
  | font =>
    apply PictureJob.resolves_bind
    intro text
    apply PictureJob.resolves_bind
    intro head
    exact PictureJob.resolves_still
  | scr =>
    apply PictureJob.resolves_bind
    intro head
    exact PictureJob.resolves_still
  | udgarray =>
    -- The macro of arrays reads an animation if there is a star in front.
    intro t left job path h hpath
    change PictureJob.arrayOrAnimation p t = _ at h
    unfold PictureJob.arrayOrAnimation at h
    split at h
    · exact PictureJob.resolves_animated h hpath
    · exact PictureJob.resolves_array h hpath

/-! ## Errors of pictures -/

namespace Session

variable {σ : Type} {env : Environment σ} {path unsupported : Text} {frames : List Frame}
  {s t : Session σ} {e : PictureError}

theorem write_of_writeFor (h : writeFor env path frames s = (.error (.picture e), t)) :
    write env path frames s = (.error e, t) := by
  unfold writeFor at h
  split at h
  · cases h
  · next hwrite =>
    cases h
    exact hwrite

/-- The error of a picture comes up where frames are written to the file of the job. -/
theorem exists_write_of_perform {job : PictureJob}
    (h : perform env job s = (.error (.picture e), t)) :
    ∃ path frames s', job.path? = some path ∧ write env path frames s' = (.error e, t) := by
  cases job with
  | still drawing keepAs path? =>
    rw [perform_still] at h
    split at h
    · cases h
    · rw [draw] at h
      cases hframe : drawing.frame s.memory.current with
      | error tooLarge =>
        rw [hframe] at h
        cases h
      | ok frame =>
        rw [hframe] at h
        cases hwanted : wanted env path? s with
        | none =>
          rw [hwanted] at h
          cases h
        | some path =>
          rw [hwanted] at h
          exact ⟨path, [frame], s.keep keepAs frame, (wanted_eq_some hwanted).1,
            write_of_writeFor h⟩
  | animation cels arguments path =>
    rw [perform] at h
    split at h
    · split at h
      · cases h
      · next frames _ => exact ⟨path, frames, s, rfl, write_of_writeFor h⟩
    · cases h

/-- The error of a picture comes up in a macro that makes one, for a path of its page. -/
theorem exists_write_of_run {cwd arguments : Text} {m : MacroName}
    (h : run env cwd m arguments s = (.error (.picture e), t)) :
    ∃ fileName directory path frames s',
      env.site.picturePath fileName directory = .ok (some path) ∧
      write env path frames s' = (.error e, t) := by
  cases m with
  | text m =>
    change (m.handler (page env cwd) arguments, s) = _ at h
    -- What goes wrong in a handler is put down to an argument or a link.
    have hblames := m.blames_handler (page env cwd) (congrArg Prod.fst h)
    cases hblames
  | picture m =>
    change runPicture env cwd m arguments s = _ at h
    unfold runPicture at h
    split at h
    · split at h
      · next hhandler =>
        cases h
        have hblames := m.blames_handler (page env cwd) hhandler
        cases hblames
      · next job rest hhandler =>
        split at h
        · next hperform =>
          cases h
          obtain ⟨path, frames, s', hpath, hwrite⟩ := exists_write_of_perform hperform
          obtain ⟨fileName, directory, hname⟩ := m.resolves_handler (page env cwd) hhandler hpath
          exact ⟨fileName, directory, path, frames, s', hname, hwrite⟩
        · cases h
    · cases h
  | pokes =>
    have hpokes := congrArg Prod.fst h
    change ((Poke.clauses arguments).2.mapError MacroError.fault).map _ = _ at hpokes
    cases houtcome : (Poke.clauses arguments).2 with
    | error fault =>
      rw [houtcome] at hpokes
      cases hpokes
    | ok rest =>
      rw [houtcome] at hpokes
      cases hpokes
  | pops =>
    change runPop arguments s = _ at h
    unfold runPop at h
    split at h
    · cases h
    · cases h
  | pushs => cases h

/-- The encoder may only blame a suffix that it does not know. -/
theorem outcome_of_encode {store : Store σ} {files files' : σ} {encoding : Encoding}
    (h : store.encode path files encoding = (.error (.unsupportedFormat unsupported), files')) :
    encoding.outcome = .error (.unsupportedFormat unsupported) := by
  unfold Store.encode at h
  split at h
  · cases h
  · have houtcome := congrArg Prod.fst h
    cases hencoding : encoding.outcome with
    | error e =>
      rw [hencoding] at houtcome
      cases houtcome
      rfl
    | ok _ =>
      rw [hencoding] at houtcome
      cases houtcome

/-- **A suffix of no format is never met where frames are written to a path that tells one**, unless the
encoder says so by itself. -/
theorem outcome_of_write (hformat : (PictureFormat.ofPath? path).isSome = true)
    (h : write env path frames s = (.error (.unsupportedFormat unsupported), t)) :
    ∃ format, (env.encoding format frames).outcome = .error (.unsupportedFormat unsupported) := by
  generalize hanswer : Except.error (PictureError.unsupportedFormat unsupported) = answer at h
  -- Of the ways in which writing ends, only the encoder can still give this answer.
  cases writing_of_write h with
  | unsupported hnone =>
    rw [hnone] at hformat
    cases hformat
  | closed =>
    cases hanswer
  | @refused format _ _ _ _ _ hencode =>
    cases hanswer
    exact ⟨format, outcome_of_encode hencode⟩
  | @written _ _ _ _ _ finished =>
    cases finished with
    | error reason => cases hanswer
    | ok _ => cases hanswer

end Session

/-- Frames are encoded in every format. -/
theorem Encoding.ofFrames_ne_unsupported (format : PictureFormat) (frames : List Frame) (path : Text) :
    (ofFrames format frames).outcome ≠ .error (.unsupportedFormat path) := by
  have hanimation : ∀ frames, (animation frames).outcome ≠ .error (.unsupportedFormat path) := by
    intro frames
    induction frames with
    | nil => nofun
    | cons f fs ih =>
      unfold animation
      split
      · exact ih
      · nofun
  unfold ofFrames
  split
  · nofun
  · nofun
  · cases format with
    | png => nofun
    | gif => exact hanimation _

end MemoryDoc
