/-
# Files that were opened

In a store that does not replace its files, a path that exists is left alone.  A path exists from
when it is opened, which comes before any frame is encoded for it.  So a file is opened at most once,
and frames are encoded for it once, however that ends: a file that could not be encoded is taken for
a finished one from then on.

Main statements: what one macro does to the store (`opening_of_run`), what all expansions together
do to a path (`openedSince_expandAll`), and that a macro that failed after its file was opened does
not fail again (`exists_run_again`).
-/
import MemoryDoc.Proofs.Calls
import MemoryDoc.Proofs.Writing
import MemoryDoc.Store.Listed

namespace MemoryDoc

variable {σ : Type}

/-- The path that something happened to. -/
def Event.path : Event → Text
  | opened path => path
  | encoded path _ _ _ => path

namespace Session

/-- What happened to a path, in order. -/
def eventsOf (s : Session σ) (path : Text) : List Event :=
  s.events.filter (·.path = path)

/-! ## One macro -/

/-- What a macro does to the store: it opens no path, or it opens one that is needed and has frames
encoded for it right away, however that ends. -/
inductive Opening (env : Environment σ) (path : Text) (s t : Session σ) : Prop where
  | none (events : t.events = s.events) (later : env.store.Later s.files [] t.files)
  | one (format : PictureFormat) (frames : List Frame)
      (outcome : Except PictureError (List Piece))
      (needs : env.store.needs s.files path = true)
      (events : t.events = s.events ++ [.opened path, .encoded path format frames outcome])
      (later : env.store.Later s.files [path] t.files)

variable {env : Environment σ} {s t : Session σ} {path : Text}

/-- A step that does nothing opens nothing. -/
theorem Opening.refl (env : Environment σ) (path : Text) (s : Session σ) : Opening env path s s :=
  .none rfl .refl

/-- If anything happened to the store, the path exists. -/
theorem Opening.has_of_ne (h : Opening env path s t) (hstore : env.store.KeepsOpened s.files)
    (hne : t.events ≠ s.events) : env.store.has t.files path = true := by
  cases h with
  | none events => exact absurd events hne
  | one _ _ _ _ _ later => exact hstore later path (List.mem_singleton.2 rfl)

/-- Encoding frames for a path that was opened opens no other. -/
theorem opening_of_encoded {format : PictureFormat} {frames : List Frame}
    {outcome : Except PictureError (List Piece)} {files files' : σ}
    (hneeds : env.store.needs s.files path = true)
    (hopen : env.store.openFile s.files path = (.ok (), files))
    (hlater : env.store.Later s.files [path] files → env.store.Later s.files [path] files') :
    Opening env path s (s.encoded files' path format frames outcome) :=
  .one format frames outcome hneeds rfl (hlater (.of_openFile hopen))

/-- What a picture writes, it opens first, and only because it is needed. -/
theorem opening_of_writing {frames : List Frame} {answer : Except PictureError Unit}
    (hneeds : env.store.needs s.files path = true) (h : Writing env path frames s answer t) :
    Opening env path s t := by
  cases h with
  | unsupported => exact .refl env path s
  | closed hopen => exact .none rfl (.of_openFile_error hopen)
  | @refused format _ files _ _ hopen hencode =>
    refine opening_of_encoded hneeds hopen fun h => ?_
    have hencoded := h.encode path (env.encoding format frames)
    rwa [hencode] at hencoded
  | @written format _ files files' _ _ _ hopen hencode hflush =>
    refine opening_of_encoded hneeds hopen fun h => ?_
    have hencoded := h.encode path (env.encoding format frames)
    rw [hencode] at hencoded
    have hflushed := hencoded.flush path
    rwa [hflush] at hflushed

/-- A picture job opens no path but its own. -/
theorem opening_of_performing {job : PictureJob} {answer : Except MacroError Unit}
    (h : Performing env job s answer t) : Opening env (job.path?.getD []) s t := by
  cases h with
  | unwritten =>
    refine .none (events_keepFor s job) ?_
    rw [files_keepFor]
    exact .refl
  | written hpath hneeds hwriting =>
    rw [← files_keepFor s job] at hneeds
    rw [hpath, Option.getD_some]
    cases opening_of_writing hneeds hwriting with
    | none events later =>
      rw [events_keepFor] at events
      rw [files_keepFor] at later
      exact .none events later
    | one format frames outcome needs events later =>
      rw [files_keepFor] at needs later
      rw [events_keepFor] at events
      exact .one format frames outcome needs events later

/-- **A macro opens at most one path, which is needed, and encodes frames for it once.** -/
theorem opening_of_run {cwd arguments : Text} {m : MacroName}
    {result : Except MacroError (Text × Text)} (h : run env cwd m arguments s = (result, t)) :
    ∃ path, Opening env path s t := by
  cases m with
  | picture m =>
    rcases run_picture_eq h with ⟨rfl, -⟩ | ⟨job, rest, answer, -, -, hjob, -⟩
    · exact ⟨[], .refl env [] t⟩
    · exact ⟨_, opening_of_performing hjob⟩
  | _ =>
    rw [run_other_eq rfl h]
    exact ⟨[], .none rfl .refl⟩

/-- Each turn opens one path or none. -/
theorem opening_takeTurn (env : Environment σ) (d : Turn σ) :
    ∃ path, Opening env path d.session (takeTurn env d).2 := by
  rw [takeTurn, replace_snd]
  cases MacroName.ofName? d.letters with
  | none => exact ⟨[], .refl env [] d.session⟩
  | some m => exact opening_of_run rfl

/-! ## A macro once more -/

/-- A path that is needed does not exist. -/
theorem has_of_needs (hreplaces : env.store.replaces = false)
    (h : env.store.needs s.files path = true) : env.store.has s.files path = false := by
  rcases (Store.needs_eq_true_iff _ _ _).1 h with h | h
  · rw [hreplaces] at h
    cases h
  · exact h

/-- What exists is not needed. -/
theorem needs_of_has (hreplaces : env.store.replaces = false)
    (h : env.store.has s.files path = true) : env.store.needs s.files path = false := by
  simp [Store.needs, hreplaces, h]

/-- **A picture that could not be made after its file was opened is taken for made.** -/
theorem exists_perform_again (hstore : env.store.KeepsOpened s.files)
    (hreplaces : env.store.replaces = false) {job : PictureJob} {e : MacroError}
    (h : perform env job s = (.error e, t)) (hne : t.events ≠ s.events) :
    ∃ t', perform env job t = (.ok (), t') ∧ t'.events = t.events := by
  have hdone := performing_of_perform h
  have hhas := (opening_of_performing hdone).has_of_ne hstore hne
  obtain ⟨path, hpath⟩ : ∃ path, job.path? = some path := by
    rcases hdone.events with ⟨hevents, -⟩ | ⟨path, -, -, -, hpath, -⟩
    · exact absurd hevents hne
    · exact ⟨path, hpath⟩
  rw [hpath, Option.getD_some] at hhas
  have hneeds := needs_of_has hreplaces hhas
  cases job with
  | still drawing keepAs path? =>
    cases hpath
    have hwanted : wanted env (some path) t = none := by simp [wanted, hneeds]
    rw [perform_still] at h ⊢
    rw [hwanted]
    split at h
    · cases h
    · rw [draw] at h
      split at h
      · cases h
        exact absurd rfl hne
      · next frame hframe =>
        split
        · exact ⟨t, rfl, rfl⟩
        · -- The memory is the same, so a frame that is to be kept can be drawn again.
          rw [draw, hdone.memory, hframe]
          exact ⟨_, rfl, events_keep t keepAs frame⟩
  | animation cels arguments path =>
    cases hpath
    refine ⟨t, ?_, rfl⟩
    rw [perform, hneeds, if_neg (by decide)]

/-- **A macro that failed after its file was opened does not fail again.** -/
theorem exists_run_again (hstore : env.store.KeepsOpened s.files)
    (hreplaces : env.store.replaces = false) {cwd arguments : Text} {m : MacroName} {e : MacroError}
    (h : run env cwd m arguments s = (.error e, t)) (hne : t.events ≠ s.events) :
    ∃ markup rest t', run env cwd m arguments t = (.ok (markup, rest), t') ∧
      t'.events = t.events := by
  cases m with
  | picture m =>
    change runPicture env cwd m arguments s = _ at h
    rw [runPicture] at h
    split at h
    · next hpictures =>
      split at h
      · cases h
        exact absurd rfl hne
      · next job rest hhandler =>
        split at h
        · next hperform =>
          cases h
          -- The frames may have changed, but the macro is read without them.
          obtain ⟨t', hagain, hevents⟩ := exists_perform_again hstore hreplaces hperform hne
          exact ⟨job.markup cwd, rest, t',
            run_picture_eq_ok.2 ⟨hpictures, job, hhandler, hagain, rfl⟩, hevents⟩
        · cases h
    · cases h
      exact absurd rfl hne
  | _ => exact absurd (congrArg Session.events (run_other_eq rfl h)) hne

/-! ## Whole runs -/

/-- Nothing happened to a path, or it exists, was opened, and had frames encoded for it once. -/
def OnceOpened (env : Environment σ) (path : Text) (s : Session σ) : Prop :=
  s.eventsOf path = [] ∨ env.store.has s.files path = true ∧ ∃ format frames outcome,
    s.eventsOf path = [.opened path, .encoded path format frames outcome]

/-- The paths that were opened since a session began tell what happened to a path: nothing, or it is
one of them and had frames encoded for it once. -/
structure OpenedSince (env : Environment σ) (path : Text) (s : Session σ) (paths : List Text)
    (t : Session σ) : Prop where
  later : env.store.Later s.files paths t.files
  once : path ∉ paths ∧ t.eventsOf path = [] ∨ path ∈ paths ∧ ∃ format frames outcome,
    t.eventsOf path = [.opened path, .encoded path format frames outcome]

/-- One more macro opens no path that was opened before. -/
theorem OpenedSince.of_opening (hstore : env.store.KeepsOpened s.files)
    (hreplaces : env.store.replaces = false) {paths : List Text} {opened : Text} {u : Session σ}
    (h : OpenedSince env path s paths t) (hu : Opening env opened t u) :
    ∃ paths, OpenedSince env path s paths u := by
  cases hu with
  | none events later =>
    have hevents : u.eventsOf path = t.eventsOf path := by rw [eventsOf, eventsOf, events]
    have hlater := h.later.trans later
    rw [List.append_nil] at hlater
    exact ⟨paths, hlater, hevents ▸ h.once⟩
  | one format frames outcome needs events later =>
    refine ⟨paths ++ [opened], h.later.trans later, ?_⟩
    by_cases hpath : path = opened
    · subst hpath
      rcases h.once with ⟨-, hnone⟩ | ⟨hmem, -⟩
      · refine .inr ⟨by simp, format, frames, outcome, ?_⟩
        rw [eventsOf] at hnone ⊢
        rw [events, List.filter_append, hnone]
        simp [Event.path]
      · -- What was opened exists, and what is needed does not.
        have hmissing := has_of_needs hreplaces needs
        rw [hstore h.later path hmem] at hmissing
        cases hmissing
    · have hevents : u.eventsOf path = t.eventsOf path := by
        rw [eventsOf, eventsOf, events, List.filter_append]
        simp [Event.path, Ne.symm hpath]
      simpa [hevents, hpath] using h.once

/-- **Whatever a session opens is opened once.** -/
theorem openedSince_expandAll (hreplaces : env.store.replaces = false) {calls : List Call}
    {fuel : Nat} {answers : List (Except ExpansionError Text)}
    (hstore : env.store.KeepsOpened s.files) (hs : s.eventsOf path = [])
    (h : expandAll env fuel calls s = some (answers, t)) :
    ∃ paths, OpenedSince env path s paths t := by
  rw [← reachedAll_of_expandAll h]
  refine reachedAll_induction (P := fun _ t => ∃ paths, OpenedSince env path s paths t)
    ⟨[], .refl, .inl ⟨List.not_mem_nil, hs⟩⟩ (fun ds d ⟨paths, hd⟩ => ?_) fuel calls
  obtain ⟨opened, hopening⟩ := opening_takeTurn env d
  exact hd.of_opening hstore hreplaces hopening

/-- **A file is opened once, and taken for finished however that ends.**  Where opened paths exist
from then on and files are not replaced, a path that nothing had happened to when a session began
either had nothing happen to it, or exists in the end, was opened, and had frames encoded for it
once.  If paths come to exist by being opened only, then in the first case a path that did not exist
still does not.  Encoding need not have succeeded: a macro that fails after its file was opened is
run again without a failure, and without anything happening to the store. -/
theorem expandAll_onceOpened (env : Environment σ) (hreplaces : env.store.replaces = false) :
    (∀ (calls : List Call) fuel answers (s t : Session σ) path, env.store.KeepsOpened s.files →
      s.eventsOf path = [] → expandAll env fuel calls s = some (answers, t) →
      OnceOpened env path t ∧
        (env.store.OpensOnly → env.store.has s.files path = false → t.eventsOf path = [] →
          env.store.has t.files path = false)) ∧
    (∀ cwd (m : MacroName) arguments e (s t : Session σ), env.store.KeepsOpened s.files →
      run env cwd m arguments s = (.error e, t) → t.events ≠ s.events →
      ∃ markup rest t', run env cwd m arguments t = (.ok (markup, rest), t') ∧
        t'.events = t.events) := by
  refine ⟨fun calls fuel answers s t path hstore hs h => ?_,
    fun _ _ _ _ _ _ hstore h hne => exists_run_again hstore hreplaces h hne⟩
  obtain ⟨paths, hlater, honce⟩ := openedSince_expandAll hreplaces hstore hs h
  refine ⟨honce.imp And.right (And.imp_left (hstore hlater path)), fun honly hnew hnone => ?_⟩
  rcases honce with ⟨hmem, -⟩ | ⟨-, format, frames, outcome, hevents⟩
  · rw [← Bool.not_eq_true]
    intro hhas
    rcases hlater.mem_or_has honly hhas with hmem' | hold
    · exact hmem hmem'
    · rw [hnew] at hold
      cases hold
  · rw [hnone] at hevents
    cases hevents

/-! ## A picture without pixels -/

/-- A text with a macro for a part of the screen that has no pixels, twice. -/
def emptyTwice : List Call :=
  [⟨"#SCR1,32(x)".toList, []⟩, ⟨"#SCR1,32(x)".toList, []⟩]

/-- An environment in which no path exists yet, and paths exist from when they are opened. -/
def unwritten : Environment (List Text) :=
  .usual ({} : Store.Listed).store

/-- Where nothing is there at first, the paths that exist are those that were opened. -/
theorem keepsOpened_unwritten : unwritten.store.KeepsOpened [] :=
  Store.Listed.keepsOpened rfl []

/-- An empty picture fails once, and its path is then taken for a finished file. -/
theorem expandAll_onceOpened_emptyTwice :
    unwritten.store.KeepsOpened [] ∧ unwritten.store.OpensOnly ∧
      unwritten.store.replaces = false ∧
      (∃ answers t, expandAll unwritten 2 emptyTwice (start .zeros []) = some (answers, t) ∧
        OnceOpened unwritten "images/scr/x.png" t ∧
        OnceOpened unwritten "images/scr/y.png" t ∧
        unwritten.store.has t.files "images/scr/y.png" = false) ∧
      ∃ e t, run unwritten [] (.picture .scr) "1,32(x)" (start .zeros []) = (.error e, t) ∧
        t.events ≠ [] ∧
        ∃ markup rest t', run unwritten [] (.picture .scr) "1,32(x)" t
          = (.ok (markup, rest), t') ∧ t'.events = t.events := by
  obtain ⟨honce, hagain⟩ := expandAll_onceOpened unwritten rfl
  have honly : unwritten.store.OpensOnly := Store.Listed.opensOnly _
  obtain ⟨hx, -⟩ := honce emptyTwice 2 _ (start .zeros []) _ "images/scr/x.png"
    keepsOpened_unwritten rfl rfl
  obtain ⟨hy, hmissing⟩ := honce emptyTwice 2 _ (start .zeros []) _ "images/scr/y.png"
    keepsOpened_unwritten rfl rfl
  refine ⟨keepsOpened_unwritten, honly, rfl, ⟨_, _, rfl, hx, hy, hmissing honly rfl rfl⟩,
    ⟨_, _, rfl, List.cons_ne_nil _ _, ?_⟩⟩
  exact hagain [] (.picture .scr) "1,32(x)" _ (start .zeros []) _ keepsOpened_unwritten rfl
    (List.cons_ne_nil _ _)

/-- The picture without pixels is not made, and taken for made all the same: nothing that was encoded
for its path succeeded, but the path exists, and the second text turns into an element that shows
it. -/
theorem expandAll_emptyTwice :
    unwritten.store.KeepsOpened [] ∧ unwritten.store.replaces = false ∧
      unwritten.store.has [] "images/scr/x.png" = false ∧
      ∃ t, expandAll unwritten 2 emptyTwice (start .zeros []) =
          some ([.error (.inMacro "#SCR" "#SCR1,32(x)" (.picture (.empty (.frame 1)))),
            .ok "<img alt=\"x\" src=\"images/scr/x.png\" />".toList], t) ∧
        unwritten.store.has t.files "images/scr/x.png" = true ∧
        ∀ format frames pieces,
          Event.encoded "images/scr/x.png" format frames (.ok pieces) ∉ t.events := by
  refine ⟨keepsOpened_unwritten, rfl, rfl, _, by rfl, by rfl, ?_⟩
  intro format frames pieces h
  cases h with
  | tail _ h =>
    cases h with
    | tail _ h => cases h

end Session

end MemoryDoc
