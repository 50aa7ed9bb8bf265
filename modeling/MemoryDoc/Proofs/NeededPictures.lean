/-
# Pictures that are needed

A picture is written if its file does not exist, or if files are replaced.  The file is opened
first, and right away the frames are encoded for it by the same macro.  So where files are not
replaced and a path that was opened exists from then on, no path is opened twice, whatever macros ask
for it and however they fail.  Paths from before are not opened as long as the store keeps them.
Where files are replaced, every macro that makes a picture writes it.

Main statements: when pictures are written, over whole sessions (`pictures_needed`); a store that
keeps what was opened may still forget what was there before (`mem_openedIn_forgetful`).
-/
import MemoryDoc.Macro.PictureNames
import MemoryDoc.Proofs.Openings

namespace MemoryDoc

variable {σ : Type}

namespace Session

variable {env : Environment σ} {s : Session σ}

/-! ## One macro -/

/-- What happens to the store while a macro is run. -/
def eventsIn (env : Environment σ) (d : Turn σ) : List Event :=
  (takeTurn env d).2.events.drop d.session.events.length

/-- The events of a turn are those that it adds. -/
theorem eventsIn_of_eq {d : Turn σ} {events : List Event}
    (h : (takeTurn env d).2.events = d.session.events ++ events) : eventsIn env d = events := by
  rw [eventsIn, h, List.drop_left]

theorem eventsIn_eq_nil {d : Turn σ} (h : (takeTurn env d).2.events = d.session.events) :
    eventsIn env d = [] :=
  eventsIn_of_eq (by rw [h, List.append_nil])

/-- **Every macro leaves the store alone, or opens a path that is needed and has frames encoded for
it.** -/
theorem eventsIn_of_opening {d : Turn σ} {path : Text}
    (h : Opening env path d.session (takeTurn env d).2) :
    eventsIn env d = [] ∨ ∃ format frames outcome,
      env.store.needs d.session.files path = true ∧
        eventsIn env d = [.opened path, .encoded path format frames outcome] := by
  cases h with
  | none events => exact .inl (eventsIn_eq_nil events)
  | one format frames outcome needs events =>
    exact .inr ⟨format, frames, outcome, needs, eventsIn_of_eq events⟩

/-- Nothing that happened to the store is forgotten. -/
theorem events_takeTurn (env : Environment σ) (d : Turn σ) :
    (takeTurn env d).2.events = d.session.events ++ eventsIn env d := by
  obtain ⟨path, hopening⟩ := opening_takeTurn env d
  cases hopening with
  | none events => rw [eventsIn_eq_nil events, events, List.append_nil]
  | one format frames outcome _ events => rw [eventsIn_of_eq events, events]

/-- Only macros that make pictures use the store. -/
theorem exists_picture_of_eventsIn {d : Turn σ} (h : eventsIn env d ≠ []) :
    ∃ m, MacroName.ofName? d.letters = some (.picture m) := by
  have hne : (takeTurn env d).2.events ≠ d.session.events := fun heq => h (eventsIn_eq_nil heq)
  rw [takeTurn, replace_snd] at hne
  cases hname : MacroName.ofName? d.letters with
  | none =>
    rw [hname] at hne
    exact absurd rfl hne
  | some name =>
    cases hrun : run env d.cwd name d.arguments d.session with
    | mk result t =>
      simp only [hname, hrun] at hne
      cases hpicture : name.isPicture with
      | false =>
        rw [run_other_eq hpicture hrun] at hne
        exact absurd rfl hne
      | true =>
        cases name with
        | picture m => exact ⟨m, rfl⟩
        | _ => cases hpicture

/-- If files are replaced, a macro that succeeds has written the picture that it names a file for. -/
theorem eventsIn_of_replaces (hreplaces : env.store.replaces = true) {d : Turn σ} {m : PictureMacro}
    (hname : MacroName.ofName? d.letters = some (.picture m)) (hfile : m.NamesFile d.arguments)
    {after : Text} (hok : (takeTurn env d).1 = .ok after) :
    ∃ job left path format frames pieces,
      m.handler (page env d.cwd) d.arguments = .ok (job, left) ∧ job.path? = some path ∧
        eventsIn env d = [.opened path, .encoded path format frames (.ok pieces)] := by
  cases hrun : run env d.cwd (.picture m) d.arguments d.session with
  | mk result t =>
    have hturn : (takeTurn env d).2 = t := by
      rw [takeTurn, replace_snd, hname]
      simp only [hrun]
    rw [takeTurn, replace, hname] at hok
    simp only [hrun] at hok
    rcases run_picture_eq hrun with ⟨-, ⟨e, rfl⟩, -⟩ | ⟨job, left, answer, -, hjob, hperforming, rfl⟩
    · cases hok
    · cases answer with
      | error e => cases hok
      | ok _ =>
        obtain ⟨path, hpath⟩ := PictureMacro.exists_path hjob hfile
        rcases hperforming.events with
          ⟨-, hneeds⟩ | ⟨path', format, frames, outcome, hpath', -, hevents, hpieces⟩
        · -- A store that replaces files needs every path.
          have hneeded : env.store.needs d.session.files path = true :=
            (Store.needs_eq_true_iff ..).2 (.inl hreplaces)
          rw [hneeds rfl path hpath] at hneeded
          cases hneeded
        · obtain ⟨pieces, rfl⟩ := hpieces rfl
          rw [← hturn] at hevents
          exact ⟨job, left, path', format, frames, pieces, hjob, hpath', eventsIn_of_eq hevents⟩

/-! ## Whole sessions -/

/-- The paths that were opened while macros were run. -/
def openedIn (env : Environment σ) (ds : List (Turn σ)) : List Text :=
  (ds.flatMap (eventsIn env)).filterMap Event.opened?

/-- A path that a macro opens is needed right before. -/
theorem needs_of_mem_openedIn {d : Turn σ} {path : Text} (h : path ∈ openedIn env [d]) :
    env.store.needs d.session.files path = true := by
  rw [openedIn, List.flatMap_singleton] at h
  obtain ⟨opened, hopening⟩ := opening_takeTurn env d
  rcases eventsIn_of_opening hopening with hnone | ⟨format, frames, outcome, hneeds, hone⟩
  · rw [hnone] at h
    cases h
  · rw [hone] at h
    cases List.mem_singleton.1 h
    exact hneeds

/-- The paths that a macro opens are those that the files after it were come to by. -/
theorem later_takeTurn (env : Environment σ) (d : Turn σ) :
    env.store.Later d.session.files (openedIn env [d]) (takeTurn env d).2.files := by
  rw [openedIn, List.flatMap_singleton]
  obtain ⟨path, hopening⟩ := opening_takeTurn env d
  cases hopening with
  | none events later =>
    rw [eventsIn_eq_nil events]
    exact later
  | one format frames outcome _ events later =>
    rw [eventsIn_of_eq events]
    exact later

/-- One more turn opens its own paths behind the others. -/
theorem openedIn_append (ds : List (Turn σ)) (d : Turn σ) :
    openedIn env (ds ++ [d]) = openedIn env ds ++ openedIn env [d] := by
  simp [openedIn]

/-- A macro opens at most one path. -/
theorem nodup_openedIn (d : Turn σ) : (openedIn env [d]).Nodup := by
  rw [openedIn, List.flatMap_singleton]
  obtain ⟨path, hopening⟩ := opening_takeTurn env d
  rcases eventsIn_of_opening hopening with hnone | ⟨format, frames, outcome, -, hone⟩
  · rw [hnone]
    exact List.nodup_nil
  · rw [hone]
    exact List.pairwise_singleton _ path

/-- What holds after some macros where files are not replaced and opened paths exist from then on: the
files were come to by the paths that were opened, and none was opened twice. -/
structure OpenedOnce (env : Environment σ) (s : Session σ) (ds : List (Turn σ)) (t : Session σ) :
    Prop where
  later : env.store.Later s.files (openedIn env ds) t.files
  nodup : (openedIn env ds).Nodup

/-- One more macro opens no path that was opened before. -/
theorem OpenedOnce.takeTurn (hstore : env.store.KeepsOpened s.files)
    (hreplaces : env.store.replaces = false) {ds : List (Turn σ)} {d : Turn σ}
    (h : OpenedOnce env s ds d.session) : OpenedOnce env s (ds ++ [d]) (takeTurn env d).2 := by
  constructor
  · rw [openedIn_append]
    exact h.later.trans (later_takeTurn env d)
  · rw [openedIn_append, List.nodup_append]
    refine ⟨h.nodup, nodup_openedIn d, fun p hp q hq => ?_⟩
    -- What was opened before exists, and what is needed does not.
    rintro rfl
    have hmissing := has_of_needs hreplaces (needs_of_mem_openedIn hq)
    rw [hstore h.later p hp] at hmissing
    cases hmissing

/-- **No path is opened twice in a session**, if it exists once it was opened. -/
theorem openedOnce_reachedAll (hstore : env.store.KeepsOpened s.files)
    (hreplaces : env.store.replaces = false) (fuel : Nat) (calls : List Call) :
    OpenedOnce env s (history env fuel calls s) (reachedAll env fuel calls s) :=
  reachedAll_induction (P := OpenedOnce env s) ⟨.refl, List.nodup_nil⟩
    (fun _ _ h => h.takeTurn hstore hreplaces) fuel calls

/-- Where a session comes to a macro, its files were come to from those in the beginning. -/
theorem exists_later_of_mem_history {fuel : Nat} {calls : List Call} {d : Turn σ}
    (h : d ∈ history env fuel calls s) : ∃ paths, env.store.Later s.files paths d.session.files := by
  obtain ⟨ds, rest, hhistory⟩ := List.append_of_mem h
  refine ⟨openedIn env ds, history_induction
    (P := fun ds t => env.store.Later s.files (openedIn env ds) t.files) .refl
    (fun ds d hd => ?_) fuel calls hhistory⟩
  rw [openedIn_append]
  exact hd.trans (later_takeTurn env d)

/-- A path that lasts from the beginning on is never opened. -/
theorem not_mem_openedIn_of_lasts (hreplaces : env.store.replaces = false) {path : Text}
    (hlasts : env.store.Lasts s.files path) (fuel : Nat) (calls : List Call) :
    path ∉ openedIn env (history env fuel calls s) := by
  intro hmem
  obtain ⟨event, hevent, hpath⟩ := List.mem_filterMap.1 hmem
  obtain ⟨d, hd, hin⟩ := List.mem_flatMap.1 hevent
  have hopened : path ∈ openedIn env [d] := by
    rw [openedIn, List.flatMap_singleton]
    exact List.mem_filterMap.2 ⟨event, hin, hpath⟩
  obtain ⟨paths, hlater⟩ := exists_later_of_mem_history hd
  have hmissing := has_of_needs hreplaces (needs_of_mem_openedIn hopened)
  rw [hlasts hlater] at hmissing
  cases hmissing

/-- What happened to the store in a session is what happened while its macros were run. -/
theorem events_reachedAll (env : Environment σ) (fuel : Nat) (calls : List Call) (s : Session σ) :
    (reachedAll env fuel calls s).events =
      s.events ++ (history env fuel calls s).flatMap (eventsIn env) := by
  refine reachedAll_induction
    (P := fun ds t => t.events = s.events ++ ds.flatMap (eventsIn env)) (by simp) (fun ds d h => ?_)
    fuel calls
  rw [events_takeTurn, h]
  simp

/-- **Pictures are written exactly when they are needed.**  All that happens to the store in a
session happens while its macros are run, and each macro either does nothing to it, or makes a
picture, opens a path that is needed and has frames encoded for it once, right away.  Where files are
not replaced, no path is opened twice in the whole session if opened paths exist from then on, and
none that exists in the beginning and lasts.  Where files are replaced, every macro that succeeds has
written the picture that it names a file for, whatever exists. -/
theorem pictures_needed (env : Environment σ) (fuel : Nat) (calls : List Call) (s : Session σ) :
    (reachedAll env fuel calls s).events =
        s.events ++ (history env fuel calls s).flatMap (eventsIn env) ∧
    (∀ d ∈ history env fuel calls s, eventsIn env d = [] ∨
      (∃ m, MacroName.ofName? d.letters = some (.picture m)) ∧ ∃ path format frames outcome,
        env.store.needs d.session.files path = true ∧
          eventsIn env d = [.opened path, .encoded path format frames outcome]) ∧
    (env.store.replaces = false →
      (env.store.KeepsOpened s.files → (openedIn env (history env fuel calls s)).Nodup) ∧
        ∀ path, env.store.Lasts s.files path → path ∉ openedIn env (history env fuel calls s)) ∧
    (env.store.replaces = true → ∀ d ∈ history env fuel calls s, ∀ m,
      MacroName.ofName? d.letters = some (.picture m) → m.NamesFile d.arguments →
      (∃ after, (takeTurn env d).1 = .ok after) → ∃ job left path format frames pieces,
        m.handler (page env d.cwd) d.arguments = .ok (job, left) ∧ job.path? = some path ∧
          eventsIn env d = [.opened path, .encoded path format frames (.ok pieces)]) := by
  refine ⟨events_reachedAll env fuel calls s, fun d _ => ?_, fun hreplaces => ⟨fun hstore => ?_, ?_⟩,
    fun hreplaces d _ m hname hfile ⟨after, hok⟩ => eventsIn_of_replaces hreplaces hname hfile hok⟩
  · obtain ⟨path, hopening⟩ := opening_takeTurn env d
    refine (eventsIn_of_opening hopening).imp_right fun h => ?_
    obtain ⟨format, frames, outcome, hneeds, hevents⟩ := h
    have hne : eventsIn env d ≠ [] := by
      rw [hevents]
      exact List.cons_ne_nil _ _
    exact ⟨exists_picture_of_eventsIn hne, path, format, frames, outcome, hneeds, hevents⟩
  · exact (openedOnce_reachedAll hstore hreplaces fuel calls).nodup
  · exact fun path hlasts => not_mem_openedIn_of_lasts hreplaces hlasts fuel calls

/-- A text with two macros that make pictures of one path, spelled in two ways. -/
def samePath : List Call :=
  [⟨"#UDG0(a)#SCR1(/images/udgs/a)", []⟩]

/-- The environment in which files are replaced. -/
def replacing : Environment (List Text) :=
  .usual ({ replaces := true } : Store.Listed).store

/-- The first of the two macros. -/
def samePathTurn : Turn (List Text) :=
  ⟨⟨"UDG", "0(a)#SCR1(/images/udgs/a)", start .zeros []⟩, []⟩

/-- Only the first of the two is written, unless it exists or files are replaced. -/
theorem pictures_needed_samePath :
    unwritten.store.replaces = false ∧ unwritten.store.KeepsOpened [] ∧
      openedIn unwritten (history unwritten 3 samePath (start .zeros [])) =
        ["images/udgs/a.png".toList] ∧
      (openedIn unwritten (history unwritten 3 samePath (start .zeros []))).Nodup ∧
      unwritten.store.Lasts ["images/udgs/a.png".toList] "images/udgs/a.png" ∧
      "images/udgs/a.png".toList ∉ openedIn unwritten
        (history unwritten 3 samePath (start .zeros ["images/udgs/a.png".toList])) ∧
      samePathTurn ∈ history replacing 3 samePath (start .zeros []) ∧
      ∃ path format frames pieces, eventsIn replacing samePathTurn =
        [.opened path, .encoded path format frames (.ok pieces)] := by
  have hlasts : unwritten.store.Lasts ["images/udgs/a.png".toList] "images/udgs/a.png" :=
    Store.Listed.lasts (List.mem_singleton.2 rfl)
  have hturn : samePathTurn ∈ history replacing 3 samePath (start .zeros []) := List.mem_cons_self
  have hdirect : ¬PictureMacro.udg.IsArray samePathTurn.arguments := nofun
  have hok : (takeTurn replacing samePathTurn).1.toOption.isSome = true := by decide +kernel
  obtain ⟨after, hafter⟩ := Option.isSome_iff_exists.1 hok
  obtain ⟨-, -, hkept, -⟩ := pictures_needed unwritten 3 samePath (start .zeros [])
  obtain ⟨-, -, hold, -⟩ := pictures_needed unwritten 3 samePath
    (start .zeros ["images/udgs/a.png".toList])
  obtain ⟨-, -, -, hreplaces⟩ := pictures_needed replacing 3 samePath (start .zeros [])
  obtain ⟨_, _, path, format, frames, pieces, -, -, hwritten⟩ := hreplaces rfl _ hturn .udg rfl
    (fun harray => absurd harray hdirect) ⟨after, eq_ok_of_toOption hafter⟩
  exact ⟨rfl, keepsOpened_unwritten, by decide +kernel, (hkept rfl).1 keepsOpened_unwritten, hlasts,
    (hold rfl).2 _ hlasts, hturn, path, format, frames, pieces, hwritten⟩

/-! ## A store that forgets -/

/-- A store that keeps the paths that were opened, but forgets those that were there before once
another is opened. -/
def forgetful : Store (List Text × List Text) where
  replaces := false
  has files path := files.1.contains path || files.2.contains path
  openFile files path := (.ok (), ([], files.2.insert path))
  write files _ _ := (.ok (), files)
  flush files _ := (.ok (), files)

/-- A path that this store opens exists from then on, whatever it forgets. -/
theorem keepsOpened_forgetful (files : List Text × List Text) : forgetful.KeepsOpened files := by
  have hopened : ∀ ⦃paths files'⦄, forgetful.Later files paths files' →
      ∀ path ∈ paths, path ∈ files'.2 := by
    intro paths files' h
    induction h with
    | refl => exact fun path hpath => absurd hpath List.not_mem_nil
    | opened path _ _ ih =>
      intro p hp
      refine List.mem_insert_iff.2 ?_
      rcases List.mem_append.1 hp with hp | hp
      · exact .inr (ih p hp)
      · exact .inl (List.mem_singleton.1 hp)
    | closed path _ hopen => exact absurd rfl hopen
    | write _ _ _ ih => exact ih
    | flush _ _ ih => exact ih
  intro paths files' h path hpath
  exact Bool.or_eq_true_iff.2 (.inr (List.contains_iff_mem.2 (hopened h path hpath)))

/-- Texts with pictures of two paths. -/
def twoPaths : List Call :=
  [⟨"#UDG0,,1(a)".toList, []⟩, ⟨"#UDG0,,1(b)".toList, []⟩]

/-- The second path existed in the beginning, but is opened once the first one was.  It was forgotten
then, though opened paths exist from then on. -/
theorem mem_openedIn_forgetful :
    forgetful.replaces = false ∧ forgetful.KeepsOpened (["images/udgs/b.png".toList], []) ∧
      forgetful.has (["images/udgs/b.png".toList], []) "images/udgs/b.png" = true ∧
      "images/udgs/b.png".toList ∈ openedIn (.usual forgetful) (history (.usual forgetful) 2 twoPaths
        (start .zeros (["images/udgs/b.png".toList], []))) :=
  ⟨rfl, keepsOpened_forgetful _, rfl, by decide +kernel⟩

end Session

end MemoryDoc
