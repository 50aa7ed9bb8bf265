/-
# Rebuilding all pictures

A store that replaces its files makes every picture anew.  Any other store leaves out the pictures
that exist: then less is drawn and less is written, but the texts, the memories and the frames kept
for animations are the same.

Main statement: what is expanded where all pictures are rebuilt is expanded to the same with any
other store (`expandAll_withStore_of_replaces`).
-/
import MemoryDoc.Proofs.Calls
import MemoryDoc.Proofs.Writing
import MemoryDoc.Store.Listed

namespace MemoryDoc

/-- Opening, writing and finishing files never fails. -/
structure Store.NeverFails {σ : Type} (store : Store σ) : Prop where
  openFile : ∀ files path, (store.openFile files path).1 = .ok ()
  write : ∀ files path piece, (store.write files path piece).1 = .ok ()
  flush : ∀ files path, (store.flush files path).1 = .ok ()

variable {σ τ : Type}

/-! ## Stores that never fail -/

namespace Store

/-- All pieces are written by a store that never fails. -/
theorem NeverFails.writeAll_fst {store : Store σ} (h : store.NeverFails) (path : Text) (files : σ)
    (pieces : List Piece) : (store.writeAll path files pieces).1 = .ok () := by
  induction pieces generalizing files with
  | nil => rfl
  | cons piece pieces ih =>
    have hw := h.write files path piece
    rw [writeAll]
    split
    · exact ih _
    · next hf =>
      rw [hf] at hw
      cases hw

/-- A store that never fails takes every encoding as it ends. -/
theorem NeverFails.encode_fst {store : Store σ} (h : store.NeverFails) (path : Text) (files : σ)
    (encoding : Encoding) :
    (store.encode path files encoding).1 = encoding.outcome.map fun _ => encoding.pieces := by
  have hw := h.writeAll_fst path files encoding.pieces
  rw [encode]
  split
  · next hf =>
    rw [hf] at hw
    cases hw
  · rfl

/-- What is encoded to the end in one store is encoded to the end where writing never fails. -/
theorem outcome_of_encode_fst {store : Store σ} {path : Text} {files : σ} {encoding : Encoding}
    {pieces : List Piece} (h : (store.encode path files encoding).1 = .ok pieces) :
    encoding.outcome = .ok () := by
  rw [encode] at h
  split at h
  · cases h
  · cases ho : encoding.outcome with
    | error e =>
      rw [ho] at h
      cases h
    | ok u => rfl

end Store

namespace Session

/-- The pictures that were encoded, in order: their paths, formats and frames. -/
def pictures (s : Session σ) : List (Text × PictureFormat × List Frame) :=
  s.events.filterMap fun
    | .opened _ => none
    | .encoded path format frames _ => some (path, format, frames)

/-! ## Writing a picture -/

/-- `t` is `s` after the frames have been written to a file. -/
structure Wrote (path : Text) (format : PictureFormat) (fs : List Frame) (s t : Session σ) :
    Prop where
  memory : t.memory = s.memory
  frames : t.frames = s.frames
  events : ∃ pieces, t.events = s.events ++ [.opened path, .encoded path format fs (.ok pieces)]

/-- A picture that is written is added to those before. -/
theorem Wrote.pictures {path : Text} {format : PictureFormat} {frames : List Frame}
    {s t : Session σ} (h : Wrote path format frames s t) :
    t.pictures = s.pictures ++ [(path, format, frames)] := by
  obtain ⟨pieces, he⟩ := h.events
  rw [Session.pictures, he]
  simp [Session.pictures]

/-- A picture that was written has a format in which its frames can be encoded. -/
theorem Writing.wrote {env : Environment σ} {path : Text} {frames : List Frame} {s t : Session σ}
    {answer : Except PictureError Unit} (h : Writing env path frames s answer t)
    (hok : answer = .ok ()) :
    ∃ format, PictureFormat.ofPath? path = some format ∧
      (env.encoding format frames).outcome = .ok () ∧ Wrote path format frames s t := by
  cases h with
  | @written format pieces _ _ _ _ hformat _ hencode _ =>
    have houtcome := Store.outcome_of_encode_fst (congrArg Prod.fst hencode)
    exact ⟨format, hformat, houtcome, rfl, rfl, pieces, rfl⟩
  | _ => cases hok

/-- Where writing never fails, frames are written if they can be encoded. -/
theorem exists_write {env : Environment σ} (hstore : env.store.NeverFails) {path : Text}
    {format : PictureFormat} {frames : List Frame} (hf : PictureFormat.ofPath? path = some format)
    (ho : (env.encoding format frames).outcome = .ok ()) (s : Session σ) :
    ∃ t, write env path frames s = (.ok (), t) ∧ Wrote path format frames s t := by
  obtain ⟨files₁, h₁⟩ : ∃ files, env.store.openFile s.files path = (.ok (), files) :=
    ⟨_, Prod.ext (hstore.openFile s.files path) rfl⟩
  obtain ⟨files₂, h₂⟩ : ∃ files, env.store.encode path files₁ (env.encoding format frames)
      = (.ok (env.encoding format frames).pieces, files) := by
    refine ⟨_, Prod.ext ?_ rfl⟩
    rw [hstore.encode_fst, ho]
    rfl
  obtain ⟨files₃, h₃⟩ : ∃ files, env.store.flush files₂ path = (.ok (), files) :=
    ⟨_, Prod.ext (hstore.flush files₂ path) rfl⟩
  have hw : ∃ t, write env path frames s = (.ok (), t) := by
    rw [write, hf]
    simp only [h₁, encode, record, h₂, finish, h₃]
    exact ⟨_, rfl⟩
  obtain ⟨t, ht⟩ := hw
  obtain ⟨format', hf', -, hwrote⟩ := (writing_of_write ht).wrote rfl
  rw [hf] at hf'
  cases hf'
  exact ⟨t, ht, hwrote⟩

/-! ## Two sessions -/

/-- `s'` has the memories and the frames of `s`, and some of its pictures. -/
structure Spared (s : Session σ) (s' : Session τ) : Prop where
  memory : s'.memory = s.memory
  frames : s'.frames = s.frames
  pictures : s'.pictures.Sublist s.pictures

theorem Spared.keep {s : Session σ} {s' : Session τ} (h : Spared s s') (name : Option Text)
    (frame : Frame) : Spared (s.keep name frame) (s'.keep name frame) := by
  cases name with
  | none => exact h
  | some name =>
    refine ⟨h.memory, ?_, h.pictures⟩
    simp only [Session.keep, h.frames]

/-- A picture may be written in the one session only. -/
theorem Spared.wrote_left {path : Text} {format : PictureFormat} {frames : List Frame}
    {s t : Session σ} {s' : Session τ} (h : Spared s s') (hw : Wrote path format frames s t) :
    Spared t s' where
  memory := h.memory.trans hw.memory.symm
  frames := h.frames.trans hw.frames.symm
  pictures := by
    rw [hw.pictures]
    exact h.pictures.trans (List.sublist_append_left _ _)

/-- A picture may be written in both sessions. -/
theorem Spared.wrote {path : Text} {format : PictureFormat} {frames : List Frame}
    {s t : Session σ} {s' t' : Session τ} (h : Spared s s') (hw : Wrote path format frames s t)
    (hw' : Wrote path format frames s' t') : Spared t t' where
  memory := by rw [hw.memory, hw'.memory, h.memory]
  frames := by rw [hw.frames, hw'.frames, h.frames]
  pictures := by
    rw [hw.pictures, hw'.pictures]
    exact h.pictures.append (List.Sublist.refl _)

/-! ## Macros -/

section Macros

variable {env : Environment σ} {store : Store τ} {s t : Session σ} {s' : Session τ}

theorem wanted_of_replaces (h : env.store.replaces = true) (path : Option Text) (s : Session σ) :
    wanted env path s = path := by
  have hneeds : ∀ p, env.store.needs s.files p = true := fun p => by simp [Store.needs, h]
  cases path with
  | none => rfl
  | some path => simp [wanted, Option.filter, hneeds]

/-- A file is wanted by a session, or its picture is left out. -/
theorem wanted_eq_or (env : Environment σ) (path : Option Text) (s : Session σ) :
    wanted env path s = path ∨ wanted env path s = none := by
  cases path with
  | none => exact Or.inl rfl
  | some path =>
    by_cases h : env.store.needs s.files path
    · exact Or.inl (by simp [wanted, Option.filter, h])
    · exact Or.inr (by simp [wanted, Option.filter, h])

/-- A path that is asked for and does not fail has been written. -/
theorem wrote_of_writeFor {path : Text} {frames : List Frame}
    (h : writeFor env path frames s = (.ok (), t)) :
    ∃ format, PictureFormat.ofPath? path = some format ∧
      (env.encoding format frames).outcome = .ok () ∧ Wrote path format frames s t := by
  rw [writeFor] at h
  split at h
  · next hw =>
    cases h
    exact (writing_of_write hw).wrote rfl
  · cases h

/-- Frames that were written in one session can be written in the other, or left out. -/
theorem Spared.writeFor (h : Spared s s') (hstore : store.NeverFails) {path : Text}
    {frames : List Frame} (hw : Session.writeFor env path frames s = (.ok (), t)) :
    Spared t s' ∧ ∃ t', Session.writeFor (env.withStore store) path frames s' = (.ok (), t') ∧
      Spared t t' := by
  obtain ⟨format, hf, ho, hwrote⟩ := wrote_of_writeFor hw
  have hstore' : (env.withStore store).store.NeverFails := hstore
  obtain ⟨t', ht', hwrote'⟩ := exists_write hstore' hf ho s'
  refine ⟨h.wrote_left hwrote, t', ?_, h.wrote hwrote hwrote'⟩
  rw [Session.writeFor, ht']

/-- A drawing that was written in one session can be written in the other; if its picture is left
out, its frame is kept all the same. -/
theorem Spared.draw (h : Spared s s') (hstore : store.NeverFails) {drawing : Drawing}
    {keepAs path : Option Text} (hd : Session.draw env drawing keepAs path s = (.ok (), t)) :
    (keepAs = none → Spared t s') ∧
    (∃ t', Session.draw (env.withStore store) drawing keepAs path s' = (.ok (), t') ∧ Spared t t') ∧
    ∃ t', Session.draw (env.withStore store) drawing keepAs none s' = (.ok (), t') ∧
      Spared t t' := by
  simp only [Session.draw, h.memory] at hd ⊢
  cases hframe : drawing.frame s.memory.current with
  | error e =>
    rw [hframe] at hd
    cases hd
  | ok frame =>
    rw [hframe] at hd
    have hkeep := h.keep keepAs frame
    cases path with
    | none =>
      cases hd
      refine ⟨?_, ⟨_, rfl, hkeep⟩, ⟨_, rfl, hkeep⟩⟩
      rintro rfl
      exact h
    | some path =>
      obtain ⟨hleft, t', ht', hboth⟩ := hkeep.writeFor hstore hd
      refine ⟨?_, ⟨t', ht', hboth⟩, ⟨_, rfl, hleft⟩⟩
      rintro rfl
      exact hleft

/-- **A picture job that is done where all pictures are rebuilt is done with any other store.** -/
theorem Spared.perform (h : Spared s s') (hreplaces : env.store.replaces = true)
    (hstore : store.NeverFails) {job : PictureJob}
    (hp : Session.perform env job s = (.ok (), t)) :
    ∃ t', Session.perform (env.withStore store) job s' = (.ok (), t') ∧ Spared t t' := by
  cases job with
  | still drawing keepAs path =>
    rw [perform_still, wanted_of_replaces hreplaces] at hp
    rw [perform_still]
    -- Every picture is wanted, so nothing is left out but a picture without a file.
    have hdraw : Session.draw env drawing keepAs path s = (.ok (), t) ∨
        keepAs = none ∧ path = none ∧ t = s := by
      split at hp
      · next hnone =>
        cases hp
        exact Or.inr ⟨hnone.1, hnone.2, rfl⟩
      · exact Or.inl hp
    rcases hdraw with hdraw | ⟨rfl, rfl, rfl⟩
    · obtain ⟨hskip, hfull, hkept⟩ := h.draw hstore hdraw
      split
      · next hnone => exact ⟨s', rfl, hskip hnone.1⟩
      · rcases wanted_eq_or (env.withStore store) path s' with hw | hw <;> rw [hw]
        · exact hfull
        · exact hkept
    · exact ⟨s', if_pos ⟨rfl, rfl⟩, h⟩
  | animation cels arguments path =>
    -- The frames are looked up where all are rebuilt, but need not be in the other session.
    have hneeds : env.store.needs s.files path = true := by simp [Store.needs, hreplaces]
    rw [Session.perform, if_pos hneeds] at hp
    rw [Session.perform, h.frames]
    cases hframes : PictureJob.animationFrames s.frames arguments cels with
    | error fault =>
      rw [hframes] at hp
      cases hp
    | ok frames =>
      rw [hframes] at hp
      obtain ⟨hleft, hboth⟩ := h.writeFor hstore hp
      split
      · exact hboth
      · exact ⟨s', rfl, hleft⟩

/-- **A macro that is run where all pictures are rebuilt is run with any other store,** and turns
into the same. -/
theorem Spared.run (h : Spared s s') (hreplaces : env.store.replaces = true)
    (hstore : store.NeverFails) {cwd arguments : Text} {name : MacroName} {result : Text × Text}
    (hr : Session.run env cwd name arguments s = (.ok result, t)) :
    ∃ t', Session.run (env.withStore store) cwd name arguments s' = (.ok result, t') ∧
      Spared t t' := by
  -- The three macros of the memory change it alike, since it is the same in both sessions.
  have hmemory (m : Memory.Stack) : Spared { s with memory := m } { s' with memory := m } :=
    ⟨rfl, h.frames, h.pictures⟩
  cases name with
  | text m =>
    simp only [Session.run, runText, Prod.mk.injEq] at hr ⊢
    obtain ⟨hr, rfl⟩ := hr
    exact ⟨s', ⟨hr, rfl⟩, h⟩
  | picture m =>
    change runPicture env cwd m arguments s = _ at hr
    show ∃ t', runPicture (env.withStore store) cwd m arguments s' = _ ∧ _
    simp only [runPicture] at hr ⊢
    split at hr
    · next hpictures =>
      have hpictures' : (env.withStore store).site.settings.pictures = true := hpictures
      rw [if_pos hpictures']
      split at hr
      · cases hr
      · next job rest hhandler =>
        have hhandler' : m.handler (page (env.withStore store) cwd) arguments
            = .ok (job, rest) := hhandler
        split at hr
        · cases hr
        · next hperform =>
          cases hr
          obtain ⟨t', ht', hs⟩ := h.perform hreplaces hstore hperform
          rw [hhandler']
          simp only [ht']
          exact ⟨t', rfl, hs⟩
    · cases hr
  | pokes =>
    simp only [Session.run, runPokes, Prod.mk.injEq] at hr ⊢
    obtain ⟨hr, rfl⟩ := hr
    refine ⟨_, ⟨hr, rfl⟩, ?_⟩
    rw [h.memory]
    exact hmemory _
  | pushs =>
    simp only [Session.run, runPush, Prod.mk.injEq] at hr ⊢
    obtain ⟨hr, rfl⟩ := hr
    refine ⟨_, ⟨hr, rfl⟩, ?_⟩
    rw [h.memory]
    exact hmemory _
  | pops =>
    simp only [Session.run, runPop, h.memory] at hr ⊢
    split at hr
    · cases hr
    · cases hr
      exact ⟨_, rfl, hmemory _⟩

/-- **A session whose calls succeed goes along with one on any store that never fails.** -/
theorem simulates_withStore (hreplaces : env.store.replaces = true) (hstore : store.NeverFails) :
    Simulates env (env.withStore store) (fun answer => answer.isOk) Spared := by
  intro cwd letters arguments s s' answer t h hr hok
  cases answer with
  | error e => cases hok
  | ok text =>
    obtain ⟨m, markup, rest, hname, hrun, rfl⟩ := replace_eq_ok.1 hr
    obtain ⟨t', ht', hs⟩ := h.run hreplaces hstore hrun
    exact ⟨t', replace_eq_ok.2 ⟨m, markup, rest, hname, ht', rfl⟩, hs⟩

end Macros

/-! ## Whole runs -/

/-- **Pictures need not be rebuilt.**  If texts can be expanded one after the other where every
picture is made anew, they can be expanded with any other store that never fails.  They turn into
the same, the memories and the kept frames are the same in the end, and the pictures that are made
are some of those made before, in the same order. -/
theorem expandAll_withStore_of_replaces (env : Environment σ) (store : Store τ)
    (hreplaces : env.store.replaces = true) (hstore : store.NeverFails) (memory : Memory.Stack)
    (frames : Dictionary Frame) (files : σ) (files' : τ) (calls : List Call) (fuel : Nat)
    (texts : List Text) (s : Session σ)
    (hrun : expandAll env fuel calls (resume memory frames files) = some (texts.map .ok, s)) :
    ∃ s' : Session τ,
      expandAll (env.withStore store) fuel calls (resume memory frames files')
        = some (texts.map .ok, s') ∧
      s'.memory = s.memory ∧ s'.frames = s.frames ∧ s'.pictures.Sublist s.pictures := by
  have hstart : Spared (resume memory frames files) (resume memory frames files') :=
    ⟨rfl, rfl, List.Sublist.refl _⟩
  have hok : ∀ a ∈ (texts.map .ok : List (Except ExpansionError Text)), a.isOk := by
    simp [Except.isOk, Except.toBool]
  obtain ⟨s', hrun', hs⟩ :=
    expandAll_of_simulates (simulates_withStore hreplaces hstore) (fun _ => rfl) hstart hrun hok
  exact ⟨s', hrun', hs.memory, hs.frames, hs.pictures⟩

/-- Two texts: a frame is made and kept, and then shown in an animation. -/
def keptAndShown : List Call :=
  [⟨"#UDGARRAY1;32768(a*b)".toList, []⟩, ⟨"#UDGARRAY*b(c)".toList, "asm".toList⟩]

/-- What these texts turn into. -/
def keptAndShownTexts : List Text :=
  ["<img alt=\"a\" src=\"images/udgs/a.png\" />".toList,
    "<img alt=\"c\" src=\"../images/udgs/c.png\" />".toList]

/-- The frame is kept although its own picture exists and is left out. -/
theorem expandAll_withStore_keptAndShown :
    ∃ s s' : Session (List Text),
      expandAll (.usual ({ replaces := true } : Store.Listed).store) 2 keptAndShown
          (resume (.ofMemory .zeros) [] [])
        = some (keptAndShownTexts.map .ok, s) ∧
      expandAll (.usual ({} : Store.Listed).store) 2 keptAndShown
          (resume (.ofMemory .zeros) [] ["images/udgs/a.png".toList])
        = some (keptAndShownTexts.map .ok, s') ∧
      s'.memory = s.memory ∧ s'.frames = s.frames ∧ s'.pictures.Sublist s.pictures := by
  have hstore : (({} : Store.Listed).store).NeverFails :=
    ⟨fun _ _ => rfl, fun _ _ _ => rfl, fun _ _ => rfl⟩
  have htexts : (expandAll (.usual ({ replaces := true } : Store.Listed).store) 2 keptAndShown
      (resume (.ofMemory .zeros) [] [])).map (·.1.map Except.toOption)
        = some (keptAndShownTexts.map some) := by decide +kernel
  obtain ⟨s, hrun⟩ := exists_expandAll_eq htexts
  obtain ⟨s', hrun'⟩ := expandAll_withStore_of_replaces _ _ rfl hstore _ _ _
    ["images/udgs/a.png".toList] _ _ _ _ hrun
  exact ⟨s, s', hrun, hrun'⟩

end Session

end MemoryDoc
