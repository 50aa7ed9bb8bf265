/-
# Outlines of sessions

The outline of a session is what can be told of it without looking at bytes: the names of the saved
memories, the outlines of the frames that are kept for animations, and the paths that were opened.
The bytes of a memory come into tiles only, and what a macro turns into does not depend on tiles.

Main statement: sessions of the same outline come to the same texts and errors and to sessions of
the same outline, whatever is in their memories (`expandAll_withMemory`).
-/
import MemoryDoc.Proofs.Calls
import MemoryDoc.Proofs.Outline.Drawing
import MemoryDoc.Proofs.Outline.Store

namespace MemoryDoc

/-- The environment of the same program with other bytes in its memory. -/
def Environment.withMemory {σ : Type} (env : Environment σ) (memory : Memory) : Environment σ :=
  { env with site := { env.site with listing := { env.site.listing with memory } } }

/-- Frames of the same outlines have the same sizes. -/
theorem Frame.map_size_eq {frames frames' : List Frame}
    (h : frames.map Frame.outline = frames'.map Frame.outline) :
    frames.map Frame.size = frames'.map Frame.size := by
  have hsize : Frame.size ∘ Frame.outline = Frame.size := rfl
  rw [← hsize, ← List.map_map, ← List.map_map, h]

namespace Session

variable {σ : Type}

/-- What can be told of a session without looking at bytes. -/
structure Outline where
  /-- The names of all saved memories. -/
  names : List Text
  /-- The kept frames, with blank tiles. -/
  frames : Dictionary Frame
  opened : List Text
deriving DecidableEq, Repr

/-- The outline of a session. -/
def outline (s : Session σ) : Outline where
  names := s.memory.saved.map (·.2)
  frames := s.frames.mapValues Frame.outline
  opened := s.opened

/-- The sessions have the same outline, and related files. -/
structure Alike (Rel : σ → σ → Prop) (s s' : Session σ) : Prop where
  outline : s.outline = s'.outline
  files : Rel s.files s'.files

/-! ## What keeps sessions alike -/

section

variable {Rel : σ → σ → Prop} {s s' : Session σ}

namespace Alike

theorem frames (h : Alike Rel s s') :
    s.frames.mapValues Frame.outline = s'.frames.mapValues Frame.outline :=
  congrArg Outline.frames h.outline

theorem names (h : Alike Rel s s') :
    s.memory.pushed.map (·.2) = s'.memory.pushed.map (·.2) := by
  have hsaved : s.memory.saved.map (·.2) = s'.memory.saved.map (·.2) :=
    congrArg Outline.names h.outline
  unfold Memory.Stack.saved at hsaved
  rw [List.map_append, List.map_append] at hsaved
  exact List.append_cancel_right hsaved

theorem opened (h : Alike Rel s s') : s.opened = s'.opened :=
  congrArg Outline.opened h.outline

/-- Sessions are alike if what makes up their outlines is. -/
theorem of_parts (hnames : s.memory.pushed.map (·.2) = s'.memory.pushed.map (·.2))
    (hframes : s.frames.mapValues Frame.outline = s'.frames.mapValues Frame.outline)
    (hopened : s.opened = s'.opened) (hfiles : Rel s.files s'.files) : Alike Rel s s' where
  outline := by
    unfold Session.outline Memory.Stack.saved
    rw [List.map_append, List.map_append, hnames, hframes, hopened]
    rfl
  files := hfiles

/-- Sessions are alike when nothing has happened in them. -/
theorem start (memory memory' : Memory) {files files' : σ} (h : Rel files files') :
    Alike Rel (.start memory files) (.start memory' files') where
  outline := rfl
  files := h

theorem withFiles (h : Alike Rel s s') {files files' : σ} (hfiles : Rel files files') :
    Alike Rel { s with files } { s' with files := files' } :=
  of_parts h.names h.frames h.opened hfiles

theorem keep (h : Alike Rel s s') (name : Option Text) {f f' : Frame}
    (hframe : f.outline = f'.outline) : Alike Rel (s.keep name f) (s'.keep name f') := by
  cases name with
  | none => exact h
  | some name =>
    refine of_parts h.names ?_ h.opened h.files
    show (s.frames.set name f).mapValues _ = (s'.frames.set name f').mapValues _
    rw [Dictionary.mapValues_set, Dictionary.mapValues_set, h.frames, hframe]

theorem record (h : Alike Rel s s') {event event' : Event} (he : event.opened? = event'.opened?) :
    Alike Rel (s.record event) (s'.record event') := by
  have hopened : (s.events ++ [event]).filterMap Event.opened? =
      (s'.events ++ [event']).filterMap Event.opened? := by
    rw [List.filterMap_append, List.filterMap_append, List.filterMap_cons, List.filterMap_cons, he]
    exact congrArg (· ++ _) h.opened
  exact of_parts h.names h.frames hopened h.files

end Alike

/-! ## Writing pictures -/

variable {env : Environment σ}

/-- Files are finished alike if the same was said when they were written. -/
theorem agree_finish (hblind : env.Blind Rel) (path : Text)
    {outcome outcome' : Except PictureError (List Piece)}
    (houtcome : (outcome.map fun _ => ()) = outcome'.map fun _ => ()) (h : Alike Rel s s') :
    Agree (Alike Rel) (finish env path outcome s) (finish env path outcome' s') := by
  rcases exists_of_map_eq houtcome with ⟨e, rfl, rfl⟩ | ⟨pieces, pieces', rfl, rfl, -⟩
  · exact ⟨rfl, h⟩
  · obtain ⟨answer, files, files', hflush, hflush', hrel⟩ :=
      (hblind.store.flush path h.files).exists_eq
    unfold finish
    simp only [hflush, hflush']
    cases answer with
    | error reason => exact ⟨rfl, h.withFiles hrel⟩
    | ok u => exact ⟨rfl, h.withFiles hrel⟩

/-- Encoding depends on the sizes of the frames only. -/
theorem agree_encode (hblind : env.Blind Rel) (path : Text) (format : PictureFormat)
    {frames frames' : List Frame} (hsize : frames.map Frame.size = frames'.map Frame.size)
    (h : Alike Rel s s') :
    Agree (Alike Rel) (encode env path format frames s) (encode env path format frames' s') := by
  obtain ⟨houtcome, hrel⟩ := hblind.writePicture path format hsize h.files
  unfold Environment.writePicture at houtcome hrel
  unfold encode
  generalize env.store.encode path s.files (env.encoding format frames) = x at houtcome hrel ⊢
  generalize env.store.encode path s'.files (env.encoding format frames') = x' at houtcome hrel ⊢
  exact agree_finish hblind path houtcome ((h.withFiles hrel).record rfl)

/-- Writing depends on the sizes of the frames only. -/
theorem agree_write (hblind : env.Blind Rel) (path : Text) {frames frames' : List Frame}
    (hsize : frames.map Frame.size = frames'.map Frame.size) (h : Alike Rel s s') :
    Agree (Alike Rel) (write env path frames s) (write env path frames' s') := by
  unfold write
  cases PictureFormat.ofPath? path with
  | none => exact ⟨rfl, h⟩
  | some format =>
    obtain ⟨answer, files, files', hopen, hopen', hrel⟩ :=
      (hblind.store.openFile path h.files).exists_eq
    simp only [hopen, hopen']
    cases answer with
    | error reason => exact ⟨rfl, h.withFiles hrel⟩
    | ok u => exact agree_encode hblind path format hsize ((h.withFiles hrel).record rfl)

theorem agree_writeFor (hblind : env.Blind Rel) (path : Text) {frames frames' : List Frame}
    (hsize : frames.map Frame.size = frames'.map Frame.size) (h : Alike Rel s s') :
    Agree (Alike Rel) (writeFor env path frames s) (writeFor env path frames' s') := by
  obtain ⟨answer, t, t', hwrite, hwrite', halike⟩ := (agree_write hblind path hsize h).exists_eq
  rw [writeFor, writeFor, hwrite, hwrite']
  cases answer with
  | error e => exact ⟨rfl, halike⟩
  | ok u => exact ⟨rfl, halike⟩

/-! ## Picture jobs -/

/-- A drawing depends on the memory only in the pixels of its tiles. -/
theorem agree_draw (hblind : env.Blind Rel) (drawing : Drawing) (keepAs path : Option Text)
    (h : Alike Rel s s') :
    Agree (Alike Rel) (draw env drawing keepAs path s) (draw env drawing keepAs path s') := by
  have hframe := drawing.outline_frame_eq s.memory.current s'.memory.current
  rw [draw, draw]
  rcases exists_of_map_eq hframe with ⟨e, he, he'⟩ | ⟨f, f', hf, hf', houtline⟩
  · rw [he, he']
    exact ⟨rfl, h⟩
  · have hkept := h.keep keepAs houtline
    rw [hf, hf']
    cases path with
    | none => exact ⟨rfl, hkept⟩
    | some path =>
      have hsize : [f].map Frame.size = [f'].map Frame.size :=
        Frame.map_size_eq (congrArg (fun g => [g]) houtline)
      exact agree_writeFor hblind path hsize hkept

/-- Both sessions need the same pictures. -/
theorem needs_eq (hblind : env.Blind Rel) (h : Alike Rel s s') :
    env.store.needs s.files = env.store.needs s'.files := by
  funext path
  rw [Store.needs, Store.needs, hblind.store.has path h.files]

/-- The outlines of the frames of an animation are found among outlines. -/
theorem map_outline_frames (kept : Dictionary Frame) (arguments : Text) (delay : UInt32)
    (parts : List Text) :
    (PictureJob.frames kept arguments delay parts).map (·.map Frame.outline) =
      PictureJob.frames (kept.mapValues Frame.outline) arguments delay parts := by
  induction parts generalizing delay with
  | nil => rfl
  | cons part parts ih =>
    rw [PictureJob.frames_cons, PictureJob.frames_cons]
    cases PictureJob.cel delay part with
    | error fault => rfl
    | ok c =>
      obtain ⟨name, delay'⟩ := c
      by_cases hname : name = []
      · simp only [if_pos hname]
        rfl
      · simp only [if_neg hname, Dictionary.find?_mapValues, ← ih]
        cases kept.find? name with
        | none => rfl
        | some f => cases PictureJob.frames kept arguments delay' parts <;> rfl

theorem agree_perform (hblind : env.Blind Rel) (job : PictureJob) (h : Alike Rel s s') :
    Agree (Alike Rel) (perform env job s) (perform env job s') := by
  cases job with
  | still drawing keepAs path =>
    have hwanted : wanted env path s = wanted env path s' := by
      unfold wanted
      rw [needs_eq hblind h]
    rw [perform_still, perform_still, hwanted]
    split
    · exact ⟨rfl, h⟩
    · exact agree_draw hblind drawing keepAs _ h
  | animation cels arguments path =>
    rw [perform, perform, needs_eq hblind h]
    split
    · have hframes :
          (PictureJob.animationFrames s.frames arguments cels).map (·.map Frame.outline) =
            (PictureJob.animationFrames s'.frames arguments cels).map (·.map Frame.outline) := by
        unfold PictureJob.animationFrames
        rw [map_outline_frames, map_outline_frames, h.frames]
      rcases exists_of_map_eq hframes with ⟨fault, hf, hf'⟩ | ⟨frames, frames', hf, hf', houtline⟩
      · rw [hf, hf']
        exact ⟨rfl, h⟩
      · rw [hf, hf']
        exact agree_writeFor hblind path (Frame.map_size_eq houtline) h
    · exact ⟨rfl, h⟩

/-! ## Macros -/

/-- A macro that turns into text does not look at the memory. -/
theorem handler_withMemory_text (env : Environment σ) (memory : Memory) (cwd : Text)
    (m : TextMacro) : m.handler (page (env.withMemory memory) cwd) = m.handler (page env cwd) := by
  cases m <;> rfl

theorem handler_withMemory_picture (env : Environment σ) (memory : Memory) (cwd : Text)
    (m : PictureMacro) :
    m.handler (page (env.withMemory memory) cwd) = m.handler (page env cwd) := by
  cases m <;> rfl

/-- A picture macro does the same in both sessions, but for the pixels. -/
theorem agree_runPicture (hblind : env.Blind Rel) (memory : Memory) (cwd : Text) (m : PictureMacro)
    (arguments : Text) (h : Alike Rel s s') :
    Agree (Alike Rel) (runPicture env cwd m arguments s)
      (runPicture (env.withMemory memory) cwd m arguments s') := by
  unfold runPicture
  rw [handler_withMemory_picture]
  show Agree _ _ (if env.site.settings.pictures then _ else _)
  split
  · cases m.handler (page env cwd) arguments with
    | error e => exact ⟨rfl, h⟩
    | ok result =>
      obtain ⟨job, rest⟩ := result
      obtain ⟨answer, t, t', hperform, hperform', halike⟩ := (agree_perform hblind job h).exists_eq
      have hsame : perform (env.withMemory memory) job s' = perform env job s' := rfl
      simp only
      rw [hsame, hperform, hperform']
      cases answer with
      | error e => exact ⟨rfl, halike⟩
      | ok u => exact ⟨rfl, halike⟩
  · exact ⟨rfl, h⟩

/-- A pop fails in both sessions, or brings back memories that were saved under one name. -/
theorem agree_runPop (h : Alike Rel s s') (arguments : Text) :
    Agree (Alike Rel) (runPop arguments s) (runPop arguments s') := by
  have hnames := h.names
  unfold runPop Memory.Stack.pop
  cases hpushed : s.memory.pushed with
  | nil =>
    cases hpushed' : s'.memory.pushed with
    | nil => exact ⟨rfl, h⟩
    | cons _ _ =>
      rw [hpushed, hpushed'] at hnames
      cases hnames
  | cons p pushed =>
    cases hpushed' : s'.memory.pushed with
    | nil =>
      rw [hpushed, hpushed'] at hnames
      cases hnames
    | cons p' pushed' =>
      rw [hpushed, hpushed', List.map_cons, List.map_cons, List.cons.injEq] at hnames
      exact ⟨rfl, .of_parts hnames.2 h.frames h.opened h.files⟩

/-- **No macro looks at the bytes of memories and kept frames.** -/
theorem agree_run (hblind : env.Blind Rel) (memory : Memory) (cwd : Text) (name : MacroName)
    (arguments : Text) (h : Alike Rel s s') :
    Agree (Alike Rel) (run env cwd name arguments s)
      (run (env.withMemory memory) cwd name arguments s') := by
  cases name with
  | text m =>
    rw [run, run, runText, runText, handler_withMemory_text]
    exact ⟨rfl, h⟩
  | picture m => exact agree_runPicture hblind memory cwd m arguments h
  | pokes => exact ⟨rfl, .of_parts h.names h.frames h.opened h.files⟩
  | pushs => exact ⟨rfl, .of_parts (congrArg (_ :: ·) h.names) h.frames h.opened h.files⟩
  | pops => exact agree_runPop h arguments

/-- **A macro does the same in both sessions, but for the pixels.** -/
theorem agree_replace (hblind : env.Blind Rel) (memory : Memory) (cwd letters arguments : Text)
    (h : Alike Rel s s') :
    Agree (Alike Rel) (replace env cwd letters arguments s)
      (replace (env.withMemory memory) cwd letters arguments s') := by
  unfold replace
  cases MacroName.ofName? letters with
  | none => exact ⟨rfl, h⟩
  | some name =>
    obtain ⟨answer, t, t', hrun, hrun', halike⟩ :=
      (agree_run hblind memory cwd name arguments h).exists_eq
    simp only [hrun, hrun']
    cases answer with
    | error e => exact ⟨rfl, halike⟩
    | ok result => exact ⟨rfl, halike⟩

/-- **A session goes along with one on another memory.** -/
theorem simulates_withMemory (hblind : env.Blind Rel) (memory : Memory) :
    Simulates env (env.withMemory memory) (fun _ => True) (Alike Rel) := by
  intro cwd letters arguments s s' answer t h hreplace _
  obtain ⟨answer', u, t', hr, hr', halike⟩ :=
    (agree_replace hblind memory cwd letters arguments h).exists_eq
  rw [hreplace] at hr
  cases hr
  exact ⟨t', hr', halike⟩

end

/-! ## Whole runs -/

/-- **What texts turn into does not depend on the bytes in memories.**  Where the store and the
encoder look at no colours, take two programs that differ in the bytes of their memories only, and
two sessions that differ in the bytes of memories and kept frames only.  Texts that are expanded one
after the other turn into the same or fail alike, and the sessions differ in such bytes only in the
end: the same paths were opened in the same order.  If an expansion never ends, it comes to the same
macros in sessions that differ in such bytes only. -/
theorem expandAll_withMemory (env : Environment σ) {Rel : σ → σ → Prop} (hblind : env.Blind Rel)
    (memory : Memory) (s s' : Session σ) (h : Alike Rel s s') (fuel : Nat) :
    (∀ calls,
      expandAll env fuel calls s = none ∧ expandAll (env.withMemory memory) fuel calls s' = none ∨
      ∃ answers t t', expandAll env fuel calls s = some (answers, t) ∧
        expandAll (env.withMemory memory) fuel calls s' = some (answers, t') ∧ Alike Rel t t') ∧
    ∀ cwd text,
      (dispatches env cwd fuel text s).map (fun d => (d.letters, d.arguments, d.session.outline)) =
        (dispatches (env.withMemory memory) cwd fuel text s').map
          fun d => (d.letters, d.arguments, d.session.outline) := by
  have hsim := simulates_withMemory hblind memory
  constructor
  · intro calls
    cases hrun : expandAll env fuel calls s with
    | none => exact .inl ⟨rfl, expandAll_eq_none_of_simulates hsim h hrun⟩
    | some result =>
      obtain ⟨answers, t⟩ := result
      obtain ⟨t', hrun', ht⟩ :=
        expandAll_of_simulates hsim (fun _ => trivial) h hrun fun _ _ => trivial
      exact .inr ⟨answers, t, t', rfl, hrun', ht⟩
  · intro cwd text
    exact map_dispatches_of_simulates hsim (fun _ _ hs => hs.outline) cwd fuel text h

/-- Texts that keep the picture of a tile, poke into the tile, and show both pictures. -/
def pokedAndShown : List Call :=
  [⟨"#PUSHSsafe#UDGARRAY1;32768(*a)".toList, []⟩,
    ⟨"#POKES32768,1;32769,2#UDGARRAY1;32768(*b)".toList, []⟩,
    ⟨"#POPS#UDGARRAY*a;b(c)".toList, "asm".toList⟩]

/-- What these texts turn into. -/
def pokedAndShownTexts : List Text :=
  [[], [], "<img alt=\"c\" src=\"../images/udgs/c.png\" />".toList]

/-- A byte of the tile is another in the second memory. -/
theorem expandAll_withMemory_pokedAndShown :
    ∃ s s' : Session (List Text),
      expandAll (.usual ({} : Store.Listed).store) 4 pokedAndShown (start .zeros [])
        = some (pokedAndShownTexts.map .ok, s) ∧
      expandAll
          ((Environment.usual ({} : Store.Listed).store).withMemory (.poke .zeros 32768 255)) 4
          pokedAndShown (start (.poke .zeros 32768 255) [])
        = some (pokedAndShownTexts.map .ok, s') ∧
      s.outline = s'.outline := by
  have hblind : (Environment.usual ({} : Store.Listed).store).Blind Eq :=
    Environment.blind_of_store (Store.Listed.blind _) (Store.Listed.writesBlindly _)
      fun format _ _ h => Encoding.alike_ofFrames format h
  have htexts : (expandAll (.usual ({} : Store.Listed).store) 4 pokedAndShown
      (start .zeros [])).map (·.1.map Except.toOption)
        = some (pokedAndShownTexts.map some) := by decide +kernel
  obtain ⟨s, hrun⟩ := exists_expandAll_eq htexts
  obtain ⟨hall, -⟩ := expandAll_withMemory _ hblind (.poke .zeros 32768 255) (start .zeros [])
    (start (.poke .zeros 32768 255) []) (.start _ _ rfl) 4
  rcases hall pokedAndShown with ⟨hnone, -⟩ | ⟨answers, t, t', hrun', ht', halike⟩
  · rw [hrun] at hnone
    cases hnone
  · rw [hrun] at hrun'
    cases hrun'
    exact ⟨s, t', hrun, ht', halike.outline⟩

/-! ## A store that looks at what is written -/

/-- A store that writes anything, but finishes no file once something black was written. -/
def inkShy : Store Bool where
  replaces := true
  has _ _ := false
  openFile blackened _ := (.ok (), blackened)
  write blackened _ piece := (.ok (), blackened || piece.raster.colours.contains .black)
  flush blackened _ := (if blackened then .error "flush refused" else .ok (), blackened)

/-- A text that shows the tile at the address 0. -/
def tileShown : List Call :=
  [⟨"#UDG0,,1(x)".toList, []⟩]

/-- **It is not enough that the encoder looks at no colours.**  Here whether a picture can be written
to an open file depends on the sizes of its frames and on the format only, but the store tells
whether a pixel of the tile is set when it is asked to finish the file, and so does the answer. -/
theorem expandAll_inkShy :
    (∀ path format ⦃frames frames' : List Frame⦄ files files',
      frames.map Frame.size = frames'.map Frame.size →
        ((Environment.usual inkShy).writePicture path format frames files).1 =
          ((Environment.usual inkShy).writePicture path format frames' files').1) ∧
      (start .zeros false).outline = (start (.poke .zeros 0 255) false).outline ∧
      (∃ t, expandAll (.usual inkShy) 2 tileShown (start .zeros false) =
        some ([.ok "<img alt=\"x\" src=\"images/udgs/x.png\" />".toList], t)) ∧
      ∃ t, expandAll ((Environment.usual inkShy).withMemory (.poke .zeros 0 255)) 2 tileShown
          (start (.poke .zeros 0 255) false) =
        some ([.error (.inMacro "#UDG" "#UDG0,,1(x)"
          (.picture (.unwritable "images/udgs/x.png" "flush refused")))], t) := by
  have hwrite : inkShy.WritesBlindly fun _ _ => True := fun _ _ _ _ _ _ => ⟨rfl, trivial⟩
  -- Both sessions are run. They differ in one byte, which makes a pixel black.
  have hsame : (expandAll (.usual inkShy) 2 tileShown (start .zeros false)).map (·.1) =
      some [.ok "<img alt=\"x\" src=\"images/udgs/x.png\" />".toList] := by decide +kernel
  have hother : (expandAll ((Environment.usual inkShy).withMemory (.poke .zeros 0 255)) 2 tileShown
      (start (.poke .zeros 0 255) false)).map (·.1) =
        some [.error (.inMacro "#UDG" "#UDG0,,1(x)"
          (.picture (.unwritable "images/udgs/x.png" "flush refused")))] := by decide +kernel
  have halike : Alike (fun _ _ => True) (start .zeros false) (start (.poke .zeros 0 255) false) :=
    .start _ _ trivial
  refine ⟨fun path format frames frames' files files' hsize => ?_, halike.outline,
    exists_expandAll_eq_some hsame, exists_expandAll_eq_some hother⟩
  have hagree : Agree (fun _ _ => True)
      ((Environment.usual inkShy).writePicture path format frames files)
      ((Environment.usual inkShy).writePicture path format frames' files') :=
    Environment.agree_writePicture hwrite (fun format _ _ h => Encoding.alike_ofFrames format h)
      path format hsize trivial
  exact hagree.1

end Session

end MemoryDoc
