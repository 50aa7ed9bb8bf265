/-
# Expansion

The first macro of a text is replaced by what it turns into, over and over, until there is none
left.  What a macro turns into may have macros in it.  A sweep does the same without going through
what is before the last replaced macro again.

Main statements: a step replaces the first macro and leaves what stands before it as it is
(`step_eq_replaced`), an answer has no macro in it (`find?_of_expand_eq_ok`), and a sweep has the
answer of the expansion (`sweep_nil`).
-/
import MemoryDoc.Macro.Marker
import MemoryDoc.Macro.Pokes
import MemoryDoc.Session

namespace MemoryDoc

namespace Session

variable {σ : Type}

/-! ## One macro -/

/-- The page in the directory `cwd`. -/
def page (env : Environment σ) (cwd : Text) : Page where
  site := env.site
  functions := env.functions
  cwd := cwd

/-- Run a macro that turns into text. -/
def runText (env : Environment σ) (cwd : Text) (m : TextMacro) (arguments : Text) (s : Session σ) :
    Except MacroError (Text × Text) × Session σ :=
  (m.handler (page env cwd) arguments, s)

/-- Run a macro that makes a picture. -/
def runPicture (env : Environment σ) (cwd : Text) (m : PictureMacro) (arguments : Text)
    (s : Session σ) : Except MacroError (Text × Text) × Session σ :=
  if env.site.settings.pictures then
    match m.handler (page env cwd) arguments with
    | .error e => (.error e, s)
    | .ok (job, rest) =>
      match perform env job s with
      | (.error e, s) => (.error e, s)
      | (.ok (), s) => (.ok (job.markup cwd, rest), s)
  else (.error .unsupported, s)

/-- Poke into the current memory. -/
def runPokes (arguments : Text) (s : Session σ) : Except MacroError (Text × Text) × Session σ :=
  match Poke.clauses arguments with
  | (pokes, outcome) =>
    ((outcome.mapError MacroError.fault).map fun rest => ([], rest),
      { s with memory := s.memory.modify (Poke.applyAll · pokes) })

/-- Save the current memory under a name. -/
def runPush (arguments : Text) (s : Session σ) : Except MacroError (Text × Text) × Session σ :=
  (.ok ([], arguments.dropWhile Text.isWordChar),
    { s with memory := s.memory.push (arguments.takeWhile Text.isWordChar) })

/-- Bring back the memory that was saved last. -/
def runPop (arguments : Text) (s : Session σ) : Except MacroError (Text × Text) × Session σ :=
  match s.memory.pop with
  | .error e => (.error (.underflow e), s)
  | .ok memory => (.ok ([], arguments), { s with memory })

/-- Run a macro on the text behind its name: what it turns into, and what is left of the text. -/
def run (env : Environment σ) (cwd : Text) (name : MacroName) (arguments : Text) (s : Session σ) :
    Except MacroError (Text × Text) × Session σ :=
  match name with
  | .text m => runText env cwd m arguments s
  | .picture m => runPicture env cwd m arguments s
  | .pokes => runPokes arguments s
  | .pushs => runPush arguments s
  | .pops => runPop arguments s

/-- A macro that makes a picture turns into the markup of its job if the job is done. -/
theorem run_picture_eq_ok {env : Environment σ} {cwd arguments markup rest : Text}
    {m : PictureMacro} {s s' : Session σ} :
    run env cwd (.picture m) arguments s = (.ok (markup, rest), s') ↔
      env.site.settings.pictures = true ∧
        ∃ job, m.handler (page env cwd) arguments = .ok (job, rest) ∧
          perform env job s = (.ok (), s') ∧ job.markup cwd = markup := by
  change runPicture env cwd m arguments s = _ ↔ _
  rw [runPicture]
  constructor
  · intro h
    split at h
    · next hpictures =>
      split at h
      · cases h
      · next job rest hhandler =>
        split at h
        · cases h
        · next hperform =>
          cases h
          exact ⟨hpictures, job, hhandler, hperform, rfl⟩
    · cases h
  · rintro ⟨hpictures, job, hhandler, hperform, rfl⟩
    simp only [if_pos hpictures, hhandler, hperform]

/-! ## Steps -/

/-- What becomes of a text in one step. -/
inductive Step (σ : Type) where
  /-- There is no macro in the text. -/
  | done
  /-- What stood before the macro, and what it turned into with what stood behind it. -/
  | replaced (before after : Text) (s : Session σ)
  | failed (e : ExpansionError) (s : Session σ)

/-- The text of a macro from its `#` to the next blank. -/
def span (marker after : Text) : Text :=
  (marker ++ after).takeWhile fun c => !Text.isBlank c

/-- The error of an expansion that ends with the error of a macro. -/
def expansionError (marker after : Text) : MacroError → ExpansionError
  | .unsupported => .unsupported marker
  | cause => .inMacro marker (span marker after) cause

/-- What a macro and the text behind its name turn into. -/
def replace (env : Environment σ) (cwd letters after : Text) (s : Session σ) :
    Except ExpansionError Text × Session σ :=
  match MacroName.ofName? letters with
  | none => (.error (.unknown ('#' :: letters)), s)
  | some name =>
    match run env cwd name after s with
    | (.error e, s) => (.error (expansionError ('#' :: letters) after e), s)
    | (.ok (markup, rest), s) => (.ok (markup ++ rest), s)

/-- The session is left as the macro leaves it, if there is a macro of that name. -/
theorem replace_snd (env : Environment σ) (cwd letters after : Text) (s : Session σ) :
    (replace env cwd letters after s).2 =
      match MacroName.ofName? letters with
      | none => s
      | some m => (run env cwd m after s).2 := by
  unfold replace
  cases MacroName.ofName? letters with
  | none => rfl
  | some m =>
    cases hrun : run env cwd m after s with
    | mk result t => cases result <;> simp [hrun]

/-- A macro that does not fail is replaced by what it turns into and what it leaves. -/
theorem replace_eq_ok {env : Environment σ} {cwd letters after t : Text} {s s' : Session σ} :
    replace env cwd letters after s = (.ok t, s') ↔
      ∃ m markup rest, MacroName.ofName? letters = some m ∧
        run env cwd m after s = (.ok (markup, rest), s') ∧ markup ++ rest = t := by
  unfold replace
  constructor
  · intro h
    split at h
    · cases h
    · next m hname =>
      split at h
      · cases h
      · next markup rest s₁ hrun =>
        cases h
        exact ⟨m, markup, rest, hname, hrun, rfl⟩
  · rintro ⟨m, markup, rest, hname, hrun, rfl⟩
    simp only [hname, hrun]

/-- Replace the first macro of a text. -/
def step (env : Environment σ) (cwd t : Text) (s : Session σ) : Step σ :=
  match Marker.find? t with
  | none => .done
  | some (before, letters, after) =>
    match replace env cwd letters after s with
    | (.error e, s) => .failed e s
    | (.ok after, s) => .replaced before after s

/-- Replace macros until there are none left.  There is no answer if that takes more than `fuel`
steps. -/
def expand (env : Environment σ) (cwd : Text) :
    (fuel : Nat) → (t : Text) → Session σ → Option (Except ExpansionError Text × Session σ)
  | 0, _, _ => none
  | fuel + 1, t, s =>
    match step env cwd t s with
    | .done => some (.ok t, s)
    | .failed e s => some (.error e, s)
    | .replaced before after s => expand env cwd fuel (before ++ after) s

/-- **A step replaces the first macro of a text and leaves what stands before it as it is.** -/
theorem step_eq_replaced {env : Environment σ} {cwd t before after : Text} {s s' : Session σ} :
    step env cwd t s = .replaced before after s' ↔
      ∃ letters arguments, Marker.find? t = some (before, letters, arguments) ∧
        replace env cwd letters arguments s = (.ok after, s') := by
  unfold step
  constructor
  · intro h
    split at h
    · cases h
    · next b letters arguments hf =>
      split at h
      · cases h
      · next hreplace =>
        cases h
        exact ⟨letters, arguments, hf, hreplace⟩
  · rintro ⟨letters, arguments, hf, hreplace⟩
    simp only [hf, hreplace]

/-- A step fails as the first macro of a text does. -/
theorem step_eq_failed {env : Environment σ} {cwd t : Text} {s s' : Session σ}
    {e : ExpansionError} :
    step env cwd t s = .failed e s' ↔
      ∃ before letters arguments, Marker.find? t = some (before, letters, arguments) ∧
        replace env cwd letters arguments s = (.error e, s') := by
  unfold step
  constructor
  · intro h
    split at h
    · cases h
    · next before letters arguments hf =>
      split at h
      · next hreplace =>
        cases h
        exact ⟨before, letters, arguments, hf, hreplace⟩
      · cases h
  · rintro ⟨before, letters, arguments, hf, hreplace⟩
    simp only [hf, hreplace]

/-- **An answer has no macro in it.** -/
theorem find?_of_expand_eq_ok {env : Environment σ} {cwd t answer : Text} {s s' : Session σ}
    {fuel : Nat} (h : expand env cwd fuel t s = some (.ok answer, s')) :
    Marker.find? answer = none := by
  induction fuel generalizing t s with
  | zero => cases h
  | succ fuel ih =>
    rw [expand] at h
    split at h
    · next hdone =>
      cases h
      unfold step at hdone
      split at hdone
      · next hf => exact hf
      · split at hdone <;> cases hdone
    · cases h
    · exact ih h

/-! ## Macros at the front -/

/-- A macro at the front of a text is its first, if no letter follows the name. -/
theorem find?_name_append (m : MacroName) {arguments : Text}
    (h : arguments.takeWhile Marker.isNameLetter = []) :
    Marker.find? ('#' :: (m.name ++ arguments)) = some ([], m.name, arguments) := by
  have hname : m.name.all Marker.isNameLetter = true ∧ m.name ≠ [] := by
    cases m with
    | text m => cases m <;> decide
    | picture m => cases m <;> decide
    | _ => decide
  have hletters := List.all_eq_true.1 hname.1
  have htake : (m.name ++ arguments).takeWhile Marker.isNameLetter = m.name := by
    rw [List.takeWhile_append_of_pos hletters, h, List.append_nil]
  have hdrop : (m.name ++ arguments).dropWhile Marker.isNameLetter = arguments := by
    have happend := List.takeWhile_append_dropWhile (p := Marker.isNameLetter)
      (l := m.name ++ arguments)
    rw [htake] at happend
    exact List.append_cancel_left happend
  rw [Marker.find?, htake, hdrop, if_pos ⟨rfl, hname.2⟩]

/-- A macro at the front of a text is replaced by what it turns into. -/
theorem step_name_append {env : Environment σ} {cwd : Text} {s s' : Session σ} {m : MacroName}
    {arguments markup rest : Text} (h : arguments.takeWhile Marker.isNameLetter = [])
    (hrun : run env cwd m arguments s = (.ok (markup, rest), s')) :
    step env cwd ('#' :: (m.name ++ arguments)) s = .replaced [] (markup ++ rest) s' := by
  simp only [step, find?_name_append m h, replace, MacroName.ofName?_name, hrun]

/-! ## Sweeps -/

/-- A text of which the first macro was replaced, as what is behind, the last character first, and
what is ahead.  If `#` is before what the macro turned into, it may begin a macro now, and is ahead. -/
def ready : (behind after : Text) → Text × Text
  | '#' :: behind, after => (behind, '#' :: after)
  | behind, after => (behind, after)

/-- Replace macros until there are none left.  The text is what is behind, the last character first,
and what is ahead.  No macro begins in what is behind, so only what is ahead is gone through. -/
def sweep (env : Environment σ) (cwd : Text) :
    (fuel : Nat) → (behind ahead : Text) → Session σ →
      Option (Except ExpansionError Text × Session σ)
  | 0, _, _, _ => none
  | fuel + 1, behind, ahead, s =>
    match Marker.seek behind ahead with
    | none => some (.ok (behind.reverse ++ ahead), s)
    | some (behind, letters, after) =>
      match replace env cwd letters after s with
      | (.error e, s) => some (.error e, s)
      | (.ok after, s) => sweep env cwd fuel (ready behind after).1 (ready behind after).2 s

/-- What is ready is the text. -/
theorem ready_append (behind after : Text) :
    (ready behind after).1.reverse ++ (ready behind after).2 = behind.reverse ++ after := by
  unfold ready
  split <;> simp

/-- No macro begins in what is behind if none did before the first macro was replaced. -/
theorem find?_ready {t before letters arguments : Text} (after : Text)
    (h : Marker.find? t = some (before, letters, arguments)) :
    Marker.find? ((ready before.reverse after).1.reverse ++ (ready before.reverse after).2) =
      (Marker.find? (ready before.reverse after).2).map fun (b, name, a) =>
        ((ready before.reverse after).1.reverse ++ b, name, a) := by
  unfold ready
  split
  · next _ behind hb =>
    have hbefore : before = behind.reverse ++ ['#'] := by
      rw [← List.reverse_reverse before, hb, List.reverse_cons]
    rw [hbefore] at h
    exact Marker.find?_append_of_find? h fun _ => rfl
  · next hb =>
    rw [List.reverse_reverse]
    refine Marker.find?_append_of_find? (by rwa [List.append_nil]) fun hlast => ?_
    rw [← List.reverse_reverse before, List.getLast?_reverse] at hlast
    obtain ⟨behind, hbehind⟩ := List.head?_eq_some_iff.mp hlast
    exact absurd hbehind (hb behind)

/-- **A sweep has the answer of the expansion.** -/
theorem sweep_eq_expand (env : Environment σ) (cwd : Text) (fuel : Nat) (behind ahead : Text)
    (s : Session σ)
    (h : Marker.find? (behind.reverse ++ ahead) = (Marker.find? ahead).map fun (b, name, a) =>
      (behind.reverse ++ b, name, a)) :
    sweep env cwd fuel behind ahead s = expand env cwd fuel (behind.reverse ++ ahead) s := by
  -- What is behind holds no marker that is not found from ahead, and each turn keeps it so.
  induction fuel generalizing behind ahead s with
  | zero => rfl
  | succ fuel ih =>
    rw [sweep, expand, step, Marker.seek_eq, h]
    cases hf : Marker.find? ahead with
    | none => rfl
    | some found =>
      obtain ⟨before, letters, arguments⟩ := found
      simp only [Option.map_some]
      obtain ⟨outcome, s⟩ := replace env cwd letters arguments s
      cases outcome with
      | error e => rfl
      | ok after =>
        rw [hf, Option.map_some] at h
        have hready := find?_ready after h
        rw [List.reverse_append, List.reverse_reverse] at hready
        simp only
        rw [ih _ _ _ hready, ready_append, List.reverse_append, List.reverse_reverse]

/-- **A sweep through a whole text has the answer of the expansion.** -/
theorem sweep_nil (env : Environment σ) (cwd : Text) (fuel : Nat) (t : Text) (s : Session σ) :
    sweep env cwd fuel [] t s = expand env cwd fuel t s :=
  sweep_eq_expand env cwd fuel [] t s (by cases h : Marker.find? t <;> simp [h])

end Session

end MemoryDoc
