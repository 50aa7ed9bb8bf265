/-
# Runs that end

Expansion puts what a macro turns into in its place and begins again, so it may go on for ever: a
description can name its own entry.  On a site whose own texts have no `#`, it goes on for ever only
through macros that may turn into more macros than they were given, and through pictures, which show
the names of their files twice.

Each other macro that is run leaves fewer open `#`s than there were, or, if it links to an address,
no more open ones and fewer that begin such links.

Main statements: a step through any other macro leaves a text that ranks below (`below_of_run`), and
an expansion that never ends comes to a macro that may recur (`exists_mayRecur_of_diverges`).
-/
import MemoryDoc.Proofs.Calls
import MemoryDoc.Proofs.Termination.Wording
import MemoryDoc.Store.Listed

namespace MemoryDoc

/-- The macro may turn into more macros than it was given, or makes a picture. -/
def MacroName.mayRecur : MacroName → Bool
  | text m => m.mayRecur
  | picture _ => true
  | pokes | pops | pushs => false

/-- A name is the name of its macro. -/
theorem MacroName.name_of_ofName? {letters : Text} {m : MacroName}
    (h : MacroName.ofName? letters = some m) : letters = m.name := by
  simpa [eq_comm] using List.find?_some h

open Sharp

/-! ## The `#` of a macro -/

namespace Sharp

/-- The `#` of a macro is open, but for the macro that links to an address. -/
theorem isOpen_name_append {m : MacroName} (hm : m ≠ .text .r) (arguments : Text) :
    isOpen (m.name ++ arguments) = true := by
  cases m with
  | text m =>
    cases m with
    | r => exact absurd rfl hm
    | _ => rfl
  | picture m => cases m <;> rfl
  | _ => rfl

/-- The `#` of the macro that links to an address is open if no digit is behind its name. -/
theorem isOpen_routine (arguments : Text) :
    isOpen ('R' :: arguments) = !arguments.head?.any Char.isDigit := by
  cases arguments <;> rfl

/-- A marker of a routine is told by the digit behind it. -/
theorem isRoutine_routine (arguments : Text) :
    isRoutine ('R' :: arguments) = arguments.head?.any Char.isDigit := by
  cases arguments <;> rfl

/-- The `#`s of a text are those before its first macro, that of the macro, and those behind. -/
theorem count_marker {p : Text → Bool} (hp : IsClass p) (before arguments : Text) (m : MacroName) :
    count p (before ++ '#' :: (m.name ++ arguments)) =
      count p before + (if p (m.name ++ arguments) = true then 1 else 0) + count p arguments := by
  have hname : '#' ∉ m.name := by
    cases m with
    | text m => cases m <;> decide
    | picture m => cases m <;> decide
    | _ => decide
  rw [count_append hp _ (breaks_cons (by decide)), count, count_append_of_not_mem hname,
    Nat.add_assoc]
  simp only [true_and]

/-! ## Ranks -/

/-- The rank of a text: its open `#`s, and then the `#`s that begin links to addresses. -/
def rank (t : Text) : Nat × Nat :=
  (count isOpen t, count isRoutine t)

/-- One text ranks below another. -/
def Below (t u : Text) : Prop :=
  Prod.Lex (· < ·) (· < ·) (rank t) (rank u)

/-- **No text can go down for ever.** -/
theorem wellFounded_below : WellFounded Below :=
  InvImage.wf rank (Prod.lex Nat.lt_wfRel Nat.lt_wfRel).wf

/-- A text with fewer open sharps is below, however many routines it has. -/
theorem below_of_isOpen_lt {t u : Text} (h : count isOpen t < count isOpen u) : Below t u :=
  Prod.Lex.left _ _ h

/-- A text with no more open sharps and fewer routines is below. -/
theorem below_of_isRoutine_lt {t u : Text} (hopen : count isOpen t ≤ count isOpen u)
    (h : count isRoutine t < count isRoutine u) : Below t u := by
  rcases Nat.lt_or_eq_of_le hopen with hlt | heq
  · exact Prod.Lex.left _ _ hlt
  · exact Prod.lex_def.2 (Or.inr ⟨heq, h⟩)

/-- A link breaks the text that it stands in. -/
theorem breaks_of_addressLink {s : Site} {cwd written anchor text markup : Text} {address : UInt16}
    {code : Option Text} (h : s.addressLink cwd written address code anchor text = .ok markup)
    (rest : Text) : Breaks (markup ++ rest) := by
  obtain ⟨directory, -, h⟩ := Reader.outcome_bind_eq_ok.1 h
  obtain ⟨entry, -, h⟩ := Reader.outcome_bind_eq_ok.1 h
  cases h
  exact breaks_cons (by decide)

/-- The markup of a routine does not tell a sharp in front of it what it is. -/
theorem breaks_of_routine {page : Page} {t rest markup : Text}
    (h : Wording.routine page t = .ok (markup, rest)) : Breaks (markup ++ rest) := by
  obtain ⟨⟨written, address⟩, left, -, h⟩ := Reader.bind_eq_ok.1 h
  obtain ⟨code, left₁, -, h⟩ := Reader.bind_eq_ok.1 h
  obtain ⟨anchor, left₂, -, h⟩ := Reader.bind_eq_ok.1 h
  obtain ⟨text, left₃, -, h⟩ := Reader.bind_eq_ok.1 h
  exact breaks_of_addressLink (Handler.ofLink_eq_ok.1 h).1 rest

end Sharp

/-! ## Runs -/

namespace Session

variable {σ : Type} {env : Environment σ} {cwd : Text} {s s' : Session σ}

/-- A macro that may not recur makes no `#` open. -/
theorem count_isOpen_run_le (h : env.site.Sharpless) {m : MacroName} (hrecur : m.mayRecur = false)
    {arguments markup rest : Text} (hrun : run env cwd m arguments s = (.ok (markup, rest), s')) :
    count isOpen (markup ++ rest) ≤ count isOpen arguments := by
  cases m with
  | text m =>
    obtain ⟨hhandler, -⟩ := Prod.mk.inj hrun
    exact TextMacro.count_isOpen_handler_le h hrecur hhandler
  | picture m => cases hrecur
  | pokes =>
    change runPokes arguments s = _ at hrun
    unfold runPokes at hrun
    split at hrun
    next clauses outcome hclauses =>
      cases outcome with
      | error fault => cases hrun
      | ok left =>
        cases hrun
        -- The macros of the memory turn into nothing, so only what they leave counts.
        exact count_le_of_suffix (Poke.suffix_of_clauses hclauses)
  | pops =>
    change runPop arguments s = _ at hrun
    unfold runPop at hrun
    split at hrun
    · cases hrun
    · cases hrun
      exact Nat.le_refl _
  | pushs =>
    cases hrun
    exact count_le_of_suffix (List.dropWhile_suffix Text.isWordChar)

/-- **A step through a macro that may not recur leaves a text that ranks below.** -/
theorem below_of_run (h : env.site.Sharpless) {m : MacroName} (hrecur : m.mayRecur = false)
    {arguments markup rest : Text} (hrun : run env cwd m arguments s = (.ok (markup, rest), s'))
    (before : Text) :
    Below (before ++ (markup ++ rest)) (before ++ '#' :: (m.name ++ arguments)) := by
  have hle := count_isOpen_run_le h hrecur hrun
  have hafter := count_isOpen_append_le before (markup ++ rest)
  have hopen := count_marker isClass_isOpen before arguments m
  by_cases hm : m = .text .r
  · subst hm
    change _ = _ + (if isOpen ('R' :: arguments) = true then 1 else 0) + _ at hopen
    rw [isOpen_routine] at hopen
    cases hdigit : arguments.head?.any Char.isDigit with
    | false =>
      rw [hdigit, Bool.not_false, if_pos rfl] at hopen
      exact below_of_isOpen_lt (by omega)
    | true =>
      -- The link does not add to the open `#`s, and one `#` less begins such a link.
      rw [hdigit, Bool.not_true, if_neg (by decide)] at hopen
      obtain ⟨hhandler, -⟩ := Prod.mk.inj hrun
      have hroutine := count_marker isClass_isRoutine before arguments (.text .r)
      change _ = _ + (if isRoutine ('R' :: arguments) = true then 1 else 0) + _ at hroutine
      rw [isRoutine_routine, hdigit, if_pos rfl] at hroutine
      have hlink := count_routine_le isClass_isRoutine h hhandler
      have hbefore := count_append isClass_isRoutine before (breaks_of_routine hhandler)
      exact below_of_isRoutine_lt (by omega) (by omega)
  · rw [isOpen_name_append hm, if_pos rfl] at hopen
    exact below_of_isOpen_lt (by omega)

/-- An expansion that comes to no macro that may recur has an answer. -/
theorem exists_expand_of_forall (h : env.site.Sharpless) (cwd t : Text) (s : Session σ)
    (hquiet : ∀ fuel, ∀ d ∈ dispatches env cwd fuel t s, ∀ m,
      MacroName.ofName? d.letters = some m → m.mayRecur = false) :
    ∃ fuel answer, expand env cwd fuel t s = some answer := by
  -- Each turn that cannot recur leaves a text below the one that it was given.
  induction t using wellFounded_below.induction generalizing s with
  | _ t ih =>
  cases hf : Marker.find? t with
  | none => exact ⟨1, (.ok t, s), by rw [expand, step, hf]⟩
  | some found =>
    obtain ⟨before, letters, arguments⟩ := found
    cases hr : replace env cwd letters arguments s with
    | mk outcome s' =>
      cases outcome with
      | error e => exact ⟨1, (.error e, s'), by simp only [expand, step, hf, hr]⟩
      | ok after =>
        have hnext (fuel : Nat) : dispatches env cwd (fuel + 1) t s =
            ⟨letters, arguments, s⟩ :: dispatches env cwd fuel (before ++ after) s' := by
          simp only [dispatches, hf, hr]
        have hbelow : Below (before ++ after) t := by
          obtain ⟨m, markup, rest, hm, hrun, rfl⟩ := replace_eq_ok.1 hr
          have hrecur := hquiet 1 ⟨letters, arguments, s⟩ (by rw [hnext]; simp) m hm
          have ht := Marker.eq_of_find?_eq_some hf
          rw [MacroName.name_of_ofName? hm] at ht
          rw [ht]
          exact below_of_run h hrecur hrun before
        obtain ⟨fuel, answer, hrun⟩ := ih _ hbelow s' fun fuel d hd =>
          hquiet (fuel + 1) d (by rw [hnext]; exact List.mem_cons_of_mem _ hd)
        exact ⟨fuel + 1, answer, by simp only [expand, step, hf, hr, hrun]⟩

/-- **An expansion that never ends comes to a macro that may recur.**  On a site whose texts have no
`#`, this is so of any text, in any session.  There is no endless run through macros that link, that
list what refers to an address, that write characters, registers, markup or lists, or that change
the memory. -/
theorem exists_mayRecur_of_diverges (env : Environment σ) (cwd t : Text) (s : Session σ)
    (h : env.site.Sharpless) (hd : Diverges env cwd t s) :
    ∃ fuel, ∃ d ∈ dispatches env cwd fuel t s, ∃ m,
      MacroName.ofName? d.letters = some m ∧ m.mayRecur = true := by
  refine Classical.byContradiction fun hnone => ?_
  obtain ⟨fuel, answer, hrun⟩ := exists_expand_of_forall h cwd t s
    fun fuel d hd m hm => by
      cases hrecur : m.mayRecur with
      | false => rfl
      | true => exact absurd ⟨fuel, d, hd, m, hm, hrecur⟩ hnone
  rw [hd fuel] at hrun
  cases hrun

/-! ## A description of itself -/

/-- A site on which the description of the entry at 0 is the macro for that description. -/
def selfDescribing : Environment (List Text) where
  site := ⟨{}, { memory := .zeros
                 entries := [{ Site.Entry.ofAddress 0 .code with description := ["#D0"] }] }⟩
  functions := []
  store := ({} : Store.Listed).store
  encoding := Encoding.ofFrames

theorem sharpless_selfDescribing : selfDescribing.site.Sharpless where
  paths := by decide +kernel
  titles := by decide +kernel
  links := by decide
  items kind := by cases kind <;> decide
  otherCode := by decide
  written code entries hcode := by
    cases code with
    | none =>
      cases hcode
      decide
    | some name => cases hcode
  labels := by decide

/-- An entry whose description asks for its own description is expanded for ever. -/
theorem diverges_selfDescribing (s : Session (List Text)) :
    Diverges selfDescribing [] "#D0" s := by
  intro fuel
  induction fuel with
  | zero => rfl
  | succ fuel ih =>
    have hstep : step selfDescribing [] "#D0" s = .replaced [] "#D0" s := by rfl
    rw [expand, hstep]
    exact ih

/-- The macro of a description is the one that recurs. -/
theorem exists_mayRecur_of_diverges_selfDescribing :
    selfDescribing.site.Sharpless ∧ Diverges selfDescribing [] "#D0" (start .zeros []) ∧
      ∃ fuel, ∃ d ∈ dispatches selfDescribing [] fuel "#D0" (start .zeros []), ∃ m,
        MacroName.ofName? d.letters = some m ∧ m.mayRecur = true :=
  ⟨sharpless_selfDescribing, diverges_selfDescribing _,
    exists_mayRecur_of_diverges selfDescribing [] "#D0" (start .zeros []) sharpless_selfDescribing
      (diverges_selfDescribing _)⟩

end Session

end MemoryDoc
