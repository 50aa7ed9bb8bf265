/-
# Text in front

Text in which no macro begins can stand in front of another text without changing what becomes of
it: the same macros are run on the same arguments, and the front is left as it is.

Main statement: the text behind the front is expanded as it is alone, and the front is left as it
is (`expand_append`).
-/
import MemoryDoc.Proofs.Bytewise.Expansion
import MemoryDoc.Proofs.Calls
import MemoryDoc.Store.Listed

namespace MemoryDoc

/-- No macro begins in a text, whatever follows it: no `#` is followed by a letter that names are
written with, nor is there one at the end. -/
structure Marker.Free (t : Text) : Prop where
  not_infix : ∀ c, isNameLetter c = true → ¬ ['#', c] <:+: t
  getLast?_ne : t.getLast? ≠ some '#'

namespace Marker

/-- The rest of a text in which no macro begins. -/
theorem Free.tail {c : Char} {t : Text} (h : Free (c :: t)) : Free t where
  not_infix d hd hi := h.not_infix d hd (hi.trans (List.suffix_cons c t).isInfix)
  getLast?_ne hl := by
    apply h.getLast?_ne
    cases t with
    | nil => cases hl
    | cons d t => simpa using hl

/-- The first macro of a text behind a front is the first macro of the text. -/
theorem find?_append {a : Text} (h : Free a) (b : Text) :
    find? (a ++ b) = (find? b).map fun (before, name, after) => (a ++ before, name, after) := by
  induction a with
  | nil => cases hb : find? b <;> simp [hb]
  | cons c a ih =>
    -- A `#` in the front is never the last of it, so the front itself tells that no name follows.
    have hnot : ¬ (c = '#' ∧ (a ++ b).takeWhile isNameLetter ≠ []) := by
      rintro ⟨rfl, hletters⟩
      cases a with
      | nil => exact h.getLast?_ne rfl
      | cons d a =>
        rw [List.cons_append, List.takeWhile_cons] at hletters
        split at hletters
        · next hd => exact h.not_infix d hd ⟨[], a, rfl⟩
        · exact hletters rfl
    rw [List.cons_append, find?, if_neg hnot, ih h.tail]
    cases find? b <;> simp

/-- A `#` and a letter that names are written with make a macro. -/
theorem find?_ne_none_of_infix {c : Char} {t : Text} (hc : isNameLetter c = true)
    (h : ['#', c] <:+: t) : find? t ≠ none := by
  obtain ⟨front, behind, rfl⟩ := h
  induction front with
  | nil =>
    have hletters : (c :: behind).takeWhile isNameLetter ≠ [] := by
      rw [List.takeWhile_cons, if_pos hc]
      exact List.cons_ne_nil _ _
    show find? ('#' :: c :: behind) ≠ none
    rw [find?, if_pos ⟨rfl, hletters⟩]
    exact Option.some_ne_none _
  | cons d front ih =>
    rw [List.cons_append, List.cons_append, find?]
    split
    · exact Option.some_ne_none _
    · rw [ne_eq, Option.map_eq_none_iff]
      exact ih

/-- No macro begins in a text, whatever follows, if there is none in it and no `#` at its end. -/
theorem free_iff {t : Text} : Free t ↔ find? t = none ∧ t.getLast? ≠ some '#' := by
  constructor
  · intro h
    have hfind := find?_append h []
    rw [List.append_nil] at hfind
    exact ⟨hfind, h.getLast?_ne⟩
  · rintro ⟨hfind, hlast⟩
    exact ⟨fun c hc hi => find?_ne_none_of_infix hc hi hfind, hlast⟩

end Marker

namespace Session

variable {σ : Type} {env : Environment σ} {cwd a : Text}

/-- A step behind a front is a step of the text. -/
theorem step_append (h : Marker.Free a) (b : Text) (s : Session σ) :
    step env cwd (a ++ b) s =
      match step env cwd b s with
      | .done => .done
      | .replaced before after s => .replaced (a ++ before) after s
      | .failed e s => .failed e s := by
  rw [step, step, Marker.find?_append h]
  cases Marker.find? b with
  | none => rfl
  | some found =>
    obtain ⟨before, letters, arguments⟩ := found
    simp only [Option.map_some]
    obtain ⟨outcome, s⟩ := replace env cwd letters arguments s
    cases outcome <;> rfl

/-- A front without markers is passed by and stands in front of the answer. -/
theorem expand_append_eq (env : Environment σ) (cwd : Text) (h : Marker.Free a) (fuel : Nat)
    (b : Text) (s : Session σ) :
    expand env cwd fuel (a ++ b) s =
      (expand env cwd fuel b s).map fun (answer, s) => (answer.map (a ++ ·), s) := by
  induction fuel generalizing b s with
  | zero => rfl
  | succ fuel ih =>
    rw [expand, expand, step_append h]
    cases step env cwd b s with
    | done => rfl
    | replaced before after s =>
      simp only
      rw [List.append_assoc, ih]
    | failed e s => rfl

/-- A front without markers dispatches nothing. -/
theorem dispatches_append (h : Marker.Free a) (fuel : Nat) (b : Text) (s : Session σ) :
    dispatches env cwd fuel (a ++ b) s = dispatches env cwd fuel b s := by
  induction fuel generalizing b s with
  | zero => rfl
  | succ fuel ih =>
    rw [dispatches, dispatches, Marker.find?_append h]
    cases Marker.find? b with
    | none => rfl
    | some found =>
      obtain ⟨before, letters, arguments⟩ := found
      simp only [Option.map_some]
      obtain ⟨outcome, s⟩ := replace env cwd letters arguments s
      cases outcome with
      | error e => rfl
      | ok after =>
        simp only
        rw [List.append_assoc, ih]

/-- **An expansion does not depend on what stands in front.**  Behind text in which no macro begins,
an expansion ends if it ends without that text.  It then gives the same with the text in front, or
fails with the same error, and leaves the same session.  The same macros are run on the same
arguments in the same sessions, also if it never ends.  So it is when the text is changed in place
and macros are told by their places in all of it. -/
theorem expand_append (env : Environment σ) (cwd a b : Text) (s : Session σ) (h : Marker.Free a) :
    (Diverges env cwd (a ++ b) s ↔ Diverges env cwd b s) ∧
    (∀ fuel, expand env cwd fuel (a ++ b) s =
      (expand env cwd fuel b s).map fun (answer, s) => (answer.map (a ++ ·), s)) ∧
    (∀ fuel, dispatches env cwd fuel (a ++ b) s = dispatches env cwd fuel b s) ∧
    ∀ fuel, expand? env cwd fuel (a ++ b) s =
      (expand? env cwd fuel b s).map (Option.map fun (answer, s) => (answer.map (a ++ ·), s)) := by
  have hexpand := expand_append_eq env cwd h
  refine ⟨?_, fun fuel => hexpand fuel b s, fun fuel => dispatches_append h fuel b s, ?_⟩
  · refine forall_congr' fun fuel => ?_
    rw [hexpand, Option.map_eq_none_iff]
  · intro fuel
    rw [expand?_eq, expand?_eq, hexpand, Option.map_some]

/-- Text with a `#` and characters of several bytes stands in front of two macros, one of which is
in the other. -/
theorem expand_append_sharpAndAccent :
    Marker.Free "# é #a ".toList ∧
      ∃ s, expand (.usual ({} : Store.Listed).store) [] 3
          ("# é #a ".toList ++ "#HTML(é#CHR65)".toList) (start .zeros [])
        = some (.ok "# é #a é&#65;".toList, s) := by
  have hfree : Marker.Free "# é #a ".toList := Marker.free_iff.2 (by decide +kernel)
  have htext : (expand (.usual ({} : Store.Listed).store) [] 3 "#HTML(é#CHR65)".toList
      (start .zeros [])).map (·.1.toOption) = some (some "é&#65;".toList) := by decide +kernel
  obtain ⟨s, hrun⟩ := exists_expand_eq htext
  obtain ⟨-, hexpand, -⟩ := expand_append (.usual ({} : Store.Listed).store) []
    "# é #a ".toList "#HTML(é#CHR65)".toList (start .zeros []) hfree
  refine ⟨hfree, s, ?_⟩
  rw [hexpand, hrun]
  rfl

end Session

end MemoryDoc
