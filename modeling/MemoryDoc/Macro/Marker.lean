/-
# Places of macros in a text

The first macro of a text is where a `#` is followed by capital letters, and all capital letters
that follow are its name.

Main statements: what is before the first macro, the macro and what is behind it make up the text
(`eq_of_find?_eq_some`); a part of what is before the first macro has no macro in it whatever
follows it, unless the part ends with `#` and a capital letter follows (`find?_append_of_find?`).
-/
import MemoryDoc.Text.Basic

namespace MemoryDoc

namespace Marker

/-- A character that the name of a macro is written with. -/
def isNameLetter (c : Char) : Bool :=
  'A' ≤ c && c ≤ 'Z'

/-- The first macro in a text: what is before its `#`, its name, and what is behind the name. -/
def find? : Text → Option (Text × Text × Text)
  | [] => none
  | c :: t =>
    if c = '#' ∧ t.takeWhile isNameLetter ≠ [] then
      some ([], t.takeWhile isNameLetter, t.dropWhile isNameLetter)
    else (find? t).map fun (before, name, after) => (c :: before, name, after)

/-- The first macro of what is ahead, where what is before it is told with what is behind, the last
character first. -/
def seek : (behind ahead : Text) → Option (Text × Text × Text)
  | _, [] => none
  | behind, c :: t =>
    if c = '#' ∧ t.takeWhile isNameLetter ≠ [] then
      some (behind, t.takeWhile isNameLetter, t.dropWhile isNameLetter)
    else seek (c :: behind) t

/-- Seeking finds the first macro. -/
theorem seek_eq (behind ahead : Text) :
    seek behind ahead = (find? ahead).map fun (before, name, after) =>
      (before.reverse ++ behind, name, after) := by
  induction ahead generalizing behind with
  | nil => rfl
  | cons c t ih =>
    rw [seek, find?]
    split
    · rfl
    · rw [ih]
      cases find? t <;> simp

/-- **A text is what is before its first macro, the macro's `#` and name, and what is behind.** -/
theorem eq_of_find?_eq_some {t before name after : Text}
    (h : find? t = some (before, name, after)) : t = before ++ '#' :: (name ++ after) := by
  induction t generalizing before with
  | nil => cases h
  | cons c t ih =>
    rw [find?] at h
    split at h
    · next hc =>
      cases h
      simp [hc.1]
    · cases hf : find? t with
      | none => simp [hf] at h
      | some found =>
        obtain ⟨b, n, a⟩ := found
        simp only [hf, Option.map_some, Option.some.injEq, Prod.mk.injEq] at h
        obtain ⟨rfl, rfl, rfl⟩ := h
        rw [ih hf, List.cons_append]

/-- **No macro begins in what is before the first macro of a text, nor in a part of it that other
text follows, unless its last `#` is the `#` of a macro then.** -/
theorem find?_append_of_find? {t init tail name after rest : Text}
    (h : find? t = some (init ++ tail, name, after))
    (hl : init.getLast? = some '#' → rest.takeWhile isNameLetter = []) :
    find? (init ++ rest) = (find? rest).map fun (before, name, after) =>
      (init ++ before, name, after) := by
  induction t generalizing init with
  | nil => cases h
  | cons c t ih =>
    cases init with
    | nil => cases hr : find? rest <;> simp [hr]
    | cons d init =>
      rw [find?] at h
      split at h
      · cases h
      · next hc =>
        cases hf : find? t with
        | none => simp [hf] at h
        | some found =>
          obtain ⟨b, n, a⟩ := found
          simp only [hf, Option.map_some, Option.some.injEq, Prod.mk.injEq, List.cons_append,
            List.cons.injEq] at h
          obtain ⟨⟨rfl, rfl⟩, rfl, rfl⟩ := h
          -- No marker begins here in the new text either: the letter behind is the same, or none.
          have hnot : ¬ (c = '#' ∧ (init ++ rest).takeWhile isNameLetter ≠ []) := by
            intro hm
            cases init with
            | nil => exact hm.2 (hl (by simp [hm.1]))
            | cons e init =>
              refine hc ⟨hm.1, ?_⟩
              have he := hm.2
              rw [eq_of_find?_eq_some hf]
              simp only [List.cons_append, List.takeWhile_cons] at he ⊢
              split at he
              · next hletter => simp [hletter]
              · exact absurd rfl he
          have hlast : init.getLast? = some '#' → rest.takeWhile isNameLetter = [] := by
            intro hi
            refine hl ?_
            cases init with
            | nil => cases hi
            | cons _ _ => simpa using hi
          rw [List.cons_append, find?, if_neg hnot, ih hf hlast]
          cases find? rest <;> simp

/-! ## The first `#` -/

/-- A marker that is found has a name. -/
theorem ne_nil_of_find? {t before letters after : Text}
    (h : find? t = some (before, letters, after)) : letters ≠ [] := by
  induction t generalizing before with
  | nil => cases h
  | cons c t ih =>
    rw [find?] at h
    split at h
    · next hc =>
      cases h
      exact hc.2
    · obtain ⟨⟨b, n, a⟩, hf, he⟩ := Option.map_eq_some_iff.1 h
      cases he
      exact ih hf

/-- A text without a sharp has no marker. -/
theorem find?_of_not_mem {t : Text} (h : '#' ∉ t) : find? t = none := by
  induction t with
  | nil => rfl
  | cons c t ih =>
    rw [List.mem_cons, not_or] at h
    rw [find?, if_neg (fun hc => h.1 hc.1.symm), ih h.2, Option.map_none]

/-- The first macro is at the first `#` or behind it. -/
theorem find?_append_hash {front : Text} (h : '#' ∉ front) (behind : Text) :
    find? (front ++ '#' :: behind) =
      if behind.takeWhile isNameLetter ≠ [] then
        some (front, behind.takeWhile isNameLetter, behind.dropWhile isNameLetter)
      else (find? behind).map fun (before, name, after) =>
        (front ++ '#' :: before, name, after) := by
  induction front with
  | nil =>
    rw [List.nil_append, find?]
    simp
  | cons c front ih =>
    rw [List.mem_cons, not_or] at h
    rw [List.cons_append, find?, if_neg (fun hc => h.1 hc.1.symm), ih h.2]
    split
    · rfl
    · rw [Option.map_map]
      rfl

end Marker

end MemoryDoc
