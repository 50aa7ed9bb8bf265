/-
# Balanced brackets

A text in brackets may have brackets in it if they are balanced: none is closed that is not open, and
none is left open.  Then the bracket that closes the first is the one behind the text.

Main statements: what is read up to a closing bracket is the balanced text in front of it
(`Reader.closing_eq_some_iff`), and balanced text in brackets is read as it is
(`Reader.optionalBracketed_append`).
-/
import MemoryDoc.Text.Reader

namespace MemoryDoc

namespace Text

/-- A text closes `depth` more brackets than it opens, and no part from its front closes more. -/
structure Closes (depth : Nat) (t : Text) : Prop where
  count_le : ∀ u, u <+: t → u.count ')' ≤ u.count '(' + depth
  count_eq : t.count ')' = t.count '(' + depth

/-- No part from the front of a text closes more brackets than it opens, and the text closes all. -/
def Balanced (t : Text) : Prop :=
  Closes 0 t

variable {depth : Nat} {t : Text}

theorem closes_nil : Closes depth [] ↔ depth = 0 := by
  constructor
  · intro h
    simpa using h.count_eq.symm
  · rintro rfl
    exact ⟨fun u hu => by simp [List.prefix_nil.1 hu], rfl⟩

/-- What the parts from the front of a text close is told by the first character and the parts from
the front of what follows. -/
theorem closes_cons {c : Char} :
    Closes depth (c :: t) ↔
      (∀ u, u <+: t → (c :: u).count ')' ≤ (c :: u).count '(' + depth) ∧
        (c :: t).count ')' = (c :: t).count '(' + depth := by
  constructor
  · intro h
    exact ⟨fun u hu => h.count_le (c :: u) ((List.prefix_cons_inj c).2 hu), h.count_eq⟩
  · rintro ⟨hle, heq⟩
    refine ⟨fun u hu => ?_, heq⟩
    rcases List.prefix_cons_iff.1 hu with rfl | ⟨v, rfl, hv⟩
    · exact Nat.zero_le _
    · exact hle v hv

/-- An opening bracket has to be closed as well. -/
theorem closes_cons_open : Closes depth ('(' :: t) ↔ Closes (depth + 1) t := by
  rw [closes_cons]
  constructor
  · rintro ⟨hle, heq⟩
    constructor
    · intro u hu
      have := hle u hu
      simp at this
      omega
    · simp at heq
      omega
  · rintro ⟨hle, heq⟩
    constructor
    · intro u hu
      have := hle u hu
      simp
      omega
    · simp
      omega

/-- A closing bracket closes the innermost one. -/
theorem closes_cons_close : Closes depth (')' :: t) ↔ ∃ d, depth = d + 1 ∧ Closes d t := by
  rw [closes_cons]
  constructor
  · rintro ⟨hle, heq⟩
    cases depth with
    | zero =>
      have := hle [] List.nil_prefix
      simp at this
    | succ d =>
      refine ⟨d, rfl, ?_, ?_⟩
      · intro u hu
        have := hle u hu
        simp at this
        omega
      · simp at heq
        omega
  · rintro ⟨d, rfl, hle, heq⟩
    constructor
    · intro u hu
      have := hle u hu
      simp
      omega
    · simp
      omega

/-- Other characters close nothing. -/
theorem closes_cons_other {c : Char} (hopen : c ≠ '(') (hclose : c ≠ ')') :
    Closes depth (c :: t) ↔ Closes depth t := by
  rw [closes_cons]
  simp only [List.count_cons_of_ne hopen, List.count_cons_of_ne hclose]
  exact ⟨fun h => ⟨h.1, h.2⟩, fun h => ⟨h.1, h.2⟩⟩

/-- What balanced text in front closes, it has opened. -/
theorem Closes.append {u : Text} (ht : Balanced t) (hu : Closes depth u) : Closes depth (t ++ u) where
  count_le v hv := by
    have hcount := ht.count_eq
    rcases List.prefix_or_prefix_of_prefix hv (List.prefix_append t u) with hv | ⟨w, rfl⟩
    · exact Nat.le_trans (ht.count_le v hv) (by omega)
    · have := hu.count_le w ((List.prefix_append_right_inj t).1 hv)
      rw [List.count_append, List.count_append]
      omega
  count_eq := by
    have ht := ht.count_eq
    have hu := hu.count_eq
    rw [List.count_append, List.count_append]
    omega

/-- Balanced text in brackets is balanced. -/
theorem Balanced.bracket (h : Balanced t) : Balanced ('(' :: (t ++ [')'])) :=
  closes_cons_open.2 (Closes.append h (closes_cons_close.2 ⟨0, rfl, closes_nil.2 rfl⟩))

/-- Text without brackets is balanced. -/
theorem balanced_of_not_mem (hopen : '(' ∉ t) (hclose : ')' ∉ t) : Balanced t where
  count_le u hu := by
    rw [List.count_eq_zero_of_not_mem fun h => hclose (hu.subset h)]
    exact Nat.zero_le _
  count_eq := by
    rw [List.count_eq_zero_of_not_mem hclose, List.count_eq_zero_of_not_mem hopen]

end Text

namespace Reader

open Text

/-- **The text up to the bracket that matches is the one that closes all others.** -/
theorem closingFrom_eq_some_iff {before : Text} {depth : Nat} {t inside rest : Text} :
    closingFrom before depth t = some (inside, rest) ↔
      ∃ u, Closes depth u ∧ inside = before.reverse ++ u ∧ t = u ++ ')' :: rest := by
  induction t generalizing before depth with
  | nil => simp [closingFrom]
  | cons c t ih =>
    -- Behind a character that is not the closing bracket, the text is longer by that character.
    have step {d : Nat} (hd : ∀ u, Closes depth (c :: u) ↔ Closes d u)
        (hend : depth = 0 → c ≠ ')') :
        closingFrom (c :: before) d t = some (inside, rest) ↔
          ∃ u, Closes depth u ∧ inside = before.reverse ++ u ∧ c :: t = u ++ ')' :: rest := by
      rw [ih]
      constructor
      · rintro ⟨u, hu, rfl, rfl⟩
        exact ⟨c :: u, (hd u).2 hu, by simp, rfl⟩
      · rintro ⟨u, hu, rfl, ht⟩
        cases u with
        | nil =>
          cases ht
          exact absurd rfl (hend (closes_nil.1 hu))
        | cons d u =>
          cases ht
          exact ⟨u, (hd u).1 hu, by simp, rfl⟩
    unfold closingFrom
    split
    · next hc =>
      subst hc
      exact step (fun u => closes_cons_open) fun _ => by decide
    · next hopen =>
      split
      · next hc =>
        subst hc
        cases depth with
        | zero =>
          constructor
          · intro h
            cases h
            exact ⟨[], closes_nil.2 rfl, by simp, rfl⟩
          · rintro ⟨u, hu, rfl, ht⟩
            cases u with
            | nil =>
              cases ht
              simp
            | cons d u =>
              cases ht
              obtain ⟨_, h, -⟩ := closes_cons_close.1 hu
              cases h
        | succ d =>
          refine step (fun u => ?_) fun h => by cases h
          rw [closes_cons_close]
          simp
      · next hclose => exact step (fun u => closes_cons_other hopen hclose) fun _ => hclose

/-- **The text up to a closing bracket is the balanced text in front of it.** -/
theorem closing_eq_some_iff {t inside rest : Text} :
    closing t = some (inside, rest) ↔ Balanced inside ∧ t = inside ++ ')' :: rest := by
  rw [closing, closingFrom_eq_some_iff]
  constructor
  · rintro ⟨u, hu, rfl, ht⟩
    exact ⟨hu, ht⟩
  · rintro ⟨hinside, ht⟩
    exact ⟨inside, hinside, rfl, ht⟩

/-- Text in brackets is read up to the closing bracket. -/
theorem bracketed_eq_ok {t inside rest : Text} :
    bracketed t = .ok (inside, rest) ↔ inside.Balanced ∧ t = '(' :: (inside ++ ')' :: rest) := by
  constructor
  · intro h
    unfold bracketed at h
    split at h
    · split at h
      · next hclosing =>
        cases h
        obtain ⟨hbalanced, hinside⟩ := closing_eq_some_iff.1 hclosing
        exact ⟨hbalanced, by rw [← hinside]⟩
      · cases h
    · cases h
  · rintro ⟨hbalanced, rfl⟩
    have hclosing : closing (inside ++ ')' :: rest) = some (inside, rest) :=
      closing_eq_some_iff.2 ⟨hbalanced, rfl⟩
    simp only [bracketed, hclosing]

/-- Text in brackets is read if there is a bracket, else nothing. -/
theorem optionalBracketed_eq_ok {t rest : Text} {text : Option Text} :
    optionalBracketed t = .ok (text, rest) ↔
      (∃ inside, text = some inside ∧ bracketed t = .ok (inside, rest)) ∨
        text = none ∧ t.head? ≠ some '(' ∧ rest = t := by
  constructor
  · intro h
    unfold optionalBracketed at h
    split at h
    · split at h
      · next hb =>
        cases h
        exact .inl ⟨_, rfl, hb⟩
      · cases h
    · next hopen =>
      cases h
      refine .inr ⟨rfl, fun hhead => ?_, rfl⟩
      obtain ⟨u, rfl⟩ := List.head?_eq_some_iff.1 hhead
      exact hopen u rfl
  · rintro (⟨inside, rfl, hb⟩ | ⟨rfl, hne, rfl⟩)
    · obtain ⟨-, rfl⟩ := bracketed_eq_ok.1 hb
      simp only [optionalBracketed, hb]
    · unfold optionalBracketed
      split
      · exact absurd rfl hne
      · rfl

/-- **Balanced text in brackets is read as it is,** whatever follows it. -/
theorem optionalBracketed_append {inside : Text} (h : Balanced inside) (rest : Text) :
    optionalBracketed ('(' :: (inside ++ ')' :: rest)) = .ok (some inside, rest) :=
  optionalBracketed_eq_ok.2 (.inl ⟨inside, rfl, bracketed_eq_ok.2 ⟨h, rfl⟩⟩)

end Reader

end MemoryDoc
