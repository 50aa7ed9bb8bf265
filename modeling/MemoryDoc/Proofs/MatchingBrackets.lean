/-
# Matching brackets

A bracket is matched by the first bracket behind it that closes more than was opened between the two.
What is between them is balanced, and nothing else in front of a closing bracket is: text that goes on
behind a match closes a bracket that it has not opened, and text that ends before it leaves one open.

Main statement: text in brackets is read exactly where there is a match, up to the match and no further,
and all else fails with what is wrong (`readBracketed_matching`).
-/
import Mathlib.Data.List.Infix
import MemoryDoc.Proofs.Bytewise.Scanner
import MemoryDoc.Text.Bracket
import MemoryDoc.Text.Cursor

namespace MemoryDoc

/-! ## The match -/

namespace Text

/-- A text begins with balanced text in brackets. -/
structure Encloses (t inside : Text) : Prop where
  balanced : Balanced inside
  begins : '(' :: (inside ++ [')']) <+: t

variable {depth : Nat} {t u v inside other : Text}

/-- What a text closes is counted on the texts from its front, which are finitely many. -/
instance : Decidable (Closes depth t) :=
  decidable_of_iff
    ((∀ u ∈ t.inits, u.count ')' ≤ u.count '(' + depth) ∧ t.count ')' = t.count '(' + depth)
    ⟨fun h => ⟨fun u hu => h.1 u ((List.mem_inits u t).2 hu), h.2⟩,
      fun h => ⟨fun u hu => h.count_le u ((List.mem_inits u t).1 hu), h.count_eq⟩⟩

instance : Decidable (Balanced t) :=
  inferInstanceAs (Decidable (Closes 0 t))

/-- Balanced text does not go on with the bracket that closes it. -/
theorem Balanced.eq_nil_of_append {w r s : Text} (hu : Balanced u) (huw : Balanced (u ++ w))
    (h : ')' :: r = w ++ ')' :: s) : w = [] := by
  cases w with
  | nil => rfl
  | cons c w =>
    cases h
    -- Up to the bracket behind `u`, one more is closed than was opened.
    have hle := huw.count_le (u ++ [')']) ⟨w, by simp⟩
    have heq := hu.count_eq
    have hclose : [')'].count '(' = 0 := rfl
    rw [List.count_append, List.count_append, List.count_singleton_self, hclose] at hle
    omega

/-- **There is one match.**  A text has one balanced text at its front that a closing bracket follows. -/
theorem Balanced.unique {r s : Text} (hu : Balanced u) (hv : Balanced v)
    (h : u ++ ')' :: r = v ++ ')' :: s) : u = v := by
  rcases List.append_eq_append_iff.1 h with ⟨w, rfl, hw⟩ | ⟨w, rfl, hw⟩
  · rw [hu.eq_nil_of_append hv hw, List.append_nil]
  · rw [hv.eq_nil_of_append hu hw, List.append_nil]

/-- A text that begins with balanced text in brackets goes on behind the closing bracket. -/
theorem encloses_iff :
    t.Encloses inside ↔ ∃ rest, Balanced inside ∧ t = '(' :: (inside ++ ')' :: rest) := by
  constructor
  · rintro ⟨hbalanced, rest, rfl⟩
    exact ⟨rest, hbalanced, by simp⟩
  · rintro ⟨rest, hbalanced, rfl⟩
    exact ⟨hbalanced, rest, by simp⟩

/-- Only one text stands between the brackets. -/
theorem Encloses.unique (h : t.Encloses inside) (h' : t.Encloses other) :
    other = inside := by
  obtain ⟨r, hinside, rfl⟩ := encloses_iff.1 h
  obtain ⟨s, hother, hs⟩ := encloses_iff.1 h'
  exact hother.unique hinside (List.cons.inj hs).2.symm

end Text

open Text

/-! ## What is read -/

namespace Reader

variable {t inside : Text}

/-- Text in brackets is read exactly where there is a match. -/
theorem encloses_iff_bracketed :
    t.Encloses inside ↔ ∃ rest, bracketed t = .ok (inside, rest) := by
  rw [encloses_iff]
  exact exists_congr fun rest => bracketed_eq_ok.symm

/-- Without a match it is told whether the bracket that is missing is the opening or the closing one. -/
theorem bracketed_of_not_encloses (h : ∀ inside, ¬ t.Encloses inside) :
    bracketed t = .error (if t.head? = some '(' then .unclosedBracket t else .noText) := by
  cases hread : bracketed t with
  | ok result => exact absurd (encloses_iff_bracketed.2 ⟨result.2, hread⟩) (h result.1)
  | error fault =>
    unfold bracketed at hread
    split at hread
    · split at hread
      · cases hread
      · cases hread
        rfl
    · next hopen =>
      cases hread
      rw [if_neg]
      intro hhead
      obtain ⟨u, rfl⟩ := List.head?_eq_some_iff.1 hhead
      exact hopen u rfl

end Reader

namespace Cursor

variable {input t rest inside : Text} {n k : Nat}

/-- At a boundary, a cursor reads what is behind the boundary. -/
theorem ofPosition_eq (hn : dropBytes? n input = some t) : ofPosition input n = ⟨n, t⟩ := by
  rw [ofPosition, hn, Option.getD_some]

/-- A cursor in a boundary has the text in front of it that starts there. -/
theorem rest_ofPosition (hn : dropBytes? n input = some t) : (ofPosition input n).rest = t := by
  rw [ofPosition_eq hn]

/-- A cursor at a boundary moves to a later one when it has read what is between the two. -/
theorem moveTo_ofPosition (hle : n ≤ k) (hn : dropBytes? n input = some t)
    (hk : dropBytes? k input = some rest) :
    (ofPosition input n).moveTo rest = ofPosition input k := by
  obtain ⟨front, rfl, rfl⟩ := exists_append_of_le hle hn hk
  rw [ofPosition_eq hn, ofPosition_eq hk, moveTo, consumed_append_left]

/-- Behind the match is what is left behind text in brackets. -/
theorem dropBytes?_match (hn : dropBytes? n input = some t)
    (hread : Reader.bracketed t = .ok (inside, rest)) :
    dropBytes? (n + 1 + byteSize inside + 1) input = some rest := by
  obtain ⟨-, rfl⟩ := Reader.bracketed_eq_ok.1 hread
  exact dropBytes?_cons (dropBytes?_append (dropBytes?_cons hn))

/-- Where there is a match, the cursor reads up to it and moves behind it. -/
theorem readBracketed_of_encloses (hn : dropBytes? n input = some t) (h : t.Encloses inside) :
    (ofPosition input n).readBracketed =
      (.ok inside, ofPosition input (n + 1 + byteSize inside + 1)) := by
  obtain ⟨rest, hread⟩ := Reader.encloses_iff_bracketed.1 h
  have hmove := moveTo_ofPosition (by omega) hn (dropBytes?_match hn hread)
  simp only [readBracketed, rest_ofPosition hn, hread, hmove]

/-- Without a match, nothing is read: the cursor stays where no bracket is opened, and runs to the end
where the bracket is not closed. -/
theorem readBracketed_of_not_encloses (hn : dropBytes? n input = some t)
    (h : ∀ inside, ¬ t.Encloses inside) :
    (ofPosition input n).readBracketed =
      if t.head? = some '(' then (.error (.unclosedBracket t), ofPosition input (byteSize input))
      else (.error .noText, ofPosition input n) := by
  have hread := Reader.bracketed_of_not_encloses h
  by_cases hopen : t.head? = some '('
  · have hend : dropBytes? (byteSize input) input = some [] :=
      dropBytes?_eq_some_iff.2 ⟨input, (List.append_nil input).symm, rfl⟩
    have hle : n ≤ byteSize input := by
      have := add_byteSize hn
      omega
    rw [if_pos hopen] at hread ⊢
    simp only [readBracketed, rest_ofPosition hn, hread, moveTo_ofPosition hle hn hend]
  · rw [if_neg hopen] at hread ⊢
    simp only [readBracketed, rest_ofPosition hn, hread]

/-- The scanner that takes its answer out of the input, between places that it counts, takes what the
cursor reads. -/
theorem scanner_bracketed_eq (hn : dropBytes? n input = some t) :
    Scanner.bracketed input n =
      some ((ofPosition input n).readBracketed.1.map fun inside =>
        (inside, (ofPosition input n).readBracketed.2.position)) := by
  have hlands := Scanner.follows_bracketed hn
  by_cases hmatch : ∃ inside, t.Encloses inside
  · obtain ⟨inside, hinside⟩ := hmatch
    obtain ⟨rest, hread⟩ := Reader.encloses_iff_bracketed.1 hinside
    rw [hread] at hlands
    rw [readBracketed_of_encloses hn hinside]
    exact hlands.eq_some (dropBytes?_match hn hread)
  · have hnone : ∀ inside, ¬ t.Encloses inside := fun inside h => hmatch ⟨inside, h⟩
    rw [Reader.bracketed_of_not_encloses hnone] at hlands
    rw [readBracketed_of_not_encloses hn hnone, hlands.eq_error]
    split <;> rfl

/-- **Text in brackets is read up to the matching bracket.**  At any boundary of an input, text is read
exactly if what is left there begins with balanced text in brackets.  There is no other such text, it is
the text that is read, and the cursor moves behind its closing bracket.  Otherwise it is told whether a
bracket is not opened or not closed.  A scanner that takes its answer out of the input, between places,
comes to the same.  Balanced text that is put in brackets is read as it is, whatever stands around it. -/
theorem readBracketed_matching (hn : dropBytes? n input = some t) :
    ((∃ inside, (ofPosition input n).readBracketed.1 = .ok inside) ↔
      ∃ inside, t.Encloses inside) ∧
    (∀ inside, t.Encloses inside →
      (∀ other, t.Encloses other → other = inside) ∧
      (ofPosition input n).readBracketed =
        (.ok inside, ofPosition input (n + 1 + byteSize inside + 1))) ∧
    ((∀ inside, ¬ t.Encloses inside) →
      (ofPosition input n).readBracketed =
        if t.head? = some '(' then
          (.error (.unclosedBracket t), ofPosition input (byteSize input))
        else (.error .noText, ofPosition input n)) ∧
    Scanner.bracketed input n =
      some ((ofPosition input n).readBracketed.1.map fun inside =>
        (inside, (ofPosition input n).readBracketed.2.position)) ∧
    ∀ before inside rest : Text, Balanced inside →
      (ofPosition (before ++ '(' :: (inside ++ ')' :: rest)) (byteSize before)).readBracketed =
        (.ok inside, ⟨byteSize before + 1 + byteSize inside + 1, rest⟩) := by
  refine ⟨⟨?_, ?_⟩, fun inside h => ⟨fun other => h.unique, readBracketed_of_encloses hn h⟩,
    readBracketed_of_not_encloses hn, scanner_bracketed_eq hn, ?_⟩
  · rintro ⟨inside, hread⟩
    by_contra hnone
    rw [readBracketed_of_not_encloses hn fun other h => hnone ⟨other, h⟩] at hread
    split at hread <;> cases hread
  · rintro ⟨inside, h⟩
    exact ⟨inside, by rw [readBracketed_of_encloses hn h]⟩
  · intro before inside rest hbalanced
    have hplace := dropBytes?_byteSize before ('(' :: (inside ++ ')' :: rest))
    have hread : Reader.bracketed ('(' :: (inside ++ ')' :: rest)) = .ok (inside, rest) :=
      Reader.bracketed_eq_ok.2 ⟨hbalanced, rfl⟩
    rw [readBracketed_of_encloses hplace (Reader.encloses_iff_bracketed.2 ⟨rest, hread⟩),
      ofPosition_eq (dropBytes?_match hplace hread)]

/-- Behind a character of two bytes, a bracket is matched behind another of two bytes, by the third
bracket that is closed. -/
theorem readBracketed_matching_nested :
    dropBytes? 2 "é(a()(b)ü))c" = some "(a()(b)ü))c" ∧
      (ofPosition "é(a()(b)ü))c" 2).readBracketed =
        (.ok "a()(b)ü", ofPosition "é(a()(b)ü))c" 12) := by
  have hn : dropBytes? 2 "é(a()(b)ü))c" = some "(a()(b)ü))c" := rfl
  have hmatch : Encloses "(a()(b)ü))c" "a()(b)ü" := ⟨by decide, ⟨")c".toList, rfl⟩⟩
  exact ⟨hn, ((readBracketed_matching hn).2.1 _ hmatch).2⟩

end Cursor

end MemoryDoc
