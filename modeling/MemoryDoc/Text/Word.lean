/-
# Words in a text

A word is found at the first place where it is written.  A character that is not in the word parts
the text: the word is written in front of it or behind it, not across it.

Main statements: where a word is if it cannot be across a character (`infix_append_cons_iff`), and the
text before a word is cut off if the word is not written further in front (`cutWord_append`).
-/
import MemoryDoc.Text.Basic

namespace MemoryDoc.Text

variable {word t u before : Text} {c : Char}

/-- A word is not written across a character that it does not have. -/
theorem infix_append_cons_iff (hc : c ∉ word) : word <:+: t ++ c :: u ↔ word <:+: t ∨ word <:+: u := by
  have hlead {v : Text} (hv : v ⊆ word) (h : v <+: c :: u) : v = [] := by
    rcases List.prefix_cons_iff.1 h with rfl | ⟨w, rfl, -⟩
    · rfl
    · exact absurd (hv List.mem_cons_self) hc
  rw [List.infix_append_iff, List.infix_cons_iff]
  constructor
  · rintro (h | (h | h) | ⟨l, r, rfl, hl, hr⟩)
    · exact .inl h
    · rw [hlead (List.Subset.refl _) h]
      exact .inl (List.nil_infix)
    · exact .inr h
    · rw [hlead (List.subset_append_right l r) hr, List.append_nil]
      exact .inl hl.isInfix
  · rintro (h | h)
    · exact .inl h
    · exact .inr (.inl (.inr h))

/-- A word is not written in a text that does not have one of its characters. -/
theorem not_infix_of_not_mem (hc : c ∈ word) (ht : c ∉ t) : ¬ word <:+: t :=
  fun h => ht (h.subset hc)

/-- **The text before a word is cut off** unless the word is written further in front. -/
theorem cutWord_append (after : Text) (h : ¬ word <:+: before ++ word.dropLast) :
    cutWord word (before ++ (word ++ after)) = some (before, after) := by
  induction before with
  | nil =>
    have hfirst : after? word (word ++ after) = some after := after?_eq_some.2 rfl
    cases htext : word ++ after with
    | nil =>
      obtain ⟨rfl, rfl⟩ := List.append_eq_nil_iff.1 htext
      rfl
    | cons c t =>
      rw [htext] at hfirst
      rw [List.nil_append, cutWord, hfirst]
  | cons c before ih =>
    have hnone : after? word (c :: (before ++ (word ++ after))) = none := by
      rw [Option.eq_none_iff_forall_ne_some]
      intro rest hrest
      -- A word that begins at the first character would end before the word does.
      have hword : word <+:
          c :: before ++ (word.dropLast ++ (word.drop (word.length - 1) ++ after)) := by
        rw [List.dropLast_eq_take, ← List.append_assoc (word.take _), List.take_append_drop]
        exact ⟨rest, (after?_eq_some.1 hrest).symm⟩
      rw [← List.append_assoc] at hword
      have hlead := List.prefix_of_prefix_length_le hword (List.prefix_append _ _) (by simp; omega)
      exact h hlead.isInfix
    have hrest : ¬ word <:+: before ++ word.dropLast := fun hr => h (List.infix_cons hr)
    rw [List.cons_append, cutWord, hnone, ih hrest]
    rfl

end MemoryDoc.Text
