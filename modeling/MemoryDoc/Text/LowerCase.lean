/-
# Lower case

The lower case of a text is that of its characters, one after the other.  That of a character may be
several characters, and it may depend on what stands around it, as that of a sigma at the end of a word
does.  Beyond the characters of ASCII, only so much is known of it as is needed for the suffixes of
picture files: it has none of their letters but `i`, which has a dot above it there.

Main statement: a word of such letters ends the lower case of a text exactly if it does so where only
the characters of ASCII have lower case (`LowerCase.suffix_text_iff`).
-/
import Mathlib.Data.Bool.AllAny
import Mathlib.Data.List.Induction
import MemoryDoc.Text.Basic

namespace MemoryDoc

/-- The letters of the suffixes of picture files, and their dot. -/
def suffixLetters : Text := ".pngif"

/-- The lower case of characters, each between the characters around it. -/
structure LowerCase where
  lower : (before : Text) → (c : Char) → (after : Text) → Text
  ascii : ∀ before c after, c.toNat < 128 → lower before c after = [c.toLower]
  ne_nil : ∀ before c after, lower before c after ≠ []
  /-- Beyond ASCII, no character has one of these letters in its lower case. -/
  not_mem : ∀ before c after, 128 ≤ c.toNat → ∀ d ∈ lower before c after, d ∉ ".pngf".toList
  /-- Beyond ASCII, an `i` has a combining dot behind it. -/
  dotted : ∀ before c after front back, 128 ≤ c.toNat →
    lower before c after = front ++ 'i' :: back → back.head? = some '\u0307'

namespace LowerCase

variable (l : LowerCase) {before s t after word : Text} {c d : Char}

/-- The lower case of a text that stands between others. -/
def fold : (before t after : Text) → Text
  | _, [], _ => []
  | before, c :: t, after => l.lower before c (t ++ after) ++ fold (before ++ [c]) t after

/-- The lower case of a text. -/
def text (t : Text) : Text :=
  l.fold [] t []

/-- The letters of two texts are changed one after the other, with the same letters around. -/
theorem fold_append (before s t after : Text) :
    l.fold before (s ++ t) after = l.fold before s (t ++ after) ++ l.fold (before ++ s) t after := by
  induction s generalizing before with
  | nil => rw [List.nil_append, List.append_nil, fold, List.nil_append]
  | cons c s ih =>
    rw [List.cons_append, fold, fold, ih, List.append_assoc, List.append_assoc, List.append_assoc]
    rfl

/-- The last letter is changed with all others in front of it. -/
theorem fold_concat (before t : Text) (c : Char) (after : Text) :
    l.fold before (t ++ [c]) after = l.fold before t (c :: after) ++ l.lower (before ++ t) c after := by
  rw [fold_append]
  show _ = _ ++ _
  rw [fold, fold, List.append_nil]
  rfl

/-! ## Characters beyond ASCII -/

/-- Beyond ASCII, a letter stays as it is. -/
theorem toLower_of_le (h : 128 ≤ c.toNat) : c.toLower = c := by
  unfold Char.toLower
  apply dif_neg
  rintro ⟨-, hle⟩
  rw [UInt32.le_iff_toNat_le] at hle
  have hz : 'Z'.val.toNat = 90 := rfl
  have hc : c.val.toNat = c.toNat := rfl
  omega

/-- The letters of suffixes are ASCII characters. -/
theorem toNat_lt_of_mem (h : d ∈ suffixLetters) : d.toNat < 128 := by
  have hall : ∀ d ∈ suffixLetters, d.toNat < 128 := List.all_iff_forall_prop.1 (by decide)
  exact hall d h

/-- The lower case in which a capital `I` with a dot keeps its dot, and all other characters beyond ASCII
are as they are. -/
def dottedI : LowerCase where
  lower _ c _ := if c = '\u0130' then ['i', '\u0307'] else [c.toLower]
  ascii := by
    intro _ c _ hc
    apply if_neg
    rintro rfl
    exact absurd hc (by decide)
  ne_nil := by
    intro _ c _
    split <;> nofun
  not_mem := by
    intro _ c _ hc d hd
    split at hd
    · have hboth : ∀ d ∈ ['i', '\u0307'], d ∉ ".pngf".toList :=
        List.all_iff_forall_prop.1 (by decide)
      exact hboth d hd
    · rw [toLower_of_le hc, List.mem_singleton] at hd
      have hplain : ∀ d ∈ ".pngf".toList, d.toNat < 128 := List.all_iff_forall_prop.1 (by decide)
      intro hmem
      have hlt := hplain d hmem
      rw [hd] at hlt
      omega
  dotted := by
    intro _ c _ front back hc h
    split at h
    · -- The dot itself is no `i`.
      rcases List.append_eq_cons_iff.1 h.symm with ⟨rfl, hi⟩ | ⟨front, rfl, hdot⟩
      · cases hi
        rfl
      · rcases List.append_eq_cons_iff.1 hdot.symm with ⟨rfl, hi⟩ | ⟨front, rfl, hnil⟩
        · cases hi
        · simp at hnil
    · rw [toLower_of_le hc] at h
      have hi : 'i' ∈ [c] := h ▸ List.mem_append_right front List.mem_cons_self
      cases List.mem_singleton.1 hi
      exact absurd hc (by decide)

/-- What has a letter of the suffixes as lower case is a character of ASCII. -/
theorem toNat_lt_of_toLower_mem (h : c.toLower ∈ suffixLetters) : c.toNat < 128 := by
  by_contra hc
  rw [toLower_of_le (Nat.not_lt.1 hc)] at h
  exact hc (toNat_lt_of_mem h)

/-- **Beyond ASCII, the lower case of a character ends with no letter of the suffixes.** -/
theorem exists_lower_eq_concat (before after : Text) (h : 128 ≤ c.toNat) :
    ∃ front d, l.lower before c after = front ++ [d] ∧ d ∉ suffixLetters := by
  rcases List.eq_nil_or_concat (l.lower before c after) with hnil | ⟨front, d, hlast⟩
  · exact absurd hnil (l.ne_nil before c after)
  rw [List.concat_eq_append] at hlast
  refine ⟨front, d, hlast, ?_⟩
  intro hd
  have hplain : d ∉ ".pngf".toList := by
    apply l.not_mem before c after h
    rw [hlast]
    exact List.mem_append_right _ List.mem_cons_self
  -- Only an `i` is left, and its dot would have to come behind the end.
  have hletters : ∀ d ∈ suffixLetters, d = 'i' ∨ d ∈ ".pngf".toList :=
    List.all_iff_forall_prop.1 (by decide)
  have hi : d = 'i' := (hletters d hd).resolve_right hplain
  rw [hi] at hlast
  cases l.dotted before c after front [] h hlast

/-! ## Ends of texts -/

/-- An end is compared from its last character on. -/
theorem concat_suffix_concat_iff : word ++ [c] <:+ t ++ [d] ↔ c = d ∧ word <:+ t := by
  rw [List.suffix_concat_iff]
  constructor
  · rintro (hnil | ⟨init, hconcat, hinit⟩)
    · simp at hnil
    · obtain ⟨rfl, hlast⟩ := List.append_inj' hconcat rfl
      exact ⟨List.head_eq_of_cons_eq hlast, hinit⟩
  · rintro ⟨rfl, hinit⟩
    exact .inr ⟨word, rfl, hinit⟩

/-- A letter of the suffixes ends the lower case of a text if it is that of the last character, which is
one of ASCII then. -/
theorem concat_suffix_fold_iff (hd : d ∈ suffixLetters) :
    word ++ [d] <:+ l.fold before (t ++ [c]) after ↔
      d = c.toLower ∧ word <:+ l.fold before t (c :: after) := by
  rw [fold_concat]
  by_cases hc : c.toNat < 128
  · rw [l.ascii _ _ _ hc, concat_suffix_concat_iff]
  · obtain ⟨front, e, hlower, he⟩ := l.exists_lower_eq_concat (before ++ t) after (Nat.not_lt.1 hc)
    rw [hlower, ← List.append_assoc, concat_suffix_concat_iff]
    constructor
    · rintro ⟨rfl, -⟩
      exact absurd hd he
    · rintro ⟨rfl, -⟩
      exact absurd (toNat_lt_of_toLower_mem hd) hc

/-- **An end in the letters of suffixes is seen alike by both ways of lower case.** -/
theorem suffix_fold_iff (hword : ∀ d ∈ word, d ∈ suffixLetters) :
    word <:+ l.fold before t after ↔ word <:+ t.map Char.toLower := by
  induction word using List.reverseRecOn generalizing t after with
  | nil => exact ⟨fun _ => List.nil_suffix, fun _ => List.nil_suffix⟩
  | append_singleton word d ih =>
    have hd : d ∈ suffixLetters := hword d (List.mem_append_right _ List.mem_cons_self)
    have hinit : ∀ d ∈ word, d ∈ suffixLetters := fun d h => hword d (List.mem_append_left _ h)
    rcases List.eq_nil_or_concat t with rfl | ⟨t, c, rfl⟩
    · exact Iff.rfl
    · rw [List.concat_eq_append, l.concat_suffix_fold_iff hd, ih hinit, List.map_append]
      exact concat_suffix_concat_iff.symm

/-- **A word of letters of the suffixes ends the lower case of a text exactly if it does so where only
ASCII has lower case.** -/
theorem suffix_text_iff (hword : ∀ d ∈ word, d ∈ suffixLetters) :
    word <:+ l.text t ↔ word <:+ t.map Char.toLower :=
  l.suffix_fold_iff hword

end LowerCase

end MemoryDoc
