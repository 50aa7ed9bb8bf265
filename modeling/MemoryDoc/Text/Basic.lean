/-
# Texts

A text is the list of its characters.  Here are the few operations the library is written with:
cutting a text at a character, finding a word in it, trimming its ends, telling what a reader has
consumed, and the size of a text in UTF-8, the unit in which positions are counted.

Main statement: a cut loses nothing but the separator (`cut_eq_some`).
-/

namespace MemoryDoc

/-- A text is the list of its characters. -/
abbrev Text := List Char

/-- A string stands for the text of its characters. -/
instance : Coe String Text where
  coe := String.toList

namespace Text

/-- The number of bytes of a text in UTF-8. -/
def byteSize : (t : Text) → Nat
  | [] => 0
  | c :: t => c.utf8Size + byteSize t

/-- What is left of a text after its first `n` bytes, if a character ends there. -/
def dropBytes? : (n : Nat) → (t : Text) → Option Text
  | 0, t => some t
  | _ + 1, [] => none
  | n + 1, c :: t => if c.utf8Size ≤ n + 1 then dropBytes? (n + 1 - c.utf8Size) t else none

/-- The texts before and after the first `sep`, if there is one. -/
def cut (sep : Char) (t : Text) : Option (Text × Text) :=
  match t.dropWhile (· ≠ sep) with
  | [] => none
  | _ :: after => some (t.takeWhile (· ≠ sep), after)

/-- The texts before and after the last `sep`, if there is one. -/
def cutLast (sep : Char) (t : Text) : Option (Text × Text) :=
  (cut sep t.reverse).map fun (after, before) => (before.reverse, after.reverse)

/-- What follows `word` in a text that starts with it. -/
def after? : (word t : Text) → Option Text
  | [], t => some t
  | _ :: _, [] => none
  | w :: word, c :: t => if w = c then after? word t else none

/-- The texts before and after the first place where `word` is written. -/
def cutWord (word : Text) : Text → Option (Text × Text)
  | [] => (after? word []).map fun after => ([], after)
  | c :: t =>
    match after? word (c :: t) with
    | some after => some ([], after)
    | none => (cutWord word t).map fun (before, after) => (c :: before, after)

/-- The text without the characters of class `p` at its front. -/
def trimFront (p : Char → Bool) (t : Text) : Text :=
  t.dropWhile p

/-- The text without the characters of class `p` at its ends. -/
def trim (p : Char → Bool) (t : Text) : Text :=
  ((trimFront p t).reverse.dropWhile p).reverse

/-- The part of `before` that was read when `after` is what is left of it. -/
def consumed (before after : Text) : Text :=
  before.take (before.length - after.length)

/-- The texts in order, with `sep` between each two of them. -/
def join (sep : Text) (ts : List Text) : Text :=
  sep.intercalate ts

/-! ## Small facts -/

/-- A text starts with a word exactly when it is the word and what follows it. -/
theorem after?_eq_some {word t rest : Text} : after? word t = some rest ↔ t = word ++ rest := by
  induction word generalizing t with
  | nil => simp [after?, eq_comm]
  | cons w word ih =>
    cases t with
    | nil => simp [after?]
    | cons c t =>
      by_cases h : w = c
      · simp [after?, h, ih]
      · simp [after?, h, Ne.symm h]

theorem byteSize_append (s t : Text) : byteSize (s ++ t) = byteSize s + byteSize t := by
  induction s with
  | nil => exact (Nat.zero_add _).symm
  | cons c s ih => rw [List.cons_append, byteSize, byteSize, ih, Nat.add_assoc]

/-- Dropping the bytes of a text drops the text. -/
theorem dropBytes?_byteSize (s t : Text) : dropBytes? (byteSize s) (s ++ t) = some t := by
  induction s with
  | nil => cases t <;> rfl
  | cons c s ih =>
    have hpos : 0 < c.utf8Size := c.utf8Size_pos
    have hsize : byteSize (c :: s) = c.utf8Size + byteSize s := rfl
    obtain ⟨n, hn⟩ : ∃ n, byteSize (c :: s) = n + 1 := ⟨byteSize (c :: s) - 1, by omega⟩
    rw [hn, List.cons_append, dropBytes?, if_pos (by omega)]
    rw [show n + 1 - c.utf8Size = byteSize s by omega, ih]

/-- **A cut loses nothing but the separator.** -/
theorem cut_eq_some {sep : Char} {t before after : Text} (h : cut sep t = some (before, after)) :
    t = before ++ sep :: after := by
  unfold cut at h
  split at h
  · simp at h
  · next c rest hd =>
    simp only [Option.some.injEq, Prod.mk.injEq] at h
    obtain ⟨rfl, rfl⟩ := h
    have hc : c = sep := by
      have hhead := List.head?_dropWhile_not (fun x : Char => decide (x ≠ sep)) t
      rw [hd] at hhead
      simpa using hhead
    subst hc
    conv => lhs; rw [← List.takeWhile_append_dropWhile (p := fun x : Char => decide (x ≠ c)) (l := t)]
    rw [hd]

section

variable {sep : Char} {t : Text} (h : sep ∉ t)

include h

/-- There is no cut at a character that is not there. -/
theorem cut_of_not_mem : cut sep t = none := by
  have hall : ∀ c ∈ t, decide (c ≠ sep) = true := fun c hc => decide_eq_true fun heq => h (heq ▸ hc)
  have hdrop : (t ++ []).dropWhile (fun c => decide (c ≠ sep)) = [] :=
    List.dropWhile_append_of_pos hall
  rw [List.append_nil] at hdrop
  rw [cut, hdrop]

/-- The first cut is behind the text in which the separator is not. -/
theorem cut_append (after : Text) : cut sep (t ++ sep :: after) = some (t, after) := by
  have hall : ∀ c ∈ t, decide (c ≠ sep) = true := fun c hc => decide_eq_true fun heq => h (heq ▸ hc)
  rw [cut, List.dropWhile_append_of_pos hall, List.takeWhile_append_of_pos hall]
  simp

end

/-- The text is what is before a word, the word, and what is behind it. -/
theorem eq_of_cutWord {word t before after : Text}
    (h : cutWord word t = some (before, after)) : t = before ++ (word ++ after) := by
  induction t generalizing before with
  | nil =>
    obtain ⟨a, ha, he⟩ := Option.map_eq_some_iff.1 h
    cases he
    rw [List.nil_append]
    exact after?_eq_some.1 ha
  | cons c t ih =>
    unfold cutWord at h
    split at h
    · next ha =>
      cases h
      rw [List.nil_append]
      exact after?_eq_some.1 ha
    · obtain ⟨⟨b, a⟩, hb, he⟩ := Option.map_eq_some_iff.1 h
      cases he
      rw [ih hb]
      rfl

/-- The characters of texts that are joined are those of the texts and of what is between them. -/
theorem mem_join {c : Char} {sep : Text} {ts : List Text} (h : c ∈ join sep ts) :
    c ∈ sep ∨ ∃ t ∈ ts, c ∈ t := by
  induction ts with
  | nil => cases h
  | cons t ts ih =>
    cases ts with
    | nil => exact Or.inr ⟨t, by simp, by simpa [join] using h⟩
    | cons u us =>
      rw [join, List.intercalate_cons_cons, List.mem_append, List.mem_append] at h
      rcases h with (h | h) | h
      · exact Or.inr ⟨t, by simp, h⟩
      · exact Or.inl h
      · rcases ih h with h | ⟨v, hv, h⟩
        · exact Or.inl h
        · exact Or.inr ⟨v, List.mem_cons_of_mem _ hv, h⟩

/-- What is joined has the characters of each text. -/
theorem subset_join {sep t : Text} {ts : List Text} (h : t ∈ ts) : t ⊆ join sep ts := by
  induction ts with
  | nil => cases h
  | cons u us ih =>
    intro c hc
    cases us with
    | nil =>
      rw [List.mem_singleton] at h
      simpa [join, h] using hc
    | cons v vs =>
      rw [join, List.intercalate_cons_cons, List.mem_append, List.mem_append]
      rcases List.mem_cons.1 h with rfl | h
      · exact Or.inl (Or.inl hc)
      · exact Or.inr (ih h hc)

/-- The characters of the parts of a text are characters of the text. -/
theorem subset_of_mem_splitOn {sep : Char} {t part : Text} (h : part ∈ t.splitOn sep) :
    part ⊆ t := by
  have hjoin : join [sep] (t.splitOn sep) = t := List.intercalate_splitOn sep
  exact fun c hc => hjoin ▸ subset_join h hc

end Text

end MemoryDoc
