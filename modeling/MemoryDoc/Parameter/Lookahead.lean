/-
# How far parameters are read

Parameters are read up to the first character that they cannot have, a text in brackets up to the
bracket that closes it, and a cropping rectangle up to its brace.  So it is told by the next character
where they end, and a closing bracket ends them whatever follows.

Main statements: parameters of pictures look no further than the next character
(`Picture.local_read`), and text behind a closing bracket is left alone (`Picture.sealed_read`).
-/
import MemoryDoc.Parameter.Picture
import MemoryDoc.Text.Lookahead

namespace MemoryDoc.Parameter

open Reader

/-- Parameters are read as a word first, and that word is taken apart. -/
theorem Spec.read_eq (s : Spec) :
    s.read = readWhile (s.accepts []) >>= fun params t => (s.get params).map fun vs => (vs, t) := by
  funext t
  show s.read t = (s.get (t.takeWhile (s.accepts []))).map _
  unfold Spec.read
  cases s.get (t.takeWhile (s.accepts [])) <;> rfl

/-- A closing bracket is not a character of parameters. -/
theorem Spec.accepts_close (s : Spec) {extra : Text} (h : ')' ∉ extra) :
    s.accepts extra ')' = false := by
  have hnumber : numberChars.contains ')' = false := by decide
  have hname : nameChars.contains ')' = false := by decide
  have hextra : extra.contains ')' = false := by simpa using h
  rw [accepts, hnumber, hname, hextra, Bool.and_false]
  rfl

/-- A parameter that has no default is not left out. -/
theorem Spec.get_nil_ne_ok {s : Spec} (h : 0 < s.required) (values : Values) :
    s.get [] ≠ .ok values := by
  intro hget
  obtain ⟨given, hgiven, hmap⟩ := outcome_bind_eq_ok.1 hget
  cases hgiven
  cases hnames : s.names with
  | nil => simp [required, hnames] at h
  | cons name names =>
    have hfallback : ∀ v, s.complete [] (none, 0) ≠ .ok v := by
      intro v hv
      rw [complete, fallback, if_neg (by omega)] at hv
      split at hv <;> cases hv
    rw [hnames, List.map_cons, List.zipIdx_cons, List.mapM_cons] at hmap
    obtain ⟨v, hv, -⟩ := outcome_bind_eq_ok.1 hmap
    exact hfallback v hv

/-- Parameters end where a character stands that they cannot have. -/
theorem Spec.local_read (s : Spec) : Local s.read := by
  rw [s.read_eq]
  exact (local_readWhile _).bind fun params => Still.local ⟨s.get params, fun _ => rfl⟩

/-- A word is read and then a text in brackets, if there is one. -/
theorem readString_eq (p : Char → Bool) :
    readString p =
      readWhile p >>= fun params => optionalBracketed >>= fun text => pure (params, text) := by
  funext t
  show readString p t = (optionalBracketed (t.dropWhile p) >>= fun r => _)
  unfold readString
  cases optionalBracketed (t.dropWhile p) <;> rfl

theorem local_readString (p : Char → Bool) : Local (readString p) := by
  rw [readString_eq]
  exact (local_readWhile p).bind fun _ => local_optionalBracketed.bind fun _ => local_pure _

variable {marks : List Char}

/-- A closing bracket that is not in the class is left. -/
theorem getLast?_of_readWhile {p : Char → Bool} (hp : p ')' = false) {x params left : Text}
    (hx : x.getLast? = some ')') (h : readWhile p x = .ok (params, left)) :
    left.getLast? = some ')' := by
  obtain ⟨rfl, hparams, -⟩ := readWhile_eq_ok.1 h
  cases left with
  | nil =>
    rw [List.append_nil] at hx
    have := hparams ')' (List.mem_of_getLast? hx)
    rw [hp] at this
    cases this
  | cons c left => rwa [getLast?_append_cons] at hx

/-- A word that cannot have a closing bracket ends with one only if it has a text in brackets. -/
theorem sealed_readString {p : Char → Bool} (hp : p ')' = false) : Sealed marks (readString p) where
  toLocal := local_readString p
  closed x y a hx hy h := by
    rw [readString_eq] at h ⊢
    obtain ⟨params, left, hread, h⟩ := bind_eq_ok.1 h
    obtain ⟨text, left₁, hbracketed, h⟩ := bind_eq_ok.1 h
    cases h
    have hleft := getLast?_of_readWhile hp hx hread
    obtain ⟨x₁, rfl⟩ := advances_readWhile p hread
    have hhead : left.head? = (left ++ y).head? := by
      cases left with
      | nil => cases hleft
      | cons c left => rfl
    rw [List.append_assoc]
    refine bind_eq_ok.2 ⟨params, left ++ y, (local_readWhile p).alike hhead hread, ?_⟩
    exact bind_eq_ok.2 ⟨text, y, sealed_optionalBracketed.closed hleft hy hbracketed, rfl⟩

/-- What ends with a text in brackets is read the same whatever follows. -/
theorem readString_append {p : Char → Bool} {t params text left : Text}
    (h : readString p t = .ok ((params, some text), left)) (y : Text) :
    readString p (t ++ y) = .ok ((params, some text), left ++ y) := by
  rw [readString_eq] at h ⊢
  obtain ⟨params, behind, hread, h⟩ := bind_eq_ok.1 h
  obtain ⟨_, left₁, hbracketed, h⟩ := bind_eq_ok.1 h
  cases h
  rcases optionalBracketed_eq_ok.1 hbracketed with ⟨_, h, hb⟩ | ⟨h, -⟩
  · cases h
    have hhead : behind.head? = (behind ++ y).head? := by
      obtain ⟨-, rfl⟩ := bracketed_eq_ok.1 hb
      rfl
    have happend := optionalBracketed_eq_ok.2 (.inl ⟨text, rfl, bracketed_append hb y⟩)
    obtain ⟨x₁, rfl⟩ := advances_readWhile p hread
    rw [List.append_assoc]
    refine bind_eq_ok.2 ⟨params, behind ++ y, (local_readWhile p).alike hhead hread, ?_⟩
    exact bind_eq_ok.2 ⟨some text, left ++ y, happend, rfl⟩
  · cases h

namespace Picture

/-- A crop is read from brace to brace, and a name in brackets may follow. -/
theorem readCrop_eq_ok {t left : Text} {crop : Crop} {name : Option Text} :
    readCrop t = .ok ((crop, name), left) ↔
      ∃ values rest, cropSpec.read t.tail = .ok (values, '}' :: rest) ∧
        optionalBracketed rest = .ok (name, left) ∧ crop = cropOf values := by
  unfold readCrop
  constructor
  · intro h
    split at h
    · cases h
    · next values rest hread =>
      split at h
      · next hname =>
        cases h
        exact ⟨values, rest, hread, hname, rfl⟩
      · cases h
    · cases h
  · rintro ⟨values, rest, hread, hname, rfl⟩
    simp only [hread, hname]

theorem local_readCrop : Local readCrop where
  advances := advances_readCrop
  alike x y y' a hy h := by
    obtain ⟨crop, name⟩ := a
    obtain ⟨values, rest, hread, hname, rfl⟩ := readCrop_eq_ok.1 h
    obtain ⟨x₃, rfl⟩ := advances_optionalBracketed hname
    obtain ⟨x₂, hx₂⟩ := cropSpec.advances_read hread
    cases x with
    | nil =>
      -- What is left of a text without its first character is shorter than the text.
      have hlength := congrArg List.length hx₂
      simp at hlength
      omega
    | cons c x =>
      obtain rfl : x = x₂ ++ '}' :: x₃ := by
        refine (List.append_left_inj y).1 ?_
        rw [List.append_assoc]
        exact hx₂.symm
      refine readCrop_eq_ok.2 ⟨values, x₃ ++ y', ?_, local_optionalBracketed.alike hy hname, rfl⟩
      have hbrace : ('}' :: (x₃ ++ y)).head? = ('}' :: (x₃ ++ y')).head? := rfl
      have happend : (c :: (x₂ ++ '}' :: x₃) ++ y').tail = x₂ ++ '}' :: (x₃ ++ y') := by simp
      rw [happend]
      refine cropSpec.local_read.alike hbrace ?_
      rwa [hx₂]

/-- A crop that ends with a closing bracket has its name. -/
theorem sealed_readCrop : Sealed marks readCrop where
  toLocal := local_readCrop
  closed x y a hx hy h := by
    obtain ⟨crop, name⟩ := a
    obtain ⟨values, rest, hread, hname, rfl⟩ := readCrop_eq_ok.1 h
    obtain ⟨x₂, hx₂⟩ := cropSpec.advances_read hread
    cases x with
    | nil => cases hx
    | cons c x =>
      rw [List.tail_cons] at hx₂
      subst hx₂
      have hrest : rest.getLast? = some ')' := by
        rw [← List.cons_append, getLast?_append_cons] at hx
        cases rest with
        | nil => exact absurd (Option.some.inj hx) (by decide)
        | cons d rest => rwa [List.getLast?_cons_cons] at hx
      have hbehind := sealed_optionalBracketed.closed hrest hy hname
      refine readCrop_eq_ok.2 ⟨values, rest ++ y, ?_, hbehind, rfl⟩
      have hbrace : ('}' :: rest).head? = ('}' :: (rest ++ y)).head? := rfl
      have happend : (c :: (x₂ ++ '}' :: rest) ++ y).tail = x₂ ++ '}' :: (rest ++ y) := by simp
      rw [happend]
      exact cropSpec.local_read.alike hbrace hread

/-- The parameters of a picture are read with a file name behind them, with a cropping rectangle, or
with neither. -/
theorem read_eq_ok {s : Spec} {extra t left : Text} {v : Picture} :
    read s extra t = .ok (v, left) ↔
      ∃ params name rest values, readString (s.accepts extra) t = .ok ((params, name), rest) ∧
        s.get params = .ok values ∧
        ((name = none ∧ rest.head? = some '{') ∧
            (∃ crop name, readCrop rest = .ok ((crop, name), left) ∧ v = ⟨values, crop, name⟩) ∨
          ¬ (name = none ∧ rest.head? = some '{') ∧ rest = left ∧
            v = { values, fileName := name }) := by
  unfold read
  constructor
  · intro h
    split at h
    · cases h
    · next params name rest hstring =>
      split at h
      · cases h
      · next values hvalues =>
        refine ⟨params, name, rest, values, hstring, hvalues, ?_⟩
        split at h
        · split at h
          · next crop name left hcrop =>
            cases h
            exact .inl ⟨⟨rfl, rfl⟩, crop, name, hcrop, rfl⟩
          · cases h
        · next hbrace =>
          cases h
          refine .inr ⟨?_, rfl, rfl⟩
          rintro ⟨rfl, hhead⟩
          obtain ⟨u, rfl⟩ := List.head?_eq_some_iff.1 hhead
          exact hbrace u rfl rfl
  · rintro ⟨params, name, rest, values, hstring, hvalues, h⟩
    simp only [hstring, hvalues]
    rcases h with ⟨⟨rfl, hhead⟩, crop, name, hcrop, rfl⟩ | ⟨hbrace, rfl, rfl⟩
    · obtain ⟨u, rfl⟩ := List.head?_eq_some_iff.1 hhead
      simp only [hcrop]
    · split
      · exact absurd ⟨rfl, rfl⟩ hbrace
      · rfl

theorem local_read (s : Spec) (extra : Text) : Local (read s extra) where
  advances := advances_read s extra
  alike x y y' v hy h := by
    obtain ⟨params, name, rest, values, hstring, hvalues, h⟩ := read_eq_ok.1 h
    rcases h with ⟨⟨rfl, hhead⟩, crop, name, hcrop, rfl⟩ | ⟨hbrace, rfl, rfl⟩
    · obtain ⟨x₂, rfl⟩ := advances_readCrop hcrop
      obtain ⟨x₁, hx₁⟩ := advances_readString _ hstring
      obtain rfl : x = x₁ ++ x₂ := by
        rw [← List.append_assoc] at hx₁
        exact (List.append_cancel_right hx₁).symm
      have hsame : (x₂ ++ y).head? = (x₂ ++ y').head? := by
        rw [List.head?_append, List.head?_append, hy]
      rw [List.append_assoc] at hstring ⊢
      refine read_eq_ok.2 ⟨params, none, x₂ ++ y', values,
        (local_readString _).alike hsame hstring, hvalues, .inl ⟨⟨rfl, hsame ▸ hhead⟩, ?_⟩⟩
      exact ⟨crop, name, local_readCrop.alike hy hcrop, rfl⟩
    · refine read_eq_ok.2 ⟨params, name, y', values, (local_readString _).alike hy hstring, hvalues,
        .inr ⟨?_, rfl, rfl⟩⟩
      rwa [← hy]

/-- The parameters of a picture that end with a closing bracket have the name of their file. -/
theorem sealed_read (s : Spec) {extra : Text} (hextra : ')' ∉ extra) :
    Sealed marks (read s extra) where
  toLocal := local_read s extra
  closed x y v hx hy h := by
    have hs := s.accepts_close hextra
    obtain ⟨params, name, rest, values, hstring, hvalues, h⟩ := read_eq_ok.1 h
    rcases h with ⟨⟨rfl, hhead⟩, crop, name, hcrop, rfl⟩ | ⟨hbrace, rfl, rfl⟩
    · obtain ⟨x₁, rfl⟩ := advances_readString _ hstring
      obtain ⟨rest, rfl⟩ := List.head?_eq_some_iff.1 hhead
      rw [getLast?_append_cons] at hx
      have hsame : ('{' :: rest).head? = ('{' :: rest ++ y).head? := rfl
      rw [List.append_assoc]
      refine read_eq_ok.2 ⟨params, none, '{' :: rest ++ y, values,
        (local_readString _).alike hsame hstring, hvalues, .inl ⟨⟨rfl, rfl⟩, ?_⟩⟩
      exact ⟨crop, name, sealed_readCrop.closed hx hy hcrop, rfl⟩
    · have hstring' := (sealed_readString hs).closed hx hy hstring
      refine read_eq_ok.2 ⟨params, name, y, values, hstring', hvalues, .inr ⟨?_, rfl, rfl⟩⟩
      -- The closing bracket is that of the file name.
      rintro ⟨rfl, -⟩
      rw [readString_eq] at hstring
      obtain ⟨params, left, hread, hstring⟩ := bind_eq_ok.1 hstring
      obtain ⟨text, left₁, hbracketed, hstring⟩ := bind_eq_ok.1 hstring
      cases hstring
      have hleft := getLast?_of_readWhile hs hx hread
      rcases optionalBracketed_eq_ok.1 hbracketed with ⟨_, hsome, -⟩ | ⟨-, -, rfl⟩
      · cases hsome
      · cases hleft

/-- Parameters one of which has no default follow where a text could end only with a mark in front. -/
theorem tail_read {s : Spec} (hs : 0 < s.required) {extra : Text} (hextra : ')' ∉ extra) :
    Tail marks (read s extra) where
  toSealed := sealed_read s hextra
  idle y v _ h := by
    obtain ⟨params, name, rest, values, hstring, hvalues, -⟩ := read_eq_ok.1 h
    cases hstring
    exact absurd hvalues (Spec.get_nil_ne_ok hs values)

end Picture

end MemoryDoc.Parameter
