/-
# How far readers look ahead

A reader is local if it looks no further than the character behind what it reads.  Text that ends with
a closing bracket is read the same whatever follows it, unless the reader goes on where it could end:
then the text behind must not begin with a mark with which it would go on.

Main statements: readers in a row are local if each of them is (`Local.bind`), and if each leaves
text behind a closing bracket alone, so do readers in a row (`Tail.bind`).  Both are the same for
readers that differ in their errors only (`Local.of_agrees`, `Tail.of_agrees`).
-/
import MemoryDoc.Text.Bracket

namespace MemoryDoc.Reader

variable {α β ε ε' : Type}

/-! ## Looking at the next character -/

/-- What a reader reads, and that it reads no further, is told by what it reads and the character
behind it. -/
structure Local (r : StateT Text (Except ε) α) : Prop where
  advances : Advances r
  alike : ∀ ⦃x y y' a⦄, y.head? = y'.head? → r (x ++ y) = .ok (a, y) → r (x ++ y') = .ok (a, y')

/-- A reader that reads nothing, and does not look at the text. -/
def Still (r : StateT Text (Except ε) α) : Prop :=
  ∃ result : Except ε α, ∀ t, r t = result.map fun a => (a, t)

theorem still_pure (a : α) : Still (pure a : StateT Text (Except ε) α) :=
  ⟨.ok a, fun _ => rfl⟩

theorem still_throw (e : ε) : Still (throw e : StateT Text (Except ε) α) :=
  ⟨.error e, fun _ => rfl⟩

theorem Still.bind {r : StateT Text (Except ε) α} {f : α → StateT Text (Except ε) β} (hr : Still r)
    (hf : ∀ a, Still (f a)) : Still (r >>= f) := by
  obtain ⟨result, hresult⟩ := hr
  cases result with
  | error e =>
    refine ⟨.error e, fun t => ?_⟩
    show (r t >>= fun p => f p.1 p.2) = _
    rw [hresult]
    rfl
  | ok a =>
    obtain ⟨next, hnext⟩ := hf a
    refine ⟨next, fun t => ?_⟩
    show (r t >>= fun p => f p.1 p.2) = _
    rw [hresult]
    exact hnext t

/-- What is still leaves the text. -/
theorem Still.eq_of_eq_ok {r : StateT Text (Except ε) α} (hr : Still r) {t left : Text} {a : α}
    (h : r t = .ok (a, left)) : left = t ∧ ∀ t', r t' = .ok (a, t') := by
  obtain ⟨result, hresult⟩ := hr
  rw [hresult] at h
  cases result with
  | error e => cases h
  | ok a =>
    cases h
    exact ⟨rfl, fun t' => by rw [hresult]; rfl⟩

theorem Still.local {r : StateT Text (Except ε) α} (hr : Still r) : Local r where
  advances t a left h := by
    obtain ⟨rfl, -⟩ := hr.eq_of_eq_ok h
    exact List.suffix_refl left
  alike x y y' a _ h := by
    obtain ⟨hleft, hall⟩ := hr.eq_of_eq_ok h
    have hx : x = [] := by simpa using hleft
    rw [hx]
    exact hall y'

theorem Local.mapFault (f : ε → ε') {r : StateT Text (Except ε) α} (hr : Local r) :
    Local (mapFault f r) where
  advances := advances_mapFault f hr.advances
  alike _ _ _ _ hy h := mapFault_eq_ok.2 (hr.alike hy (mapFault_eq_ok.1 h))

theorem local_pure (a : α) : Local (pure a : StateT Text (Except ε) α) :=
  (still_pure a).local

/-- **Readers in a row look no further than the character behind what they read.** -/
theorem Local.bind {r : StateT Text (Except ε) α} {f : α → StateT Text (Except ε) β} (hr : Local r)
    (hf : ∀ a, Local (f a)) : Local (r >>= f) where
  advances := advances_bind hr.advances fun a => (hf a).advances
  alike x y y' b hy h := by
    obtain ⟨a, left, hra, hfa⟩ := bind_eq_ok.1 h
    obtain ⟨x₁, hx₁⟩ := hr.advances hra
    obtain ⟨x₂, rfl⟩ := (hf a).advances hfa
    obtain rfl : x = x₁ ++ x₂ := by
      rw [← List.append_assoc] at hx₁
      exact (List.append_cancel_right hx₁).symm
    rw [List.append_assoc] at hra ⊢
    refine bind_eq_ok.2 ⟨a, x₂ ++ y', hr.alike ?_ hra, (hf a).alike hy hfa⟩
    rw [List.head?_append, List.head?_append, hy]

/-- A word is told by its characters and the one behind it. -/
theorem local_readWhile (p : Char → Bool) : Local (readWhile p) where
  advances := advances_readWhile p
  alike x y y' read hy h := by
    obtain ⟨hx, hread, hstop⟩ := readWhile_eq_ok.1 h
    obtain rfl : x = read := List.append_cancel_right hx
    exact readWhile_eq_ok.2 ⟨rfl, hread, by rwa [← hy]⟩

/-- A character is there or it is not. -/
theorem local_accept (c : Char) : Local (accept c) where
  advances := advances_accept c
  alike x y y' found hy h := by
    rcases accept_eq_ok.1 h with ⟨rfl, hx⟩ | ⟨rfl, hne, hx⟩
    · obtain rfl : x = [c] := (List.append_left_inj y).1 hx
      exact accept_eq_ok.2 (.inl ⟨rfl, rfl⟩)
    · obtain rfl : x = [] := by simpa using hx.symm
      exact accept_eq_ok.2 (.inr ⟨rfl, by rwa [List.nil_append, ← hy], rfl⟩)

/-- Text in brackets is read the same whatever follows. -/
theorem bracketed_append {t inside rest : Text} (h : bracketed t = .ok (inside, rest)) (y : Text) :
    bracketed (t ++ y) = .ok (inside, rest ++ y) := by
  obtain ⟨hbalanced, rfl⟩ := bracketed_eq_ok.1 h
  exact bracketed_eq_ok.2 ⟨hbalanced, by simp⟩

theorem local_bracketed : Local bracketed where
  advances := advances_bracketed
  alike x y y' inside _ h := by
    obtain ⟨hbalanced, hx⟩ := bracketed_eq_ok.1 h
    have hread : x = '(' :: (inside ++ [')']) := by
      refine (List.append_left_inj y).1 ?_
      rw [hx]
      simp
    exact bracketed_eq_ok.2 ⟨hbalanced, by rw [hread]; simp⟩

/-- Brackets are there or not, as the text begins with one. -/
theorem local_optionalBracketed : Local optionalBracketed where
  advances := advances_optionalBracketed
  alike x y y' text hy h := by
    rcases optionalBracketed_eq_ok.1 h with ⟨inside, rfl, hb⟩ | ⟨rfl, hne, hx⟩
    · exact optionalBracketed_eq_ok.2 (.inl ⟨inside, rfl, local_bracketed.alike hy hb⟩)
    · obtain rfl : x = [] := by simpa using hx.symm
      exact optionalBracketed_eq_ok.2 (.inr ⟨rfl, by rwa [List.nil_append, ← hy], rfl⟩)

/-! ## Text behind a closing bracket -/

/-- A text does not begin with one of the marks. -/
def Unmarked (marks : List Char) (t : Text) : Prop :=
  ∀ c, t.head? = some c → c ∉ marks

variable {marks : List Char}

/-- Text that ends with a closing bracket and is read to its end is read the same with any text behind
it that does not begin with a mark, and that text is left. -/
structure Sealed (marks : List Char) (r : StateT Text (Except ε) α) : Prop extends Local r where
  closed : ∀ ⦃x y a⦄, x.getLast? = some ')' → Unmarked marks y → r x = .ok (a, []) →
    r (x ++ y) = .ok (a, y)

/-- The reader may follow where a text could end: at the end of a text it reads as much as in front
of text that does not begin with a mark. -/
structure Tail (marks : List Char) (r : StateT Text (Except ε) α) : Prop extends Sealed marks r where
  idle : ∀ ⦃y a⦄, Unmarked marks y → r [] = .ok (a, []) → r y = .ok (a, y)

/-- A reader that comes last reads no further than before. -/
theorem Tail.append {r : StateT Text (Except ε) α} (hr : Tail marks r) {x y : Text} {a : α}
    (hx : x = [] ∨ x.getLast? = some ')') (hy : Unmarked marks y) (h : r x = .ok (a, [])) :
    r (x ++ y) = .ok (a, y) := by
  rcases hx with rfl | hx
  · exact hr.idle hy h
  · exact hr.closed hx hy h

theorem Still.tail {r : StateT Text (Except ε) α} (hr : Still r) : Tail marks r where
  toLocal := hr.local
  closed x y a hx _ h := by
    obtain ⟨rfl, -⟩ := hr.eq_of_eq_ok h
    cases hx
  idle y a _ h := (hr.eq_of_eq_ok h).2 y

theorem tail_pure (a : α) : Tail marks (pure a : StateT Text (Except ε) α) :=
  (still_pure a).tail

theorem Sealed.mapFault (f : ε → ε') {r : StateT Text (Except ε) α} (hr : Sealed marks r) :
    Sealed marks (mapFault f r) where
  toLocal := hr.toLocal.mapFault f
  closed _ _ _ hx hy h := mapFault_eq_ok.2 (hr.closed hx hy (mapFault_eq_ok.1 h))

theorem Tail.mapFault (f : ε → ε') {r : StateT Text (Except ε) α} (hr : Tail marks r) :
    Tail marks (mapFault f r) where
  toSealed := hr.toSealed.mapFault f
  idle _ _ hy h := mapFault_eq_ok.2 (hr.idle hy (mapFault_eq_ok.1 h))

/-- The last character of a text is that of its end. -/
theorem getLast?_append_cons (x : Text) (c : Char) (y : Text) :
    (x ++ c :: y).getLast? = (c :: y).getLast? := by
  rw [List.getLast?_append, List.getLast?_cons]
  rfl

/-- Where text is left, the closing bracket is the end of it. -/
theorem Sealed.append {r : StateT Text (Except ε) α} (hr : Sealed marks r) {x y left : Text} {a : α}
    (hx : x.getLast? = some ')') (hy : Unmarked marks y) (h : r x = .ok (a, left)) :
    r (x ++ y) = .ok (a, left ++ y) ∧ (left = [] ∨ left.getLast? = some ')') := by
  obtain ⟨x₁, rfl⟩ := hr.advances h
  cases left with
  | nil =>
    rw [List.append_nil] at hx h ⊢
    exact ⟨hr.closed hx hy h, .inl rfl⟩
  | cons c left =>
    rw [getLast?_append_cons] at hx
    have hhead : (c :: left).head? = (c :: left ++ y).head? := rfl
    rw [List.append_assoc]
    exact ⟨hr.alike hhead h, .inr hx⟩

/-- The last reader that reads anything finds the closing bracket. -/
theorem Sealed.bind {r : StateT Text (Except ε) α} {f : α → StateT Text (Except ε) β}
    (hr : Sealed marks r) (hf : ∀ a, Tail marks (f a)) : Sealed marks (r >>= f) where
  toLocal := hr.toLocal.bind fun a => (hf a).toLocal
  closed x y b hx hy h := by
    obtain ⟨a, left, hra, hfa⟩ := bind_eq_ok.1 h
    obtain ⟨happend, hleft⟩ := hr.append hx hy hra
    exact bind_eq_ok.2 ⟨a, left ++ y, happend, (hf a).append hleft hy hfa⟩

/-- **Readers in a row leave text behind a closing bracket alone if each of them does.** -/
theorem Tail.bind {r : StateT Text (Except ε) α} {f : α → StateT Text (Except ε) β}
    (hr : Tail marks r) (hf : ∀ a, Tail marks (f a)) : Tail marks (r >>= f) where
  toSealed := hr.toSealed.bind hf
  idle y b hy h := by
    obtain ⟨a, left, hra, hfa⟩ := bind_eq_ok.1 h
    obtain rfl : left = [] := List.suffix_nil.1 (hr.advances hra)
    exact bind_eq_ok.2 ⟨a, y, hr.idle hy hra, (hf a).idle hy hfa⟩

/-- A test may choose between readers that come last. -/
theorem tail_ite {c : Prop} [Decidable c] {r r' : StateT Text (Except ε) α} (hr : Tail marks r)
    (hr' : Tail marks r') : Tail marks (if c then r else r') := by
  split
  · exact hr
  · exact hr'

/-- A text does not end where a character other than the closing bracket is looked for. -/
theorem sealed_accept {c : Char} (hclose : c ≠ ')') : Sealed marks (accept c) where
  toLocal := local_accept c
  closed x y found hx _ h := by
    rcases accept_eq_ok.1 h with ⟨-, rfl⟩ | ⟨-, -, rfl⟩
    · exact absurd (Option.some.inj hx) hclose
    · cases hx

/-- A character that is a mark may come last: without it, the text does not go on. -/
theorem tail_accept {c : Char} (hc : c ∈ marks) (hclose : c ≠ ')') : Tail marks (accept c) where
  toSealed := sealed_accept hclose
  idle y found hy h := by
    cases h
    exact accept_eq_ok.2 (.inr ⟨rfl, fun hhead => hy c hhead hc, rfl⟩)

theorem tail_of_fails {r : StateT Text (Except ε) α} (h : ∀ t result, r t ≠ .ok result) :
    Tail marks r where
  advances t _ _ ht := absurd ht (h t _)
  alike x y _ _ _ ht := absurd ht (h (x ++ y) _)
  closed x _ _ _ _ ht := absurd ht (h x _)
  idle _ _ _ ht := absurd ht (h [] _)

theorem tail_guard {c : Prop} [Decidable c] {e : ε} {f : α → StateT Text (Except ε) β}
    {r : StateT Text (Except ε) β} (hr : Tail marks r) :
    Tail marks (if c then throw e >>= f else r) :=
  tail_ite (tail_of_fails fun _ _ ht => by cases ht) hr

/-- Brackets may come last, since they are closed. -/
theorem tail_bracketed : Tail marks bracketed where
  toLocal := local_bracketed
  closed _ y _ _ _ h := bracketed_append h y
  idle y inside _ h := by cases h

/-- A text that ends with a closing bracket has been read in full. -/
theorem sealed_optionalBracketed : Sealed marks optionalBracketed where
  toLocal := local_optionalBracketed
  closed x y text hx hy h := by
    rcases optionalBracketed_eq_ok.1 h with ⟨inside, rfl, hb⟩ | ⟨rfl, -, rfl⟩
    · exact optionalBracketed_eq_ok.2 (.inl ⟨inside, rfl, bracketed_append hb y⟩)
    · cases hx

/-! ## Readers that differ in their errors -/

/-- Two readers give the same on a text unless both fail. -/
def Agrees (r r' : StateT Text (Except ε) α) : Prop :=
  ∀ t result, r t = .ok result ↔ r' t = .ok result

theorem Agrees.refl (r : StateT Text (Except ε) α) : Agrees r r :=
  fun _ _ => Iff.rfl

theorem agrees_of_fails {r r' : StateT Text (Except ε) α} (hr : ∀ t result, r t ≠ .ok result)
    (hr' : ∀ t result, r' t ≠ .ok result) : Agrees r r' :=
  fun t result => iff_of_false (hr t result) (hr' t result)

/-- Readers agree if they agree from the second step on. -/
theorem agrees_bind {r : StateT Text (Except ε) α} {f f' : α → StateT Text (Except ε) β}
    (hf : ∀ a, Agrees (f a) (f' a)) : Agrees (r >>= f) (r >>= f') := by
  rintro t ⟨b, left⟩
  simp only [bind_eq_ok, hf _ _ _]

theorem agrees_ite {c : Prop} [Decidable c] {r r' u u' : StateT Text (Except ε) α} (h : Agrees r r')
    (h' : Agrees u u') : Agrees (if c then r else u) (if c then r' else u') := by
  split
  · exact h
  · exact h'

/-- What is thrown does not matter. -/
theorem agrees_guard {c : Prop} [Decidable c] {e e' : ε} {f f' : α → StateT Text (Except ε) β}
    {u u' : StateT Text (Except ε) β} (h : Agrees u u') :
    Agrees (if c then throw e >>= f else u) (if c then throw e' >>= f' else u') :=
  agrees_ite (agrees_of_fails (fun _ _ ht => by cases ht) (fun _ _ ht => by cases ht)) h

/-- What a reader reads is told like that of one that it agrees with. -/
theorem Local.of_agrees {r r' : StateT Text (Except ε) α} (h : Agrees r r') (hr : Local r') :
    Local r where
  advances _ _ _ ht := hr.advances ((h _ _).1 ht)
  alike _ _ _ _ hy ht := (h _ _).2 (hr.alike hy ((h _ _).1 ht))

theorem Sealed.of_agrees {r r' : StateT Text (Except ε) α} (h : Agrees r r') (hr : Sealed marks r') :
    Sealed marks r where
  toLocal := hr.toLocal.of_agrees h
  closed _ _ _ hx hy ht := (h _ _).2 (hr.closed hx hy ((h _ _).1 ht))

theorem Tail.of_agrees {r r' : StateT Text (Except ε) α} (h : Agrees r r') (hr : Tail marks r') :
    Tail marks r where
  toSealed := hr.toSealed.of_agrees h
  idle _ _ hy ht := (h _ _).2 (hr.idle hy ((h _ _).1 ht))

end MemoryDoc.Reader
