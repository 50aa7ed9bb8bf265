/-
# Readers

A reader takes something from the front of a text and leaves the rest, or fails with a fault.
Everything that the arguments of macros have in common is read here: characters of a class, numbers
and addresses, and texts in brackets, in which brackets may nest.

Main statements: a reader that advances leaves an end of what it was given (`Advances`), and so do
all readers here.
-/
import MemoryDoc.Fault

namespace MemoryDoc

/-- A reader takes a value from the front of a text and leaves the rest. -/
abbrev Reader := StateT Text (Except Fault)

namespace Reader

variable {α β ε ε' : Type}

/-- The text that is left, without reading it. -/
def rest : Reader Text :=
  fun t => .ok (t, t)

/-- The reader with its faults told by `f`. -/
def mapFault (f : ε → ε') (r : StateT Text (Except ε) α) : StateT Text (Except ε') α := fun t =>
  match r t with
  | .ok result => .ok result
  | .error fault => .error (f fault)

/-- Read all characters of class `p` up to the first that is not. -/
def readWhile (p : Char → Bool) : Reader Text :=
  fun t => .ok (t.takeWhile p, t.dropWhile p)

/-- Read the character `c` if it comes next, and say whether it did. -/
def accept (c : Char) : Reader Bool
  | [] => .ok (false, [])
  | d :: t => if d = c then .ok (true, t) else .ok (false, d :: t)

/-! ## Brackets -/

/-- The text up to the bracket that closes `depth + 1` open ones, and the text behind it.  What has
been read so far comes last first. -/
def closingFrom : (inside : Text) → (depth : Nat) → Text → Option (Text × Text)
  | _, _, [] => none
  | inside, depth, c :: t =>
    if c = '(' then closingFrom (c :: inside) (depth + 1) t
    else if c = ')' then
      match depth with
      | 0 => some (inside.reverse, t)
      | depth + 1 => closingFrom (c :: inside) depth t
    else closingFrom (c :: inside) depth t

/-- The text up to the bracket that closes one open bracket, and the text behind it. -/
def closing (t : Text) : Option (Text × Text) :=
  closingFrom [] 0 t

/-- Read a text in brackets, in which brackets may nest. -/
def bracketed : Reader Text
  | '(' :: t =>
    match closing t with
    | some (inside, rest) => .ok (inside, rest)
    | none => .error (.unclosedBracket ('(' :: t))
  | _ => .error .noText

/-- Read a text in brackets if a bracket comes next. -/
def optionalBracketed : Reader (Option Text)
  | '(' :: t =>
    match bracketed ('(' :: t) with
    | .ok (inside, rest) => .ok (some inside, rest)
    | .error fault => .error fault
  | t => .ok (none, t)

/-! ## Numbers -/

/-- Read the digits of a number, as they are written. -/
def number : Reader Text
  | '$' :: t => .ok ('$' :: t.takeWhile Numeral.isHexDigit, t.dropWhile Numeral.isHexDigit)
  | t => .ok (t.takeWhile Numeral.isDecimalDigit, t.dropWhile Numeral.isDecimalDigit)

/-- Read an address: its digits as they are written, and its value. -/
def address : Reader (Text × UInt16) := fun t =>
  match number t with
  | .ok (digits, rest) =>
    match Numeral.address? digits with
    | some value => .ok ((digits, value), rest)
    | none => .error (.badAddress t)
  | .error fault => .error fault

/-! ## What readers in a row have read -/

/-- Two computations in a row give a value if the first gives one and the second gives that value. -/
theorem outcome_bind_eq_ok {x : Except ε α} {f : α → Except ε β} {b : β} :
    (x >>= f) = .ok b ↔ ∃ a, x = .ok a ∧ f a = .ok b := by
  cases x with
  | error e =>
    constructor
    · intro h
      cases h
    · rintro ⟨a, h, -⟩
      cases h
  | ok a =>
    constructor
    · intro h
      exact ⟨a, rfl, h⟩
    · rintro ⟨a', h, hf⟩
      cases h
      exact hf

/-- Two readers in a row give a value if the first gives one and the second, on what is left, gives
that value. -/
theorem bind_eq_ok {r : StateT Text (Except ε) α} {f : α → StateT Text (Except ε) β} {t rest : Text}
    {b : β} :
    (r >>= f) t = .ok (b, rest) ↔ ∃ a left, r t = .ok (a, left) ∧ f a left = .ok (b, rest) := by
  change (r t >>= fun p => f p.1 p.2) = _ ↔ _
  rw [outcome_bind_eq_ok, Prod.exists]

theorem mapFault_eq_ok {f : ε → ε'} {r : StateT Text (Except ε) α} {t : Text} {result : α × Text} :
    mapFault f r t = .ok result ↔ r t = .ok result := by
  unfold mapFault
  cases r t <;> simp

/-- The characters of a class are read up to the first that is not in it. -/
theorem readWhile_eq_ok {p : Char → Bool} {t read left : Text} :
    readWhile p t = .ok (read, left) ↔
      t = read ++ left ∧ (∀ c ∈ read, p c = true) ∧ ∀ c, left.head? = some c → p c = false := by
  constructor
  · intro h
    obtain ⟨rfl, rfl⟩ := Prod.mk.inj (Except.ok.inj h)
    refine ⟨List.takeWhile_append_dropWhile.symm, List.all_eq_true.1 List.all_takeWhile, ?_⟩
    intro c hc
    have hnot := List.head?_dropWhile_not p t
    rwa [hc] at hnot
  · rintro ⟨rfl, hread, hleft⟩
    rw [readWhile, List.takeWhile_append_of_pos hread, List.dropWhile_append_of_pos hread]
    cases left with
    | nil => simp
    | cons c left => simp [hleft c rfl]

/-- A character is accepted if it comes next; else nothing is read. -/
theorem accept_eq_ok {c : Char} {t left : Text} {found : Bool} :
    accept c t = .ok (found, left) ↔
      found = true ∧ t = c :: left ∨ found = false ∧ t.head? ≠ some c ∧ left = t := by
  cases t with
  | nil => simp [accept, eq_comm]
  | cons d t =>
    by_cases hd : d = c
    · subst hd
      simp [accept, eq_comm]
    · have hc : c ≠ d := fun h => hd h.symm
      simp [accept, hd, hc, eq_comm]

/-- A number is hexadecimal digits behind a dollar sign, or decimal digits. -/
theorem number_eq_ok {t digits rest : Text} :
    number t = .ok (digits, rest) ↔
      (∃ u v, t = '$' :: u ∧ digits = '$' :: v ∧ readWhile Numeral.isHexDigit u = .ok (v, rest)) ∨
        t.head? ≠ some '$' ∧ readWhile Numeral.isDecimalDigit t = .ok (digits, rest) := by
  constructor
  · intro h
    unfold number at h
    split at h
    · next u =>
      cases h
      exact .inl ⟨u, _, rfl, rfl, rfl⟩
    · next hdollar =>
      refine .inr ⟨fun hhead => ?_, h⟩
      obtain ⟨u, rfl⟩ := List.head?_eq_some_iff.1 hhead
      exact hdollar u rfl
  · rintro (⟨u, v, rfl, rfl, hread⟩ | ⟨hne, hread⟩)
    · cases hread
      rfl
    · unfold number
      split
      · exact absurd rfl hne
      · exact hread

/-- An address is read if its digits are read and write one. -/
theorem address_eq_ok {t written rest : Text} {value : UInt16} :
    address t = .ok ((written, value), rest) ↔
      number t = .ok (written, rest) ∧ Numeral.address? written = some value := by
  unfold address
  constructor
  · intro h
    split at h
    · next hnumber =>
      split at h
      · next hvalue =>
        cases h
        exact ⟨hnumber, hvalue⟩
      · cases h
    · cases h
  · rintro ⟨hnumber, hvalue⟩
    simp only [hnumber, hvalue]

/-! ## Readers advance -/

/-- A reader, whatever its faults are, advances if it leaves an end of the text that it was given. -/
def Advances (r : StateT Text (Except ε) α) : Prop :=
  ∀ ⦃t a rest⦄, r t = .ok (a, rest) → rest <:+ t

/-- What is left is no longer than the text. -/
theorem Advances.length_le {r : StateT Text (Except ε) α} (hr : Advances r) {t rest : Text} {a : α}
    (h : r t = .ok (a, rest)) : rest.length ≤ t.length :=
  (hr h).length_le

theorem advances_pure (a : α) : Advances (pure a : StateT Text (Except ε) α) := by
  intro t b rest h
  cases h
  exact List.suffix_refl t

theorem advances_throw (e : ε) : Advances (throw e : StateT Text (Except ε) α) := by
  intro t a rest h
  cases h

/-- Readers that leave an end of the text do so one after the other. -/
theorem advances_bind {r : StateT Text (Except ε) α} {f : α → StateT Text (Except ε) β} (hr : Advances r)
    (hf : ∀ a, Advances (f a)) : Advances (r >>= f) := by
  intro t b rest h
  change (r t >>= fun p => f p.1 p.2) = _ at h
  cases hrt : r t with
  | error e => rw [hrt] at h; cases h
  | ok p =>
    rw [hrt] at h
    exact (hf p.1 h).trans (hr hrt)

/-- A reader that stops with an error leaves nothing, whatever would come next. -/
theorem advances_throw_bind (e : ε) (f : α → StateT Text (Except ε) β) :
    Advances ((throw e : StateT Text (Except ε) α) >>= f) := by
  intro t b rest h
  cases h

/-- A test may choose between readers that leave an end of the text. -/
theorem advances_ite {c : Prop} [Decidable c] {r r' : StateT Text (Except ε) α} (hr : Advances r)
    (hr' : Advances r') : Advances (if c then r else r') := by
  split
  · exact hr
  · exact hr'

theorem advances_rest : Advances rest := by
  intro t a left h
  cases h
  exact List.suffix_refl t

/-- Other faults do not change what is left. -/
theorem advances_mapFault (f : ε → ε') {r : StateT Text (Except ε) α} (hr : Advances r) :
    Advances (mapFault f r) := by
  intro t a left h
  unfold mapFault at h
  split at h
  · next hrt => cases h; exact hr hrt
  · cases h

theorem advances_readWhile (p : Char → Bool) : Advances (readWhile p) := by
  intro t a left h
  cases h
  exact List.dropWhile_suffix p

/-- A character is taken off the front or left there. -/
theorem advances_accept (c : Char) : Advances (accept c) := by
  intro t a left h
  unfold accept at h
  split at h
  · cases h; exact List.suffix_refl _
  · split at h <;> cases h
    · exact List.suffix_cons _ _
    · exact List.suffix_refl _

/-- A text is what stands between the brackets, the bracket that closes and what is left. -/
theorem eq_of_closingFrom {before : Text} {depth : Nat} {t inside left : Text}
    (h : closingFrom before depth t = some (inside, left)) :
    before.reverse ++ t = inside ++ ')' :: left := by
  induction t generalizing before depth with
  | nil => cases h
  | cons c t ih =>
    have step {d : Nat} (h : closingFrom (c :: before) d t = some (inside, left)) :
        before.reverse ++ c :: t = inside ++ ')' :: left := by
      rw [← ih h]
      simp
    unfold closingFrom at h
    split at h
    · exact step h
    · split at h
      · next hc =>
        split at h
        · cases h
          rw [hc]
        · exact step h
      · exact step h

/-- **What is read up to a closing bracket, the bracket and what is left make up the text.** -/
theorem eq_of_closing {t inside left : Text} (h : closing t = some (inside, left)) :
    t = inside ++ ')' :: left :=
  eq_of_closingFrom h

/-- Behind the bracket that closes is an end of the text. -/
theorem advances_bracketed : Advances bracketed := by
  intro t a left h
  unfold bracketed at h
  split at h
  · next t' =>
    split at h
    · next inside rest hc =>
      cases h
      exact ⟨'(' :: (a ++ [')']), by simp [eq_of_closing hc]⟩
    · cases h
  · cases h

/-- Brackets that are missing leave all of the text. -/
theorem advances_optionalBracketed : Advances optionalBracketed := by
  intro t a left h
  unfold optionalBracketed at h
  split at h
  · split at h
    · next hb => cases h; exact advances_bracketed hb
    · cases h
  · cases h; exact List.suffix_refl _

theorem advances_number : Advances number := by
  intro t a left h
  unfold number at h
  split at h <;> cases h
  · exact (List.dropWhile_suffix _).trans (List.suffix_cons _ _)
  · exact List.dropWhile_suffix _

theorem advances_address : Advances address := by
  intro t a left h
  unfold address at h
  split at h
  · next hn =>
    split at h
    · cases h; exact advances_number hn
    · cases h
  · cases h

end Reader

end MemoryDoc
