/-
# The notation of numbers

Numbers are written in decimal digits, or in hexadecimal digits behind a dollar sign, and so they are
read from the arguments of macros: digit by digit, up to the first character that is none.  Numbers in
brackets, delays and what is given on the command line come as a whole text instead, of which nobody
has looked at the characters before.  These texts are numbers also with a single plus sign in front of
the digits.

Main statements: which texts are numbers (`parse?_eq_some`), that those without a sign are exactly those
that are read from arguments in full (`writes_iff_number`), and what this means wherever a whole text is
given for a number (`numbers_givenAsText`).
-/
import MemoryDoc.CommandLine.Run
import MemoryDoc.Macro.PictureJob
import MemoryDoc.Macro.Wording
import MemoryDoc.Text.Digits

namespace MemoryDoc

namespace Numeral

/-! ## Texts that are numbers -/

/-- The text is digits in a base, and the number is their value. -/
structure DigitsOf (base : Nat) (t : Text) (n : UInt32) : Prop where
  ne_nil : t ≠ []
  digits : ∀ c ∈ t, isDigitOf base c = true
  value : valueFrom base 0 t = n.toNat

/-- The text writes the number but for a plus sign in front of the digits. -/
inductive Signed : (t : Text) → (n : UInt32) → Prop where
  | decimal {t : Text} {n : UInt32} (h : DigitsOf 10 t n) : Signed ('+' :: t) n
  | hexadecimal {t : Text} {n : UInt32} (h : DigitsOf 16 t n) : Signed ('$' :: '+' :: t) n

/-- The text is taken for the number. -/
def Accepts (t : Text) (n : UInt32) : Prop :=
  Writes t n ∨ Signed t n

variable {base : Nat} {t : Text} {n : UInt32} {a : UInt16}

/-- A plus sign is no digit. -/
theorem DigitsOf.plus_not_mem (h : DigitsOf base t n) : '+' ∉ t := by
  intro hmem
  have hplus : isDigitOf base '+' = true := h.digits '+' hmem
  cases hplus

/-- A number is digits in decimal, or in hexadecimal behind a dollar sign. -/
theorem writes_iff : Writes t n ↔ DigitsOf 10 t n ∨ ∃ u, t = '$' :: u ∧ DigitsOf 16 u n := by
  constructor
  · intro h
    cases h with
    | decimal hne hdigits hvalue => exact .inl ⟨hne, hdigits, hvalue⟩
    | hexadecimal hne hdigits hvalue =>
      simp only [← isDigitOf_sixteen] at hdigits
      exact .inr ⟨_, rfl, hne, hdigits, hvalue⟩
  · rintro (h | ⟨u, rfl, h⟩)
    · exact .decimal h.ne_nil h.digits h.value
    · apply Writes.hexadecimal h.ne_nil _ h.value
      intro c hc
      rw [← isDigitOf_sixteen]
      exact h.digits c hc

/-- A number is told by its digits, of which a plus sign is none. -/
theorem unsigned?_eq_some (hbase : 0 < base) : unsigned? base t = some n ↔ DigitsOf base (digits t) n := by
  constructor
  · intro h
    unfold unsigned? at h
    split at h
    · cases h
    · next hne =>
      obtain ⟨m, hm, rfl⟩ := Option.map_eq_some_iff.1 h
      obtain ⟨hdigits, hvalue, hlimit⟩ := (valueFrom?_eq_some hbase (by decide)).1 hm
      refine ⟨fun hnil => hne (List.isEmpty_iff.2 hnil), hdigits, ?_⟩
      rw [hvalue]
      exact (UInt32.toNat_ofNat_of_lt' hlimit).symm
  · intro h
    have hread := unsigned?_of_digits hbase h.ne_nil h.digits h.value
    rw [unsigned?, digits_of_forall h.digits] at hread
    rw [unsigned?]
    exact hread

/-- One plus sign may stand in front of digits. -/
theorem digitsOf_digits :
    DigitsOf base (digits t) n ↔ DigitsOf base t n ∨ ∃ u, t = '+' :: u ∧ DigitsOf base u n := by
  unfold digits
  split
  · next u =>
    -- The sign is gone, and with it the text would not be digits.
    constructor
    · intro h
      exact .inr ⟨u, rfl, h⟩
    · rintro (h | ⟨v, hv, h⟩)
      · exact absurd List.mem_cons_self h.plus_not_mem
      · cases hv
        exact h
  · next hplus =>
    constructor
    · exact .inl
    · rintro (h | ⟨u, rfl, -⟩)
      · exact h
      · exact absurd rfl (hplus u)

/-- **Which texts are numbers.** -/
theorem parse?_eq_some : parse? t = some n ↔ Accepts t n := by
  constructor
  · intro h
    unfold parse? at h
    -- A dollar sign makes the number hexadecimal, with or without a plus sign behind it.
    split at h
    · next u =>
      rw [unsigned?_eq_some (by decide), digitsOf_digits] at h
      rcases h with h | ⟨v, rfl, h⟩
      · exact .inl (writes_iff.2 (.inr ⟨u, rfl, h⟩))
      · exact .inr (.hexadecimal h)
    · rw [unsigned?_eq_some (by decide), digitsOf_digits] at h
      rcases h with h | ⟨u, rfl, h⟩
      · exact .inl (writes_iff.2 (.inl h))
      · exact .inr (.decimal h)
  · rintro (h | h)
    · exact parse?_of_writes h
    cases h with
    | @decimal u _ h =>
      show unsigned? 10 ('+' :: u) = some n
      rw [unsigned?_eq_some (by decide), digitsOf_digits]
      exact .inr ⟨u, rfl, h⟩
    | @hexadecimal u _ h =>
      show unsigned? 16 ('+' :: u) = some n
      rw [unsigned?_eq_some (by decide), digitsOf_digits]
      exact .inr ⟨u, rfl, h⟩

/-- A number with a sign has a plus sign. -/
theorem Signed.plus_mem (h : Signed t n) : '+' ∈ t := by
  cases h with
  | decimal => exact List.mem_cons_self
  | hexadecimal => exact List.mem_cons_of_mem _ List.mem_cons_self

/-- A number that is written without a sign has no plus sign. -/
theorem plus_not_mem_of_writes (h : Writes t n) : '+' ∉ t :=
  Written.not_mem_text ⟨t, n, h⟩ (by decide)

/-- **A text is a number exactly if it writes one, unless it is one with a sign.** -/
theorem parse?_iff_writes_iff : (∀ n, parse? t = some n ↔ Writes t n) ↔ ∀ n, ¬ Signed t n := by
  constructor
  · intro h n hsigned
    have hwrites : Writes t n := (h n).1 (parse?_eq_some.2 (.inr hsigned))
    exact plus_not_mem_of_writes hwrites hsigned.plus_mem
  · intro h n
    rw [parse?_eq_some]
    exact ⟨fun haccepts => haccepts.resolve_right (h n), .inl⟩

/-- A digit behind a plus sign writes no number, but is taken for one. -/
theorem parse?_plusSign : parse? "+1".toList = some 1 ∧ ¬ ∃ n, Writes "+1".toList n := by
  refine ⟨by decide, ?_⟩
  rintro ⟨n, h⟩
  exact plus_not_mem_of_writes h List.mem_cons_self

/-! ## Numbers that are read from arguments -/

/-- A number that is read off the front has no plus sign. -/
theorem plus_not_mem_of_number (h : Reader.number t = .ok (t, [])) : '+' ∉ t := by
  intro hmem
  rcases Reader.number_eq_ok.1 h with ⟨u, v, ht, ht', hread⟩ | ⟨-, hread⟩
  · cases ht.symm.trans ht'
    rw [ht] at hmem
    have hplus : isHexDigit '+' = true := by
      apply (Reader.readWhile_eq_ok.1 hread).2.1
      exact (List.mem_cons.1 hmem).resolve_left (by decide)
    cases hplus
  · have hplus : isDecimalDigit '+' = true := (Reader.readWhile_eq_ok.1 hread).2.1 '+' hmem
    cases hplus

/-- **The numbers that are written are those that are read from arguments in full.** -/
theorem writes_iff_number : Writes t n ↔ Reader.number t = .ok (t, []) ∧ parse? t = some n := by
  constructor
  · intro h
    refine ⟨?_, parse?_of_writes h⟩
    rw [Reader.number_eq_ok]
    cases h with
    | decimal hne hdigits hvalue =>
      refine .inr ⟨?_, Reader.readWhile_eq_ok.2 ⟨t.append_nil.symm, hdigits, nofun⟩⟩
      intro hdollar
      have hdigit : isDecimalDigit '$' = true := hdigits '$' (List.mem_of_head? hdollar)
      cases hdigit
    | @hexadecimal u _ hne hdigits hvalue =>
      exact .inl ⟨u, u, rfl, rfl, Reader.readWhile_eq_ok.2 ⟨u.append_nil.symm, hdigits, nofun⟩⟩
  · rintro ⟨hnumber, hparse⟩
    rcases parse?_eq_some.1 hparse with hwrites | hsigned
    · exact hwrites
    · exact absurd hsigned.plus_mem (plus_not_mem_of_number hnumber)

/-! ## Addresses -/

/-- The texts that are addresses are the numbers below 64K. -/
theorem address?_eq_some : address? t = some a ↔ Accepts t a.toUInt32 := by
  rw [← parse?_eq_some, address?]
  constructor
  · intro h
    split at h
    · next m hparse =>
      split at h
      · next hlt =>
        cases h
        rw [hparse]
        apply congrArg some
        apply UInt32.toNat_inj.1
        show m.toNat = m.toNat % 2 ^ 16
        exact (Nat.mod_eq_of_lt hlt).symm
      · cases h
    · cases h
  · intro h
    have hlt : a.toUInt32.toNat < UInt16.size := a.toNat_lt
    rw [h]
    show (if _ then some a.toUInt32.toUInt16 else none) = some a
    rw [if_pos hlt, UInt16.toUInt16_toUInt32]

end Numeral

open Numeral

/-! ## Texts given for numbers -/

namespace Wording

variable {t raw rest : Text} {n : UInt32}

/-- A number in brackets is any text that is one, without the blanks at its ends. -/
theorem numberText_bracketed {inside : Text} (h : Reader.bracketed ('(' :: t) = .ok (inside, rest)) :
    numberText ('(' :: t) = .ok (TableText.trimmed inside, rest) := by
  show (Reader.bracketed >>= fun inside => pure (TableText.trimmed inside)) ('(' :: t) = _
  exact Reader.bind_eq_ok.2 ⟨inside, rest, h, rfl⟩

/-- What is read as the number of a macro is one if its text is. -/
theorem numberArgument_eq_ok (h : numberText t = .ok (raw, rest)) :
    numberArgument t = .ok (some n, rest) ↔ Accepts raw n := by
  constructor
  · intro hok
    obtain ⟨raw', behind, htext, hok⟩ := Reader.bind_eq_ok.1 hok
    cases h.symm.trans htext
    split at hok
    · -- Nothing is not refused, but it is no number.
      cases hok
    · rw [← parse?_eq_some]
      cases hparse : parse? raw with
      | none =>
        rw [hparse] at hok
        cases hok
      | some m =>
        rw [hparse] at hok
        cases hok
        rfl
  · intro haccepts
    have hparse := parse?_eq_some.2 haccepts
    have hne : raw ≠ [] := by
      rintro rfl
      cases hparse
    refine Reader.bind_eq_ok.2 ⟨raw, rest, h, ?_⟩
    rw [if_neg hne, hparse]
    rfl

end Wording

/-- A delay is any text that is a number. -/
theorem PictureJob.cel_eq_ok {delay n : UInt32} {part name raw : Text}
    (h : Text.cutLast ',' part = some (name, raw)) :
    PictureJob.cel delay part = .ok (name, n) ↔ Accepts raw n := by
  rw [← parse?_eq_some]
  unfold PictureJob.cel
  rw [h]
  dsimp only
  cases parse? raw with
  | none => simp
  | some m => simp

namespace CommandLine

variable {a : UInt16}

/-- A setting that is given for the first time is kept if its value passes its check. -/
theorem Given.assign_eq {g : Given} {s : Setting} (value : Text) (h : g.value? s = none) :
    g.assign s value =
      (s.check value).map fun _ => { g with settings := g.settings ++ [(s, value)] } := by
  unfold Given.assign
  rw [h, Option.isSome_none, Bool.and_false]
  show (s.check value >>= fun _ => _) = _
  cases s.check value <;> rfl

/-- The last setting of a name is the one that counts. -/
theorem Given.value?_concat (g : Given) (s : Setting) (value : Text) :
    { g with settings := g.settings ++ [(s, value)] }.value? s = some value := by
  simp [Given.value?]

/-- The memory is loaded from an address that is given as any text that is a number below 64K. -/
theorem exists_assign_origin {g : Given} {value : Text} (h : g.value? .origin = none) :
    (∃ g', g.assign .origin value = .ok g' ∧ (Job.ofGiven g').origin = some a) ↔
      Accepts value a.toUInt32 := by
  rw [← address?_eq_some, Given.assign_eq value h, Setting.check]
  constructor
  · rintro ⟨g', hassign, horigin⟩
    split at hassign
    · cases hassign
      rw [Job.ofGiven, Given.value?_concat] at horigin
      exact horigin
    · cases hassign
  · intro haddress
    rw [if_pos (Option.isSome_of_eq_some haddress)]
    refine ⟨_, rfl, ?_⟩
    rw [Job.ofGiven, Given.value?_concat]
    exact haddress

/-- The address of an entry is any text before the label that is a number below 64K. -/
theorem exists_entryOf {spec : Text} :
    (∃ e, entryOf spec = .ok e ∧ e.address = a) ↔
      Accepts ((Text.cut '=' spec).getD (spec, [])).1 a.toUInt32 := by
  rw [← address?_eq_some]
  unfold entryOf
  generalize (Text.cut '=' spec).getD (spec, []) = parts
  obtain ⟨address, label⟩ := parts
  dsimp only
  cases address? address with
  | none =>
    constructor
    · rintro ⟨e, he, -⟩
      cases he
    · intro h
      cases h
  | some b =>
    constructor
    · rintro ⟨e, he, rfl⟩
      cases he
      rfl
    · intro h
      cases h
      exact ⟨_, rfl, rfl⟩

end CommandLine

open CommandLine in
/-- **Texts that are given for numbers.**  A text is a number if it writes one, or does so but for a plus
sign in front of the digits; the numbers that are written are those that are read from arguments in full,
and without a sign no others are taken.  The arguments of macros, delays, the address that the memory is
loaded from and the addresses of entries are exactly the texts that are numbers. -/
theorem numbers_givenAsText (t : Text) :
    (∀ n, parse? t = some n ↔ Accepts t n) ∧
    ((∀ n, parse? t = some n ↔ Writes t n) ↔ ∀ n, ¬ Signed t n) ∧
    (∀ n, Writes t n ↔ Reader.number t = .ok (t, []) ∧ parse? t = some n) ∧
    (∀ arguments rest n, Wording.numberText arguments = .ok (t, rest) →
      (Wording.numberArgument arguments = .ok (some n, rest) ↔ Accepts t n)) ∧
    (∀ delay part name n, Text.cutLast ',' part = some (name, t) →
      (PictureJob.cel delay part = .ok (name, n) ↔ Accepts t n)) ∧
    (∀ (g : Given) a, g.value? .origin = none →
      ((∃ g', g.assign .origin t = .ok g' ∧ (Job.ofGiven g').origin = some a) ↔
        Accepts t a.toUInt32)) ∧
    ∀ spec a, ((Text.cut '=' spec).getD (spec, [])).1 = t →
      ((∃ e, entryOf spec = .ok e ∧ e.address = a) ↔ Accepts t a.toUInt32) := by
  refine ⟨fun _ => parse?_eq_some, parse?_iff_writes_iff, fun _ => writes_iff_number, ?_, ?_, ?_, ?_⟩
  · intro arguments rest n h
    exact Wording.numberArgument_eq_ok h
  · intro delay part name n h
    exact PictureJob.cel_eq_ok h
  · intro g a h
    exact exists_assign_origin h
  · rintro spec a rfl
    exact exists_entryOf

/-- A character can be given with a plus sign in brackets. -/
theorem numbers_givenAsText_plusSign :
    Wording.numberArgument "(+65)".toList = .ok (some 65, []) := by
  obtain ⟨hnumbers, -, -, harguments, -⟩ := numbers_givenAsText "+65".toList
  have htext : Wording.numberText "(+65)".toList = .ok ("+65".toList, []) :=
    Wording.numberText_bracketed (t := "+65)".toList) rfl
  exact (harguments "(+65)".toList [] 65 htext).2 ((hnumbers 65).1 (by decide))

end MemoryDoc
