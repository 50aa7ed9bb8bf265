/-
# Numerals

Numbers are written in decimal, or in hexadecimal after a dollar sign, and are below `2 ^ 32`.  A
single plus sign may stand before the digits.  Numbers are printed in decimal without leading
zeros.

Main statement: what is printed reads back (`parse?_decimal`).
-/
import MemoryDoc.Text.Basic

namespace MemoryDoc.Numeral

/-- The value of a hexadecimal digit, in either case. -/
def digitValue? (c : Char) : Option Nat :=
  if '0' ≤ c ∧ c ≤ '9' then some (c.toNat - '0'.toNat)
  else if 'a' ≤ c ∧ c ≤ 'f' then some (c.toNat - 'a'.toNat + 10)
  else if 'A' ≤ c ∧ c ≤ 'F' then some (c.toNat - 'A'.toNat + 10)
  else none

/-- A character that may be part of a decimal number. -/
def isDecimalDigit (c : Char) : Bool :=
  (digitValue? c).any (· < 10)

/-- A character that may be part of a hexadecimal number. -/
def isHexDigit (c : Char) : Bool :=
  (digitValue? c).isSome

/-- Numbers are below this. -/
def limit : Nat :=
  UInt32.size

/-- The value of `t` written after digits of value `n`, if it is below the limit. -/
def valueFrom? (base : Nat) : (n : Nat) → (t : Text) → Option Nat
  | n, [] => some n
  | n, c :: t =>
    match digitValue? c with
    | some d =>
      if d < base ∧ base * n + d < limit then valueFrom? base (base * n + d) t else none
    | none => none

/-- The digits of a number: the text without a single plus sign in front. -/
def digits : Text → Text
  | '+' :: t => t
  | t => t

/-- The number that `t` writes in the given base, if it is below the limit. -/
def unsigned? (base : Nat) (t : Text) : Option UInt32 :=
  if (digits t).isEmpty then none else (valueFrom? base 0 (digits t)).map Nat.toUInt32

/-- The number that `t` writes, in decimal or in hexadecimal after a dollar sign. -/
def parse? : Text → Option UInt32
  | '$' :: t => unsigned? 16 t
  | t => unsigned? 10 t

/-- The address that `t` writes. -/
def address? (t : Text) : Option UInt16 :=
  match parse? t with
  | some n => if n.toNat < UInt16.size then some n.toUInt16 else none
  | none => none

/-- The decimal digits of a number. -/
def decimal (n : Nat) : Text :=
  Nat.toDigits 10 n

/-! ## Printed numbers read back -/

theorem isDigit_of_mem_decimal {n : Nat} {c : Char} (h : c ∈ decimal n) : c.isDigit = true :=
  Nat.isDigit_of_mem_toDigits (by decide) (by decide) h

theorem decimal_ne_nil (n : Nat) : decimal n ≠ [] :=
  Nat.toDigits_ne_nil

theorem not_mem_decimal {c : Char} (h : c.isDigit = false) (n : Nat) : c ∉ decimal n := by
  intro hc
  rw [isDigit_of_mem_decimal hc] at h
  cases h

/-- A digit has a value that is told from its place among the digits. -/
theorem digitValue?_of_isDigit {c : Char} (h : c.isDigit = true) :
    digitValue? c = some (c.toNat - '0'.toNat) := by
  have hc : '0' ≤ c ∧ c ≤ '9' := by
    simpa [Char.isDigit, Char.le_def, UInt32.le_iff_toNat_le] using h
  simp [digitValue?, hc]

/-- Digits do not make a number smaller. -/
theorem le_ofDigitChars (t : Text) (n : Nat) : n ≤ Nat.ofDigitChars 10 t n := by
  induction t generalizing n with
  | nil => exact Nat.le_refl n
  | cons c t ih =>
    have := ih (10 * n + (c.toNat - '0'.toNat))
    have hstep : Nat.ofDigitChars 10 (c :: t) n
        = Nat.ofDigitChars 10 t (10 * n + (c.toNat - '0'.toNat)) := rfl
    omega

/-- Decimal digits are read as the number that they denote. -/
theorem valueFrom?_of_isDigit {t : Text} {n : Nat} (h : ∀ c ∈ t, c.isDigit = true)
    (hlimit : Nat.ofDigitChars 10 t n < limit) :
    valueFrom? 10 n t = some (Nat.ofDigitChars 10 t n) := by
  induction t generalizing n with
  | nil => rfl
  | cons c t ih =>
    have hc : c.isDigit = true := h c (by simp)
    have hlt : c.toNat - '0'.toNat < 10 := by
      simp only [Char.isDigit, Bool.and_eq_true, decide_eq_true_eq, ge_iff_le,
        UInt32.le_iff_toNat_le] at hc
      have h0 : '0'.toNat = 48 := rfl
      have : c.val.toNat = c.toNat := rfl
      have h9 : ('9' : Char).val.toNat = 57 := rfl
      omega
    have hstep : Nat.ofDigitChars 10 (c :: t) n
        = Nat.ofDigitChars 10 t (10 * n + (c.toNat - '0'.toNat)) := rfl
    have hle := le_ofDigitChars t (10 * n + (c.toNat - '0'.toNat))
    rw [hstep] at hlimit ⊢
    rw [valueFrom?, digitValue?_of_isDigit hc]
    simp only [hlt, Nat.lt_of_le_of_lt hle hlimit, and_self, if_true]
    exact ih (fun d hd => h d (by simp [hd])) hlimit

/-- A decimal number has no sign in front. -/
theorem digits_decimal (n : Nat) : digits (decimal n) = decimal n := by
  unfold digits
  split
  · next t h =>
    exact absurd (h ▸ List.mem_cons_self) (not_mem_decimal (c := '+') (by decide) n)
  · rfl

/-- The digits of a printed number are read as the number. -/
theorem valueFrom?_decimal (n : UInt32) : valueFrom? 10 0 (decimal n.toNat) = some n.toNat := by
  have hvalue : Nat.ofDigitChars 10 (decimal n.toNat) 0 = n.toNat := by
    simp [decimal, Nat.ofDigitChars_toDigits]
  have hlimit : Nat.ofDigitChars 10 (decimal n.toNat) 0 < limit := by
    rw [hvalue]
    exact n.toNat_lt
  rw [valueFrom?_of_isDigit (fun _ => isDigit_of_mem_decimal) hlimit, hvalue]

/-- **A printed number reads back.** -/
theorem parse?_decimal (n : UInt32) : parse? (decimal n.toNat) = some n := by
  have hplain : parse? (decimal n.toNat) = unsigned? 10 (decimal n.toNat) := by
    unfold parse?
    split
    · next t h =>
      exact absurd (h ▸ List.mem_cons_self) (not_mem_decimal (c := '$') (by decide) n.toNat)
    · rfl
  rw [hplain, unsigned?, digits_decimal, valueFrom?_decimal]
  simp [decimal_ne_nil]

end MemoryDoc.Numeral
