/-
# Digits and their value

Digits are read one by one, and the number is given up as soon as it is not below the limit.  What
they come to is the value of the digits, if that is below the limit.

Main statements: when digits are read and as what (`valueFrom?_eq_some`), that numbers are read that
are written in decimal digits, or in hexadecimal digits after a dollar sign (`parse?_of_writes`), and
that numbers are written so when they are printed (`writes_decimal`).
-/
import MemoryDoc.Text.Numeral

namespace MemoryDoc.Numeral

/-- The character is a digit of numbers in the given base. -/
def isDigitOf (base : Nat) (c : Char) : Bool :=
  (digitValue? c).any (· < base)

/-- The value of digits that are written behind digits of value `n`. -/
def valueFrom (base : Nat) (n : Nat) (t : Text) : Nat :=
  t.foldl (fun n c => base * n + (digitValue? c).getD 0) n

/-- The text writes the number: in decimal digits, or in hexadecimal digits after a dollar sign. -/
inductive Writes : (t : Text) → (n : UInt32) → Prop where
  | decimal {t : Text} {n : UInt32} (hne : t ≠ []) (hdigits : ∀ c ∈ t, isDecimalDigit c = true)
      (hvalue : valueFrom 10 0 t = n.toNat) : Writes t n
  | hexadecimal {t : Text} {n : UInt32} (hne : t ≠ []) (hdigits : ∀ c ∈ t, isHexDigit c = true)
      (hvalue : valueFrom 16 0 t = n.toNat) : Writes ('$' :: t) n

/-- A number as it is written. -/
structure Written where
  text : Text
  number : UInt32
  writes : Writes text number

variable {base n m : Nat} {t : Text} {c : Char}

/-- The digits are characters of ASCII, and sixteen is the greatest base. -/
theorem bounds_of_digitValue? {d : Nat} (h : digitValue? c = some d) : d < 16 ∧ c.toNat < 128 := by
  unfold digitValue? at h
  simp only [Char.le_def, UInt32.le_iff_toNat_le] at h
  have hval : c.toNat = c.val.toNat := rfl
  have h0 : '0'.toNat = 48 := rfl
  have h9 : ('9'.val).toNat = 57 := rfl
  have ha : 'a'.toNat = 97 := rfl
  have hf : ('f'.val).toNat = 102 := rfl
  have hA : 'A'.toNat = 65 := rfl
  have hF : ('F'.val).toNat = 70 := rfl
  split at h
  · cases h
    omega
  · split at h
    · cases h
      omega
    · split at h
      · cases h
        omega
      · cases h

/-- A hexadecimal digit is an ASCII character. -/
theorem toNat_lt_of_isHexDigit (h : isHexDigit c = true) : c.toNat < 128 := by
  obtain ⟨d, hd⟩ := Option.isSome_iff_exists.1 h
  exact (bounds_of_digitValue? hd).2

theorem isDigitOf_sixteen : isDigitOf 16 c = isHexDigit c := by
  unfold isDigitOf isHexDigit
  cases h : digitValue? c with
  | none => rfl
  | some d => exact decide_eq_true (bounds_of_digitValue? h).1

/-- The digits of every base are hexadecimal ones. -/
theorem isHexDigit_of_isDigitOf (h : isDigitOf base c = true) : isHexDigit c = true := by
  unfold isDigitOf at h
  unfold isHexDigit
  cases hvalue : digitValue? c with
  | none =>
    rw [hvalue] at h
    cases h
  | some d => rfl

theorem valueFrom_cons : valueFrom base n (c :: t) =
    valueFrom base (base * n + (digitValue? c).getD 0) t :=
  rfl

/-- Digits do not make a number smaller. -/
theorem le_valueFrom (hbase : 0 < base) (n : Nat) (t : Text) : n ≤ valueFrom base n t := by
  induction t generalizing n with
  | nil => exact Nat.le_refl n
  | cons c t ih =>
    have hstep : n ≤ base * n + (digitValue? c).getD 0 :=
      Nat.le_trans (Nat.le_mul_of_pos_left n hbase) (Nat.le_add_right _ _)
    exact Nat.le_trans hstep (ih _)

/-- **Digits are read as their value, if that is below the limit.** -/
theorem valueFrom?_eq_some (hbase : 0 < base) (hn : n < limit) :
    valueFrom? base n t = some m ↔
      (∀ c ∈ t, isDigitOf base c = true) ∧ valueFrom base n t = m ∧ m < limit := by
  induction t generalizing n with
  | nil =>
    constructor
    · intro h
      cases h
      exact ⟨nofun, rfl, hn⟩
    · rintro ⟨-, rfl, -⟩
      rfl
  | cons c t ih =>
    rw [List.forall_mem_cons, valueFrom_cons, valueFrom?, isDigitOf]
    cases digitValue? c with
    | none => simp
    | some d =>
      simp only [Option.any_some, decide_eq_true_eq, Option.getD_some]
      by_cases hd : d < base ∧ base * n + d < limit
      · rw [if_pos hd, ih hd.2]
        simp [hd.1]
      · rw [if_neg hd]
        constructor
        · intro h
          cases h
        · rintro ⟨⟨hlt, -⟩, rfl, hlimit⟩
          -- The number is not below the limit here, and the digits behind do not make it smaller.
          exact absurd ⟨hlt, Nat.lt_of_le_of_lt (le_valueFrom hbase _ t) hlimit⟩ hd

/-- A text of digits has no sign in front. -/
theorem digits_of_forall (h : ∀ c ∈ t, isDigitOf base c = true) : digits t = t := by
  unfold digits
  split
  · next t =>
    have hplus : isDigitOf base '+' = true := h '+' List.mem_cons_self
    cases hplus
  · rfl

/-- A text of digits is read as its number. -/
theorem unsigned?_of_digits {n : UInt32} (hbase : 0 < base) (hne : t ≠ [])
    (hdigits : ∀ c ∈ t, isDigitOf base c = true) (hvalue : valueFrom base 0 t = n.toNat) :
    unsigned? base t = some n := by
  have hread : valueFrom? base 0 t = some n.toNat :=
    (valueFrom?_eq_some hbase (by decide)).2 ⟨hdigits, hvalue, n.toNat_lt⟩
  rw [unsigned?, digits_of_forall hdigits, hread, if_neg (by simpa using hne)]
  exact congrArg some UInt32.ofNat_toNat

/-- **A number is read as it is written.** -/
theorem parse?_of_writes {n : UInt32} (h : Writes t n) : parse? t = some n := by
  cases h with
  | decimal hne hdigits hvalue =>
    have hplain : parse? t = unsigned? 10 t := by
      unfold parse?
      split
      · next t =>
        have hdollar : isDecimalDigit '$' = true := hdigits '$' List.mem_cons_self
        cases hdollar
      · rfl
    rw [hplain]
    exact unsigned?_of_digits (by decide) hne hdigits hvalue
  | hexadecimal hne hdigits hvalue =>
    simp only [← isDigitOf_sixteen] at hdigits
    exact unsigned?_of_digits (by decide) hne hdigits hvalue

/-- **A number that is printed is written.** -/
theorem writes_decimal (n : UInt32) : Writes (decimal n.toNat) n := by
  obtain ⟨hdigits, hvalue, -⟩ :=
    (valueFrom?_eq_some (by decide) (by decide)).1 (valueFrom?_decimal n)
  exact .decimal (decimal_ne_nil _) hdigits hvalue

theorem Written.text_ne_nil (n : Written) : n.text ≠ [] := by
  obtain ⟨t, n, hwrites⟩ := n
  cases hwrites with
  | decimal hne => exact hne
  | hexadecimal => nofun

/-- A number is written with a dollar sign and digits. -/
theorem Written.mem_text (n : Written) (hc : c ∈ n.text) : c = '$' ∨ isHexDigit c = true := by
  obtain ⟨t, n, hwrites⟩ := n
  cases hwrites with
  | decimal _ hdigits => exact .inr (isHexDigit_of_isDigitOf (hdigits c hc))
  | hexadecimal _ hdigits =>
    rcases List.mem_cons.1 hc with rfl | hc
    · exact .inl rfl
    · exact .inr (hdigits c hc)

theorem Written.not_mem_text (n : Written) (h : ¬ (c = '$' ∨ isHexDigit c = true)) : c ∉ n.text :=
  fun hc => h (n.mem_text hc)

/-- A text that is read as a number has digits and perhaps a plus sign. -/
theorem mem_of_unsigned? {n : UInt32} (hbase : 0 < base) (h : unsigned? base t = some n)
    (hc : c ∈ t) : c = '+' ∨ isHexDigit c = true := by
  unfold unsigned? at h
  split at h
  · cases h
  · obtain ⟨m, hm, -⟩ := Option.map_eq_some_iff.1 h
    obtain ⟨hdigits, -⟩ := (valueFrom?_eq_some hbase (by decide)).1 hm
    have hmem : c = '+' ∨ c ∈ digits t := by
      unfold digits
      split
      · exact List.mem_cons.1 hc
      · exact .inr hc
    rcases hmem with hplus | hmem
    · exact .inl hplus
    · exact .inr (isHexDigit_of_isDigitOf (hdigits c hmem))

/-- A number is written with a dollar sign, a plus sign and digits. -/
theorem mem_of_parse? {n : UInt32} (h : parse? t = some n) (hc : c ∈ t) :
    c = '$' ∨ c = '+' ∨ isHexDigit c = true := by
  unfold parse? at h
  split at h
  · rcases List.mem_cons.1 hc with rfl | hc
    · exact .inl rfl
    · exact .inr (mem_of_unsigned? (by decide) h hc)
  · exact .inr (mem_of_unsigned? (by decide) h hc)

end MemoryDoc.Numeral
