/-
# Addresses in macros

The address that a macro is given begins with a digit or a dollar sign, so it is no part of the
macro's name, and it ends where the digits do.

Main statements: an address is read up to the first character that is no digit (`address_append`),
and so is a printed one (`address_decimal`).
-/
import MemoryDoc.Macro.Marker
import MemoryDoc.Text.Reader

namespace MemoryDoc

/-- A decimal digit is no letter that names of macros are written with. -/
theorem Marker.isNameLetter_of_isDecimalDigit {c : Char} (h : Numeral.isDecimalDigit c = true) :
    Marker.isNameLetter c = false := by
  unfold Numeral.isDecimalDigit Numeral.digitValue? at h
  unfold Marker.isNameLetter
  simp only [Char.le_def, UInt32.le_iff_toNat_le] at h ⊢
  have hval : c.toNat = c.val.toNat := rfl
  split at h
  · next hdigit =>
    have h9 : ('9'.val).toNat = 57 := rfl
    have hA : ('A'.val).toNat = 65 := rfl
    rw [decide_eq_false (by omega), Bool.false_and]
  · split at h
    · rw [Option.any_some, decide_eq_true_eq] at h
      omega
    · split at h
      · rw [Option.any_some, decide_eq_true_eq] at h
        omega
      · cases h

namespace Numeral

/-- The digits that a decimal address has may stand in a hexadecimal one. -/
theorem isHexDigit_of_isDecimalDigit {c : Char} (h : isDecimalDigit c = true) :
    isHexDigit c = true := by
  unfold isDecimalDigit at h
  unfold isHexDigit
  cases hvalue : digitValue? c with
  | none =>
    rw [hvalue] at h
    cases h
  | some d => rfl

theorem isDecimalDigit_of_isDigit {c : Char} (h : c.isDigit = true) : isDecimalDigit c = true := by
  have hc : '0' ≤ c ∧ c ≤ '9' := by
    simpa [Char.isDigit, Char.le_def, UInt32.le_iff_toNat_le] using h
  have h9 : ('9'.val).toNat = 57 := rfl
  have h0 : '0'.toNat = 48 := rfl
  have hval : c.toNat = c.val.toNat := rfl
  rw [isDecimalDigit, digitValue?_of_isDigit h, Option.any_some, decide_eq_true_eq]
  have hle := hc.2
  rw [Char.le_def, UInt32.le_iff_toNat_le] at hle
  omega

/-- A printed address reads back. -/
theorem address?_decimal (address : UInt16) : address? (decimal address.toNat) = some address := by
  have hparse := parse?_decimal address.toUInt32
  rw [UInt16.toNat_toUInt32] at hparse
  rw [address?, hparse]
  simp only [UInt16.toNat_toUInt32]
  rw [if_pos address.toNat_lt]
  simp

end Numeral

/-- No digit follows. -/
def Text.EndsDigits (t : Text) : Prop :=
  ∀ c, t.head? = some c → Numeral.isHexDigit c = false

namespace Reader

/-- The characters of a class are read up to the first that is not in it. -/
theorem readWhile_append {p : Char → Bool} {read : Text} (h : ∀ c ∈ read, p c = true) {c : Char}
    (hc : p c = false) (rest : Text) :
    readWhile p (read ++ c :: rest) = .ok (read, c :: rest) := by
  refine readWhile_eq_ok.2 ⟨rfl, h, fun d hd => ?_⟩
  cases hd
  exact hc

/-- The digits of a number are read up to the first character that is no digit. -/
theorem number_append {digits rest : Text} (hdigits : digits ≠ [])
    (h : number digits = .ok (digits, [])) (hrest : rest.EndsDigits) :
    number (digits ++ rest) = .ok (digits, rest) := by
  rcases number_eq_ok.1 h with ⟨u, v, rfl, hu, hread⟩ | ⟨hdollar, hread⟩
  · cases hu
    obtain ⟨-, hhex, -⟩ := readWhile_eq_ok.1 hread
    exact number_eq_ok.2 (.inl ⟨_, u, rfl, rfl, readWhile_eq_ok.2 ⟨rfl, hhex, hrest⟩⟩)
  · obtain ⟨-, hdecimal, -⟩ := readWhile_eq_ok.1 hread
    refine number_eq_ok.2 (.inr ⟨?_, readWhile_eq_ok.2 ⟨rfl, hdecimal, fun c hc => ?_⟩⟩)
    · cases digits with
      | nil => exact absurd rfl hdigits
      | cons c digits => exact hdollar
    · cases hc' : Numeral.isDecimalDigit c with
      | false => rfl
      | true =>
        have hhex := Numeral.isHexDigit_of_isDecimalDigit hc'
        rw [hrest c hc] at hhex
        cases hhex

/-- No letter of names begins an address. -/
theorem takeWhile_of_address {written : Text} {address : UInt16}
    (h : Reader.address written = .ok ((written, address), [])) (rest : Text) :
    (written ++ rest).takeWhile Marker.isNameLetter = [] := by
  obtain ⟨hnumber, -⟩ := address_eq_ok.1 h
  rcases number_eq_ok.1 hnumber with ⟨u, v, rfl, -⟩ | ⟨-, hread⟩
  · rfl
  · obtain ⟨-, hdecimal, -⟩ := readWhile_eq_ok.1 hread
    cases written with
    | nil => cases h
    | cons c digits =>
      have hc := Marker.isNameLetter_of_isDecimalDigit (hdecimal c List.mem_cons_self)
      rw [List.cons_append, List.takeWhile_cons, hc, if_neg (by decide)]

/-- **An address is read up to the first character that is no digit.** -/
theorem address_append {written rest : Text} {address : UInt16}
    (h : Reader.address written = .ok ((written, address), [])) (hrest : rest.EndsDigits) :
    Reader.address (written ++ rest) = .ok ((written, address), rest) := by
  obtain ⟨hnumber, hvalue⟩ := address_eq_ok.1 h
  have hwritten : written ≠ [] := by
    rintro rfl
    cases hvalue
  exact address_eq_ok.2 ⟨number_append hwritten hnumber hrest, hvalue⟩

/-- **A printed address is read.** -/
theorem address_decimal (address : UInt16) :
    Reader.address (Numeral.decimal address.toNat) =
      .ok ((Numeral.decimal address.toNat, address), []) := by
  refine address_eq_ok.2 ⟨number_eq_ok.2 (.inr ⟨?_, ?_⟩), Numeral.address?_decimal address⟩
  · intro hhead
    exact Numeral.not_mem_decimal (by decide) _ (List.mem_of_head? hhead)
  · refine readWhile_eq_ok.2 ⟨(List.append_nil _).symm, fun c hc => ?_, nofun⟩
    exact Numeral.isDecimalDigit_of_isDigit (Numeral.isDigit_of_mem_decimal hc)

end Reader

end MemoryDoc
