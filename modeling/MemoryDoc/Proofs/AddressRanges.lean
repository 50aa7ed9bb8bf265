/-
# Closed form of address ranges

The addresses of a range are counted on by steps: from one address of a row to the next, and from the
last of a row to the first of the next.  So the address in each place has a closed form, and the
range ends in the first place in which the closed form has passed the last address.

Addresses need not go up: the step to the next row may lead back, or nowhere.  Still they are never
negative, and a step from an address that is not behind the last never leaves 64 bits.

Main statement: which texts write which addresses, and why the others write none
(`expand_closedForm`).
-/
import MemoryDoc.Proofs.Bytewise.Ranges
import MemoryDoc.Proofs.Certain
import MemoryDoc.Text.Digits
import Mathlib.Tactic.Ring

namespace MemoryDoc.AddressRange

/-! ## Places -/

/-- The address in place `k`, counted on beyond 64K. -/
def term (r : AddressRange) (k : Nat) : Int :=
  r.first + (k / r.width : Nat) * r.down + (k % r.width : Nat) * r.across

/-- The distance from the last address of a row to the first of the next. -/
def rowStep (r : AddressRange) : Int :=
  r.down - (r.width - 1 : Nat) * r.across

/-- The distance from the address in place `k` to the next. -/
def stepBehind (r : AddressRange) (k : Nat) : Int :=
  if (k + 1) % r.width ≠ 0 then r.across else r.rowStep

/-- The address in place `k`, taken round. -/
def addressAt (r : AddressRange) (k : Nat) : UInt32 :=
  (r.term k % 65536).toNat.toUInt32

/-- The range ends in front of place `m`: the address there is the first behind the last. -/
structure EndsAt (r : AddressRange) (m : Nat) : Prop where
  last_lt : r.last < r.term m
  le_last : ∀ k < m, r.term k ≤ r.last

/-- Counting comes to an address with `k` addresses before it. -/
inductive Visits (r : AddressRange) : (k : Nat) → (address : Int) → Prop where
  | first : Visits r 0 r.first
  | next {k : Nat} {address next : Int} (hvisits : Visits r k address) (hle : address ≤ r.last)
      (hk : k < maxTiles) (hnext : inWord? (address + r.stepBehind k) = some next) :
      Visits r (k + 1) next

/-- The numbers of a range that was written fit in words. -/
structure Small (r : AddressRange) : Prop where
  width_pos : 0 < r.width
  first_nonneg : 0 ≤ r.first
  last_lt : r.last < 2 ^ 32
  across_nonneg : 0 ≤ r.across
  across_lt : r.across < 2 ^ 32
  down_nonneg : 0 ≤ r.down
  rowStep_lt : r.rowStep < 2 ^ 32

/-- The number in a place, if there is one, and else another. -/
def numberAt (numbers : List UInt32) (k : Nat) (missing : Int) : Int :=
  (numbers[k]?.map fun n => (n.toNat : Int)).getD missing

/-- The range of some numbers: an address, then the last, the distance in a row, and that of two
rows.  Without the last there is only the first; neighbours are next to each other, and the rows
follow each other without a gap. -/
def ofNumbers (numbers : List UInt32) (width copies : Nat) : AddressRange :=
  let first := numberAt numbers 0 0
  let across := numberAt numbers 2 1
  { first
    last := numberAt numbers 1 first
    across
    down := numberAt numbers 3 (across * width)
    width
    copies }

/-- The text writes the numbers with dashes between them, and how many copies are taken: one, or as
many as the number behind an `x` says. -/
inductive Writes (numbers : List UInt32) : (t : Text) → (copies : Nat) → Prop where
  | once {parts : List Text} (hparts : parts.map Numeral.parse? = numbers.map some)
      (hne : parts ≠ []) (hlen : parts.length ≤ 4) : Writes numbers (Text.join "-" parts) 1
  | repeated {parts : List Text} {raw : Text} {n : UInt32}
      (hparts : parts.map Numeral.parse? = numbers.map some)
      (hne : parts ≠ []) (hlen : parts.length ≤ 4) (hraw : Numeral.parse? raw = some n) :
      Writes numbers (Text.join "-" parts ++ 'x' :: raw) n.toNat

/-- The text writes the range, and the distances of its rows fit in 64 bits. -/
def Written (t : Text) (width : Nat) (r : AddressRange) : Prop :=
  ∃ numbers copies, Writes numbers t copies ∧ r = ofNumbers numbers width copies ∧
    (numbers.length < 4 → r.across * width < 2 ^ 63) ∧ (width - 1 : Nat) * r.across < 2 ^ 63

/-- A number that fits into a word is kept. -/
theorem inWord?_eq_some {n : Int} (hge : -2 ^ 63 ≤ n) (hlt : n < 2 ^ 63) : inWord? n = some n :=
  if_pos ⟨hge, hlt⟩

/-- A range ends in one place only. -/
theorem EndsAt.unique {r : AddressRange} {m m' : Nat} (h : r.EndsAt m) (h' : r.EndsAt m') :
    m = m' := by
  rcases Nat.lt_trichotomy m m' with hlt | heq | hlt
  · have hle := h'.le_last m hlt
    have hgt := h.last_lt
    omega
  · exact heq
  · have hle := h.le_last m' hlt
    have hgt := h'.last_lt
    omega

variable {r : AddressRange}

theorem term_zero (r : AddressRange) : r.term 0 = r.first := by
  simp [term]

/-- **Each step leads to the address in the next place.** -/
theorem term_succ (hw : 0 < r.width) (k : Nat) : r.term (k + 1) = r.term k + r.stepBehind k := by
  have hk := Nat.div_add_mod k r.width
  have hnext := Nat.div_add_mod (k + 1) r.width
  have hlt := Nat.mod_lt k hw
  unfold term stepBehind
  by_cases hrow : (k + 1) % r.width = 0
  · -- The address in place `k` is the last of its row.
    have hdiv : (k + 1) / r.width = k / r.width + 1 :=
      Nat.succ_div_of_dvd (Nat.dvd_of_mod_eq_zero hrow)
    have hmod : k % r.width = r.width - 1 := by
      rw [hdiv, Nat.mul_succ] at hnext
      omega
    rw [if_neg (by simpa using hrow), hdiv, hrow, hmod, rowStep, Int.natCast_add]
    ring
  · have hdiv : (k + 1) / r.width = k / r.width :=
      Nat.succ_div_of_not_dvd fun hdvd => hrow (Nat.mod_eq_zero_of_dvd hdvd)
    have hmod : (k + 1) % r.width = k % r.width + 1 := by
      rw [hdiv] at hnext
      omega
    rw [if_pos hrow, hdiv, hmod, Int.natCast_add]
    ring

/-- No address of a range that is told in words of 32 bits is negative. -/
theorem Small.term_nonneg (hr : r.Small) (k : Nat) : 0 ≤ r.term k :=
  Int.add_nonneg
    (Int.add_nonneg hr.first_nonneg (Int.mul_nonneg (Int.natCast_nonneg _) hr.down_nonneg))
    (Int.mul_nonneg (Int.natCast_nonneg _) hr.across_nonneg)

/-- **A step from an address that is not behind the last stays in its word.** -/
theorem Small.inWord?_step (hr : r.Small) {k : Nat} (h : r.term k ≤ r.last) :
    inWord? (r.term k + r.stepBehind k) = some (r.term (k + 1)) := by
  have hstep : r.stepBehind k < 2 ^ 32 := by
    unfold stepBehind
    split
    · exact hr.across_lt
    · exact hr.rowStep_lt
  have hlast := hr.last_lt
  have hnonneg := hr.term_nonneg (k + 1)
  rw [term_succ hr.width_pos] at hnonneg ⊢
  exact inWord?_eq_some (by omega) (by omega)

/-! ## Counting on -/

/-- A walk that starts behind the last address has nothing to list. -/
theorem walk_of_lt {done : Nat} (h : r.last < r.term done) (left : Nat) :
    r.walk r.rowStep left done (r.term done) = .ok [] := by
  unfold walk
  exact if_neg (by omega)

/-- A walk that has used up its steps and is not at the end is too long. -/
theorem walk_zero {done : Nat} (h : r.term done ≤ r.last) :
    r.walk r.rowStep 0 done (r.term done) = .error .tooLong := by
  unfold walk
  exact if_pos h

/-- One step of counting. -/
theorem Small.walk_succ (hr : r.Small) {done : Nat} (h : r.term done ≤ r.last) (left : Nat) :
    r.walk r.rowStep (left + 1) done (r.term done) =
      (r.walk r.rowStep left (done + 1) (r.term (done + 1))).map (r.addressAt done :: ·) := by
  have hnext := hr.inWord?_step h
  unfold stepBehind at hnext
  rw [walk, if_pos h]
  simp only [hnext]
  cases r.walk r.rowStep left (done + 1) (r.term (done + 1)) <;> rfl

/-- **Counting either comes to the end of the range, or there are too many addresses.** -/
theorem Small.walk_cases (hr : r.Small) (left done : Nat)
    (hbefore : ∀ k < done, r.term k ≤ r.last) :
    (∃ m, r.EndsAt m ∧ done ≤ m ∧ m ≤ done + left ∧
      r.walk r.rowStep left done (r.term done) =
        .ok ((List.range' done (m - done)).map r.addressAt)) ∨
    ((∀ k ≤ done + left, r.term k ≤ r.last) ∧
      r.walk r.rowStep left done (r.term done) = .error .tooLong) := by
  -- On the number of steps that may still be taken: the walk ends with it or before it.
  induction left generalizing done with
  | zero =>
    by_cases h : r.term done ≤ r.last
    · refine .inr ⟨fun k hk => ?_, walk_zero h⟩
      rcases Nat.lt_or_eq_of_le hk with hlt | rfl
      · exact hbefore k hlt
      · exact h
    · refine .inl ⟨done, ⟨by omega, hbefore⟩, Nat.le_refl _, Nat.le_refl _, ?_⟩
      rw [walk_of_lt (by omega), Nat.sub_self]
      rfl
  | succ left ih =>
    by_cases h : r.term done ≤ r.last
    · have hupto : ∀ k < done + 1, r.term k ≤ r.last := by
        intro k hk
        rcases Nat.lt_succ_iff_lt_or_eq.1 hk with hlt | rfl
        · exact hbefore k hlt
        · exact h
      rw [hr.walk_succ h]
      rcases ih (done + 1) hupto with ⟨m, hm, hle, hlt, hwalk⟩ | ⟨hlong, hwalk⟩
      · refine .inl ⟨m, hm, by omega, by omega, ?_⟩
        rw [hwalk, show m - done = m - (done + 1) + 1 by omega, List.range'_succ]
        rfl
      · refine .inr ⟨fun k hk => hlong k (by omega), ?_⟩
        rw [hwalk]
        rfl
    · refine .inl ⟨done, ⟨by omega, hbefore⟩, Nat.le_refl _, by omega, ?_⟩
      rw [walk_of_lt (by omega), Nat.sub_self]
      rfl

/-- **Counting never leaves its word.** -/
theorem Small.walk_ne_overflow (hr : r.Small) :
    r.walk r.rowStep maxTiles 0 r.first ≠ .error .overflow := by
  rw [← term_zero r]
  rcases hr.walk_cases maxTiles 0 nofun with ⟨m, -, -, -, hwalk⟩ | ⟨-, hwalk⟩
  · rw [hwalk]
    nofun
  · rw [hwalk]
    nofun

/-- **Counting comes to the addresses of the closed form.** -/
theorem Visits.eq_term (hr : r.Small) {k : Nat} {address : Int} (h : r.Visits k address) :
    address = r.term k ∧ k ≤ maxTiles := by
  induction h with
  | first => exact ⟨(term_zero r).symm, Nat.zero_le _⟩
  | next _ hle hk hnext ih =>
    obtain ⟨rfl, -⟩ := ih
    rw [hr.inWord?_step hle] at hnext
    cases hnext
    exact ⟨rfl, hk⟩

/-- What is counted from the start is what was counted up to an address and what is counted on
from there. -/
theorem Visits.walk_eq (hr : r.Small) {k : Nat} {address : Int} (h : r.Visits k address) :
    r.walk r.rowStep maxTiles 0 r.first =
      (r.walk r.rowStep (maxTiles - k) k address).map ((List.range k).map r.addressAt ++ ·) := by
  induction h with
  | first =>
    rw [Nat.sub_zero]
    cases r.walk r.rowStep maxTiles 0 r.first <;> rfl
  | @next k address next hvisits hle hk hnext ih =>
    obtain ⟨rfl, -⟩ := hvisits.eq_term hr
    rw [hr.inWord?_step hle] at hnext
    cases hnext
    rw [ih, show maxTiles - k = maxTiles - (k + 1) + 1 by omega, hr.walk_succ hle]
    cases r.walk r.rowStep (maxTiles - (k + 1)) (k + 1) (r.term (k + 1)) with
    | error e => rfl
    | ok rest => simp [Except.map, List.range_succ]

/-! ## Written ranges -/

/-- What is computed of all may be changed one by one or at the end. -/
theorem mapM_map {α β γ : Type} (f : α → Option β) (g : β → γ) (as : List α) :
    (as.mapM fun a => (f a).map g) = (as.mapM f).map (List.map g) := by
  induction as with
  | nil => rfl
  | cons a as ih =>
    rw [List.mapM_cons, List.mapM_cons, ih]
    cases f a with
    | none => rfl
    | some b => cases as.mapM f <;> rfl

/-- The parts of a range are numbers of 32 bits, each of which can be read. -/
theorem parts?_eq_some {t : Text} {parts : List Int} :
    parts? t = some parts ↔
      ∃ numbers : List UInt32, (t.splitOn '-').map Numeral.parse? = numbers.map some ∧
        numbers.map (fun n => (n.toNat : Int)) = parts := by
  simp only [parts?, mapM_map, Option.map_eq_some_iff, mapM_eq_some]

section

variable {parts : List Text} {numbers : List UInt32}
  (hparts : parts.map Numeral.parse? = numbers.map some)

include hparts

/-- No part of a range has a character other than those of numbers. -/
theorem mem_of_parts {part : Text} (hpart : part ∈ parts) {c : Char} (hc : c ∈ part) :
    c = '$' ∨ c = '+' ∨ Numeral.isHexDigit c = true := by
  have hmem : Numeral.parse? part ∈ numbers.map some :=
    hparts ▸ List.mem_map_of_mem hpart
  obtain ⟨n, -, hn⟩ := List.mem_map.1 hmem
  exact Numeral.mem_of_parse? hn.symm hc

/-- No numeral has an `x` in it. -/
theorem not_mem_join : 'x' ∉ Text.join "-" parts := by
  intro hmem
  rcases Text.mem_join hmem with h | ⟨part, hpart, h⟩
  · exact absurd h (by decide)
  · exact absurd (mem_of_parts hparts hpart h) (by decide)

/-- No numeral has a dash in it. -/
theorem splitOn_join (hne : parts ≠ []) : (Text.join "-" parts).splitOn '-' = parts :=
  List.splitOn_intercalate '-'
    (fun _ hpart h => absurd (mem_of_parts hparts hpart h) (by decide)) hne

end

theorem inWord?_of_nonneg {n : Int} (hn : 0 ≤ n) :
    inWord? n = if n < 2 ^ 63 then some n else none := by
  unfold inWord?
  exact if_congr ⟨fun h => h.2, fun h => ⟨by omega, h⟩⟩ rfl rfl

/-- The distance of two rows that is not written is that of a row without gaps. -/
theorem ofShape_none {a b h : Int} (hh : 0 ≤ h) {width copies : Nat} {r : AddressRange} :
    ofShape width copies (a, b, h, none) = some r ↔
      r = ⟨a, b, h, h * width, width, copies⟩ ∧ r.across * width < 2 ^ 63 := by
  have hdown : 0 ≤ h * width := Int.mul_nonneg hh (Int.natCast_nonneg width)
  show (inWord? (h * width)).bind (fun down => some ⟨a, b, h, down, width, copies⟩) = some r ↔ _
  rw [inWord?_of_nonneg hdown]
  split
  · next hlt =>
    constructor
    · intro heq
      cases heq
      exact ⟨rfl, hlt⟩
    · rintro ⟨rfl, -⟩
      rfl
  · next hlt =>
    constructor
    · intro heq
      cases heq
    · rintro ⟨rfl, hfits⟩
      exact absurd hfits hlt

/-- The numbers of a range are those that were written. -/
theorem shape_bind_ofShape {numbers : List UInt32} {width copies : Nat} {r : AddressRange} :
    (shape (numbers.map fun n => (n.toNat : Int))).bind (ofShape width copies) = some r ↔
      numbers ≠ [] ∧ numbers.length ≤ 4 ∧ r = ofNumbers numbers width copies ∧
        (numbers.length < 4 → r.across * width < 2 ^ 63) := by
  -- Up to three numbers, the step from row to row is a product, which has to fit into a word.
  have hthree {a b h : Int} (hh : 0 ≤ h) (hne : numbers ≠ []) (hlen : numbers.length < 4)
      (hshape : shape (numbers.map fun n => (n.toNat : Int)) = some (a, b, h, none))
      (hnumbers : ofNumbers numbers width copies = ⟨a, b, h, h * width, width, copies⟩) :
      (shape (numbers.map fun n => (n.toNat : Int))).bind (ofShape width copies) = some r ↔
        numbers ≠ [] ∧ numbers.length ≤ 4 ∧ r = ofNumbers numbers width copies ∧
          (numbers.length < 4 → r.across * width < 2 ^ 63) := by
    rw [hshape, Option.bind_some, ofShape_none hh, hnumbers]
    exact ⟨fun ⟨hr, hfits⟩ => ⟨hne, Nat.le_of_lt hlen, hr, fun _ => hfits⟩,
      fun ⟨_, _, hr, hfits⟩ => ⟨hr, hfits hlen⟩⟩
  rcases numbers with _ | ⟨a, _ | ⟨b, _ | ⟨h, _ | ⟨v, _ | ⟨e, rest⟩⟩⟩⟩⟩
  · simp [shape]
  · exact hthree (a := a.toNat) (by decide) nofun (by simp) rfl rfl
  · exact hthree (a := a.toNat) (by decide) nofun (by simp) rfl rfl
  · exact hthree (a := a.toNat) (Int.natCast_nonneg h.toNat) nofun (by simp) rfl rfl
  · have hshape : shape ([a, b, h, v].map fun n => (n.toNat : Int)) =
        some ((a.toNat : Int), (b.toNat : Int), (h.toNat : Int), some (v.toNat : Int)) := rfl
    rw [hshape, Option.bind_some]
    constructor
    · intro heq
      cases heq
      exact ⟨nofun, Nat.le_refl 4, rfl, fun hlt => absurd hlt (Nat.lt_irrefl 4)⟩
    · rintro ⟨-, -, rfl, -⟩
      rfl
  · simp [shape]

/-- The range that the text in front of an `x` writes. -/
theorem parts?_bind_eq_some {t : Text} {width copies : Nat} {r : AddressRange} :
    ((parts? t).bind fun parts => (shape parts).bind (ofShape width copies)) = some r ↔
      ∃ (parts : List Text) (numbers : List UInt32), t = Text.join "-" parts ∧
        parts.map Numeral.parse? = numbers.map some ∧ parts ≠ [] ∧ parts.length ≤ 4 ∧
        r = ofNumbers numbers width copies ∧
        (numbers.length < 4 → r.across * width < 2 ^ 63) := by
  have hlength {parts : List Text} {numbers : List UInt32}
      (h : parts.map Numeral.parse? = numbers.map some) : parts.length = numbers.length := by
    simpa using congrArg List.length h
  rw [Option.bind_eq_some_iff]
  constructor
  · rintro ⟨ints, hints, h⟩
    obtain ⟨numbers, hnumbers, rfl⟩ := parts?_eq_some.1 hints
    obtain ⟨-, hlen, hr, hfits⟩ := shape_bind_ofShape.1 h
    exact ⟨t.splitOn '-', numbers, (List.intercalate_splitOn '-').symm, hnumbers,
      List.splitOn_ne_nil '-' t, hlength hnumbers ▸ hlen, hr, hfits⟩
  · rintro ⟨parts, numbers, rfl, hnumbers, hne, hlen, hr, hfits⟩
    rw [hlength hnumbers] at hlen
    have hsome : numbers ≠ [] := by
      rintro rfl
      exact hne (List.map_eq_nil_iff.1 hnumbers)
    refine ⟨_, parts?_eq_some.2 ⟨numbers, ?_, rfl⟩, shape_bind_ofShape.2 ⟨hsome, hlen, hr, hfits⟩⟩
    rw [splitOn_join hnumbers hne]
    exact hnumbers

/-- **Which texts write which ranges.** -/
theorem parse?_eq_some {t : Text} {width : Nat} {r : AddressRange} :
    parse? t width = some r ↔
      ∃ numbers copies, Writes numbers t copies ∧ r = ofNumbers numbers width copies ∧
        (numbers.length < 4 → r.across * width < 2 ^ 63) := by
  rw [parse?_eq]
  constructor
  · intro h
    -- Whether the range is repeated is told by an x, which no number has.
    cases hcut : Text.cut 'x' t with
    | none =>
      rw [hcut] at h
      obtain ⟨parts, numbers, rfl, hparts, hne, hlen, hr, hfits⟩ := parts?_bind_eq_some.1 h
      exact ⟨numbers, 1, .once hparts hne hlen, hr, hfits⟩
    | some p =>
      obtain ⟨range, raw⟩ := p
      rw [hcut] at h
      obtain ⟨⟨_, copies⟩, hcopies, h⟩ := Option.bind_eq_some_iff.1 h
      obtain ⟨n, hn, hpair⟩ := Option.map_eq_some_iff.1 hcopies
      cases hpair
      obtain ⟨parts, numbers, rfl, hparts, hne, hlen, hr, hfits⟩ := parts?_bind_eq_some.1 h
      rw [Text.cut_eq_some hcut]
      exact ⟨numbers, n.toNat, .repeated hparts hne hlen hn, hr, hfits⟩
  · rintro ⟨numbers, copies, hwrites, hr, hfits⟩
    cases hwrites with
    | once hparts hne hlen =>
      rw [Text.cut_of_not_mem (not_mem_join hparts)]
      exact parts?_bind_eq_some.2 ⟨_, numbers, rfl, hparts, hne, hlen, hr, hfits⟩
    | @repeated parts raw n hparts hne hlen hraw =>
      rw [Text.cut_append (not_mem_join hparts)]
      refine Option.bind_eq_some_iff.2 ⟨(Text.join "-" parts, n.toNat), ?_, ?_⟩
      · exact congrArg (Option.map _) hraw
      · exact parts?_bind_eq_some.2 ⟨parts, numbers, rfl, hparts, hne, hlen, hr, hfits⟩

/-! ## The addresses of written ranges -/

theorem numberAt_nonneg {numbers : List UInt32} {k : Nat} {missing : Int} (h : 0 ≤ missing) :
    0 ≤ numberAt numbers k missing := by
  unfold numberAt
  cases numbers[k]? with
  | none => exact h
  | some n => exact Int.natCast_nonneg _

theorem numberAt_lt {numbers : List UInt32} {k : Nat} {missing : Int} (h : missing < 2 ^ 32) :
    numberAt numbers k missing < 2 ^ 32 := by
  unfold numberAt
  cases numbers[k]? with
  | none => exact h
  | some n =>
    have hn := n.toNat_lt
    simp only [Option.map_some, Option.getD_some]
    omega

/-- The distance that is not written leads from one row to the next without a gap. -/
theorem rowStep_ofNumbers_lt {numbers : List UInt32} {width copies : Nat} (hwidth : 0 < width) :
    (ofNumbers numbers width copies).rowStep < 2 ^ 32 := by
  have hacross : 0 ≤ numberAt numbers 2 1 := numberAt_nonneg (by decide)
  have hlt : numberAt numbers 2 1 < 2 ^ 32 := numberAt_lt (by decide)
  show numberAt numbers 3 (numberAt numbers 2 1 * width) - (width - 1 : Nat) * numberAt numbers 2 1
    < 2 ^ 32
  cases hv : numbers[3]? with
  | none =>
    have hwritten : numberAt numbers 3 (numberAt numbers 2 1 * width) =
        numberAt numbers 2 1 * width := by
      rw [numberAt, hv]
      rfl
    obtain ⟨w, rfl⟩ : ∃ w, width = w + 1 := ⟨width - 1, by omega⟩
    -- Without a fourth number the rows follow each other without a gap.
    have hgap : numberAt numbers 2 1 * (w + 1 : Nat) - (w : Nat) * numberAt numbers 2 1 =
        numberAt numbers 2 1 := by
      rw [Int.natCast_add]
      ring
    rw [hwritten, Nat.add_sub_cancel, hgap]
    exact hlt
  | some v =>
    have hwritten : numberAt numbers 3 (numberAt numbers 2 1 * width) = v.toNat := by
      rw [numberAt, hv]
      rfl
    have hback : 0 ≤ ((width - 1 : Nat) : Int) * numberAt numbers 2 1 :=
      Int.mul_nonneg (Int.natCast_nonneg _) hacross
    have hv := v.toNat_lt
    rw [hwritten]
    omega

/-- The numbers that are written are those of words. -/
theorem small_ofNumbers {numbers : List UInt32} {width copies : Nat} (hwidth : 0 < width) :
    (ofNumbers numbers width copies).Small := by
  have hfirst : 0 ≤ numberAt numbers 0 0 := numberAt_nonneg (by decide)
  have hacross : 0 ≤ numberAt numbers 2 1 := numberAt_nonneg (by decide)
  have hdown : 0 ≤ numberAt numbers 2 1 * width :=
    Int.mul_nonneg hacross (Int.natCast_nonneg width)
  exact
    { width_pos := hwidth
      first_nonneg := hfirst
      last_lt := numberAt_lt (numberAt_lt (by decide))
      across_nonneg := hacross
      across_lt := numberAt_lt (by decide)
      down_nonneg := numberAt_nonneg hdown
      rowStep_lt := rowStep_ofNumbers_lt hwidth }

/-- The step from row to row is computed if the way back along a row fits into a word. -/
theorem Small.rowStep?_of_lt (hr : r.Small) (hfits : (r.width - 1 : Nat) * r.across < 2 ^ 63) :
    r.rowStep? = some r.rowStep := by
  have hback : 0 ≤ ((r.width - 1 : Nat) : Int) * r.across :=
    Int.mul_nonneg (Int.natCast_nonneg _) hr.across_nonneg
  have hdown := hr.down_nonneg
  have hlt := hr.rowStep_lt
  have hstep : r.rowStep = r.down - (r.width - 1 : Nat) * r.across := rfl
  show (inWord? _).bind (fun back => inWord? (r.down - back)) = _
  rw [inWord?_of_nonneg hback, if_pos hfits]
  exact inWord?_eq_some (n := r.rowStep) (by omega) (by omega)

theorem Small.rowStep?_of_not_lt (hr : r.Small)
    (hfits : ¬ (r.width - 1 : Nat) * r.across < 2 ^ 63) : r.rowStep? = none := by
  have hback : 0 ≤ ((r.width - 1 : Nat) : Int) * r.across :=
    Int.mul_nonneg (Int.natCast_nonneg _) hr.across_nonneg
  show (inWord? _).bind (fun back => inWord? (r.down - back)) = _
  rw [inWord?_of_nonneg hback, if_neg hfits]
  rfl

/-- A range that is repeated is listed once for each copy. -/
theorem repeated_eq (n : Nat) (once : List UInt32) :
    repeated n once = (List.replicate n once).flatten := by
  unfold repeated
  split
  · next h =>
    rw [List.isEmpty_iff.1 h]
    simp
  · rfl

/-- **A range comes to all its addresses or there are too many of them.** -/
theorem Small.addresses_cases (hr : r.Small)
    (hfits : (r.width - 1 : Nat) * r.across < 2 ^ 63) :
    (∃ m, r.EndsAt m ∧ m ≤ maxTiles ∧ m * r.copies ≤ maxTiles ∧
      r.addresses = .ok (List.replicate r.copies ((List.range m).map r.addressAt)).flatten) ∨
    ((∀ m, r.EndsAt m → m ≤ maxTiles → maxTiles < m * r.copies) ∧
      r.addresses = .error .tooLong) := by
  unfold addresses
  rw [hr.rowStep?_of_lt hfits, ← term_zero r]
  rcases hr.walk_cases maxTiles 0 nofun with ⟨m, hm, -, hle, hwalk⟩ | ⟨hlong, hwalk⟩
  · rw [Nat.zero_add] at hle
    simp only [hwalk, Nat.sub_zero, List.length_map, List.length_range']
    by_cases hcopies : m * r.copies ≤ maxTiles
    · refine .inl ⟨m, hm, hle, hcopies, ?_⟩
      rw [if_pos hcopies, repeated_eq, List.range_eq_range']
    · refine .inr ⟨fun m' hm' _ => ?_, if_neg hcopies⟩
      rw [hm'.unique hm]
      exact Nat.lt_of_not_le hcopies
  · refine .inr ⟨fun m hm hle => ?_, by simp only [hwalk]⟩
    have hlast := hlong m (by omega)
    have hlt := hm.last_lt
    omega

section

variable {t : Text} {width : UInt32}

theorem max_one_pos (width : UInt32) : 0 < max width.toNat 1 := by
  omega

/-- A text that a range is written as is parsed to it. -/
theorem Written.parse?_eq (h : Written t (max width.toNat 1) r) :
    parse? t (max width.toNat 1) = some r := by
  obtain ⟨numbers, copies, hwrites, hr, hfits, -⟩ := h
  exact parse?_eq_some.2 ⟨numbers, copies, hwrites, hr, hfits⟩

/-- The numbers of a range that is written are those of 32 bits. -/
theorem Written.small (h : Written t (max width.toNat 1) r) : r.Small := by
  obtain ⟨numbers, copies, -, rfl, -, -⟩ := h
  exact small_ofNumbers (max_one_pos width)

/-- The way back along a row of a range that is written fits into a word. -/
theorem Written.back_lt (h : Written t (max width.toNat 1) r) :
    (r.width - 1 : Nat) * r.across < 2 ^ 63 := by
  obtain ⟨numbers, copies, -, rfl, -, hback⟩ := h
  exact hback

/-- A text is written for one range only. -/
theorem Written.unique {r' : AddressRange} (h : Written t (max width.toNat 1) r)
    (h' : Written t (max width.toNat 1) r') : r = r' :=
  Option.some.inj (h.parse?_eq.symm.trans h'.parse?_eq)

/-- A range that is written is listed up to its end, unless that is too long. -/
theorem Written.expand_cases (h : Written t (max width.toNat 1) r) :
    (∃ m, r.EndsAt m ∧ m ≤ maxTiles ∧ m * r.copies ≤ maxTiles ∧
      expand t width =
        .ok (List.replicate r.copies ((List.range m).map r.addressAt)).flatten) ∨
    ((∀ m, r.EndsAt m → m ≤ maxTiles → maxTiles < m * r.copies) ∧
      expand t width = .error (.rangeTooLong t)) := by
  unfold expand
  rw [h.parse?_eq]
  rcases h.small.addresses_cases h.back_lt with ⟨m, hm, hle, hcopies, heq⟩ | ⟨hlong, heq⟩
  · exact .inl ⟨m, hm, hle, hcopies, by simp only [heq]⟩
  · exact .inr ⟨hlong, by simp only [heq]⟩

/-- A text that does not write a range has no addresses, and neither has a range whose distances
leave their words. -/
theorem expand_of_not_written (h : ¬ ∃ r, Written t (max width.toNat 1) r) :
    expand t width = .error (.badRange t) := by
  unfold expand
  cases hparse : parse? t (max width.toNat 1) with
  | none => rfl
  | some r =>
    obtain ⟨numbers, copies, hwrites, rfl, hfits⟩ := parse?_eq_some.1 hparse
    have hsmall : (ofNumbers numbers (max width.toNat 1) copies).Small :=
      small_ofNumbers (max_one_pos width)
    have hstep := hsmall.rowStep?_of_not_lt
      fun hback => h ⟨_, numbers, copies, hwrites, rfl, hfits, hback⟩
    have hnone : (ofNumbers numbers (max width.toNat 1) copies).addresses = .error .overflow := by
      rw [addresses, hstep]
    simp only [hnone]

/-- **A text gives addresses if a range is written there that is not too long.** -/
theorem expand_eq_ok {l : List UInt32} :
    expand t width = .ok l ↔ ∃ r, Written t (max width.toNat 1) r ∧
      ∃ m, r.EndsAt m ∧ m ≤ maxTiles ∧ m * r.copies ≤ maxTiles ∧
        l = (List.replicate r.copies ((List.range m).map r.addressAt)).flatten := by
  constructor
  · intro hl
    by_cases hwritten : ∃ r, Written t (max width.toNat 1) r
    · obtain ⟨r, hr⟩ := hwritten
      rcases hr.expand_cases with ⟨m, hm, hle, hcopies, heq⟩ | ⟨-, heq⟩
      · rw [heq] at hl
        cases hl
        exact ⟨r, hr, m, hm, hle, hcopies, rfl⟩
      · rw [heq] at hl
        cases hl
    · rw [expand_of_not_written hwritten] at hl
      cases hl
  · rintro ⟨r, hr, m, hm, hle, hcopies, rfl⟩
    rcases hr.expand_cases with ⟨m', hm', -, -, heq⟩ | ⟨hlong, -⟩
    · rw [heq, hm'.unique hm]
    · exact absurd hcopies (Nat.not_le_of_lt (hlong m hm hle))

/-- **A text gives no addresses if no range is written there, or one that is too long.** -/
theorem expand_eq_error {e : Fault} :
    expand t width = .error e ↔
      (e = .badRange t ∧ ¬ ∃ r, Written t (max width.toNat 1) r) ∨
      (e = .rangeTooLong t ∧ ∃ r, Written t (max width.toNat 1) r ∧
        ∀ m, r.EndsAt m → m ≤ maxTiles → maxTiles < m * r.copies) := by
  constructor
  · intro he
    by_cases hwritten : ∃ r, Written t (max width.toNat 1) r
    · obtain ⟨r, hr⟩ := hwritten
      rcases hr.expand_cases with ⟨m, -, -, -, heq⟩ | ⟨hlong, heq⟩
      · rw [heq] at he
        cases he
      · rw [heq] at he
        cases he
        exact .inr ⟨rfl, r, hr, hlong⟩
    · rw [expand_of_not_written hwritten] at he
      cases he
      exact .inl ⟨rfl, hwritten⟩
  · rintro (⟨rfl, hwritten⟩ | ⟨rfl, r, hr, hlong⟩)
    · exact expand_of_not_written hwritten
    · rcases hr.expand_cases with ⟨m, hm, hle, hcopies, -⟩ | ⟨-, heq⟩
      · exact absurd hcopies (Nat.not_le_of_lt (hlong m hm hle))
      · exact heq

end

/-- **The addresses of a text are those of the closed form, or there are none.**  The text writes a
range whose distances fit, or it is refused.  Counting through the range never comes to a negative
address and never leaves its word; it comes to all the addresses up to the last, as often as the
copies say, or it is given up because there are too many. -/
theorem expand_closedForm (t : Text) (width : UInt32) :
    (∀ l, expand t width = .ok l ↔ ∃ r, Written t (max width.toNat 1) r ∧
      ∃ m, r.EndsAt m ∧ m ≤ maxTiles ∧ m * r.copies ≤ maxTiles ∧
        l = (List.replicate r.copies ((List.range m).map r.addressAt)).flatten) ∧
    (∀ e, expand t width = .error e ↔
      (e = .badRange t ∧ ¬ ∃ r, Written t (max width.toNat 1) r) ∨
      (e = .rangeTooLong t ∧ ∃ r, Written t (max width.toNat 1) r ∧
        ∀ m, r.EndsAt m → m ≤ maxTiles → maxTiles < m * r.copies)) ∧
    ∀ r, Written t (max width.toNat 1) r →
      r.rowStep? = some r.rowStep ∧
      r.walk r.rowStep maxTiles 0 r.first ≠ .error .overflow ∧
      ∀ k address, r.Visits k address →
        k ≤ maxTiles ∧ address = r.term k ∧ 0 ≤ address ∧
        (address ≤ r.last → inWord? (address + r.stepBehind k) = some (r.term (k + 1))) ∧
        r.walk r.rowStep maxTiles 0 r.first =
          (r.walk r.rowStep (maxTiles - k) k address).map
            ((List.range k).map r.addressAt ++ ·) := by
  refine ⟨fun _ => expand_eq_ok, fun _ => expand_eq_error, fun r hr =>
    ⟨hr.small.rowStep?_of_lt hr.back_lt, hr.small.walk_ne_overflow, ?_⟩⟩
  intro k address h
  obtain ⟨rfl, hk⟩ := h.eq_term hr.small
  exact ⟨hk, rfl, hr.small.term_nonneg k, fun hle => hr.small.inWord?_step hle,
    h.walk_eq hr.small⟩

/-- A distance of rows that is smaller than that within a row leads back. -/
example : expand "5-9-3-$01x2" 2 = .ok [5, 8, 6, 9, 7, 5, 8, 6, 9, 7] := by
  decide +kernel

end MemoryDoc.AddressRange
