/-
# Parts of address ranges

The parts of a range are looked up at fixed places of a list, in which those that are missing were
filled in before.

Main statement: no place is missing, and the addresses are those that the range writes
(`expand?_eq`).
-/
import MemoryDoc.Parameter.AddressRange
import MemoryDoc.Proofs.Bytewise.Scanner

namespace MemoryDoc.AddressRange

/-- The parts of a range with the last address and the distance in a row filled in. -/
def elements? (parts : List Int) : Option (List Int) := do
  let parts ← if parts.length < 2 then (do return parts ++ [← parts[0]?]) else some parts
  if parts.length < 3 then
    return parts ++ [1]
  else
    return parts

/-- The distance of two rows. -/
def down? (t : Text) (elements : List Int) (width : Nat) : ExceptT Fault Option Int := do
  if elements.length < 4 then
    let across ← (elements[2]? : Option Int)
    match inWord? (across * width) with
    | some down => return down
    | none => throw (.badRange t)
  else
    (elements[3]? : Option Int)

/-- The range of some parts. -/
def ofParts? (t : Text) (parts : List Int) (width copies : Nat) :
    ExceptT Fault Option AddressRange := do
  -- The fifth part and those behind it belong to the fourth, which is no number then.
  if 4 < parts.length then
    throw (.badRange t)
  let elements ← elements? parts
  let first ← (elements[0]? : Option Int)
  let last ← (elements[1]? : Option Int)
  let across ← (elements[2]? : Option Int)
  let down ← down? t elements width
  return { first, last, across, down, width, copies }

/-- The range that `t` writes for rows of `width` tiles. -/
def range? (t : Text) (width : Nat) : ExceptT Fault Option AddressRange := do
  let (range, copies) ←
    match Text.cut 'x' t with
    | some (range, copies) =>
      match Numeral.parse? copies with
      | some n => pure (range, n.toNat)
      | none => throw (.badRange t)
    | none => pure (t, 1)
  match parts? range with
  | none => throw (.badRange t)
  | some parts => ofParts? t parts width copies

/-- The addresses that `t` writes for rows of `width` tiles. -/
def expand? (t : Text) (width : UInt32) : ExceptT Fault Option (List UInt32) := do
  let r ← range? t (max width.toNat 1)
  match r.addresses with
  | .ok addresses => return addresses
  | .error .overflow => throw (.badRange t)
  | .error .tooLong => throw (.rangeTooLong t)

/-- A range has one part at least. -/
theorem ne_nil_of_parts? {t : Text} {parts : List Int} (h : parts? t = some parts) :
    parts ≠ [] := by
  unfold parts? at h
  obtain ⟨part, more, hsplit⟩ := List.exists_cons_of_ne_nil (List.splitOn_ne_nil '-' t)
  rw [hsplit, List.mapM_cons] at h
  rintro rfl
  cases hp : Numeral.parse? part with
  | none => simp [hp] at h
  | some n =>
    cases hm : more.mapM fun part => (Numeral.parse? part).map fun n => (n.toNat : Int) with
    | none => simp [hp, hm] at h
    | some parts => simp [hp, hm] at h

/-- The first and last address, the distance in a row and that of two rows, if it is given. -/
def shape (parts : List Int) : Option (Int × Int × Int × Option Int) :=
  match parts with
  | [a] => some (a, a, 1, none)
  | [a, b] => some (a, b, 1, none)
  | [a, b, h] => some (a, b, h, none)
  | [a, b, h, v] => some (a, b, h, some v)
  | _ => none

/-- The range of a shape. -/
def ofShape (width copies : Nat) : Int × Int × Int × Option Int → Option AddressRange
  | (first, last, across, down?) => do
    let down ←
      match down? with
      | some v => some v
      | none => inWord? (across * width)
    return { first, last, across, down, width, copies }

/-- A value, or the fault that a range does not have the form of one. -/
def orBadRange {α : Type} (t : Text) : Option α → Except Fault α
  | some a => .ok a
  | none => .error (.badRange t)

/-- With three parts, the step from row to row is a product that has to fit into a word. -/
theorem down?_three (t : Text) (a b c : Int) (width : Nat) :
    down? t [a, b, c] width = certain (orBadRange t (inWord? (c * width))) := by
  show (match inWord? (c * width) with
    | some down => _
    | none => _ : ExceptT Fault Option Int) = _
  cases inWord? (c * width) <;> rfl

/-- A range whose distance of rows is not given. -/
theorem ofParts?_three {parts : List Int} {a b c : Int} (hlen : ¬ 4 < parts.length)
    (h : elements? parts = some [a, b, c]) (hshape : shape parts = some (a, b, c, none)) (t : Text)
    (width copies : Nat) :
    ofParts? t parts width copies =
      certain (orBadRange t ((shape parts).bind (ofShape width copies))) := by
  unfold ofParts?
  rw [if_neg hlen, h, hshape]
  show down? t [a, b, c] width >>= _ = certain (orBadRange t ((inWord? (c * width)).bind _))
  rw [down?_three]
  cases inWord? (c * width) <;> rfl

/-- A range is made of its parts, and stops where one of its numbers does not fit. -/
theorem ofParts?_eq {parts : List Int} (h : parts ≠ []) (t : Text) (width copies : Nat) :
    ofParts? t parts width copies =
      certain (orBadRange t ((shape parts).bind (ofShape width copies))) := by
  rcases parts with _ | ⟨a, _ | ⟨b, _ | ⟨c, _ | ⟨d, _ | ⟨e, rest⟩⟩⟩⟩⟩
  · exact absurd rfl h
  · exact ofParts?_three (by simp) rfl rfl t width copies
  · exact ofParts?_three (by simp) rfl rfl t width copies
  · exact ofParts?_three (by simp) rfl rfl t width copies
  · rfl
  · unfold ofParts?
    rw [if_pos (by simp)]
    rfl

/-- The distance of two rows is not computed before the parts are known. -/
theorem parse?_eq (t : Text) (width : Nat) :
    parse? t width = (do
      let (range, copies) ←
        match Text.cut 'x' t with
        | some (range, copies) => (Numeral.parse? copies).map fun n => (range, n.toNat)
        | none => some (t, 1)
      (shape (← parts? range)).bind (ofShape width copies)) := by
  unfold parse?
  cases Text.cut 'x' t with
  | none =>
    show (parts? t).bind _ = (parts? t).bind _
    refine congrArg _ (funext fun parts => ?_)
    rcases parts with _ | ⟨a, _ | ⟨b, _ | ⟨c, _ | ⟨d, _ | ⟨e, rest⟩⟩⟩⟩⟩ <;> rfl
  | some p =>
    obtain ⟨range, raw⟩ := p
    show ((Numeral.parse? raw).map _).bind _ = ((Numeral.parse? raw).map _).bind _
    cases Numeral.parse? raw with
    | none => rfl
    | some n =>
      show (parts? range).bind _ = (parts? range).bind _
      refine congrArg _ (funext fun parts => ?_)
      rcases parts with _ | ⟨a, _ | ⟨b, _ | ⟨c, _ | ⟨d, _ | ⟨e, rest⟩⟩⟩⟩⟩ <;> rfl

/-- **A range is parsed with numbers that fit into words, or is a bad one.** -/
theorem range?_eq (t : Text) (width : Nat) :
    range? t width = certain (orBadRange t (parse? t width)) := by
  rw [parse?_eq, range?]
  have hread (range : Text) (copies : Nat) :
      (match parts? range with
        | none => throw (.badRange t)
        | some parts => ofParts? t parts width copies : ExceptT Fault Option AddressRange) =
        certain (orBadRange t
          ((parts? range).bind fun parts => (shape parts).bind (ofShape width copies))) := by
    cases hparts : parts? range with
    | none => rfl
    | some parts => exact ofParts?_eq (ne_nil_of_parts? hparts) t width copies
  cases Text.cut 'x' t with
  | none => exact hread t 1
  | some p =>
    obtain ⟨range, raw⟩ := p
    simp only
    cases Numeral.parse? raw with
    | none => rfl
    | some n => exact hread range n.toNat

/-- **The addresses of a range are found without a part that is missing.** -/
theorem expand?_eq (t : Text) (width : UInt32) : expand? t width = certain (expand t width) := by
  unfold expand? expand
  rw [range?_eq]
  cases parse? t (max width.toNat 1) with
  | none => rfl
  | some r =>
    show (match r.addresses with
      | .ok addresses => _
      | .error .overflow => _
      | .error .tooLong => _) = certain (match r.addresses with
      | .ok addresses => _
      | .error .overflow => _
      | .error .tooLong => _)
    cases r.addresses with
    | ok addresses => rfl
    | error e => cases e <;> rfl

end MemoryDoc.AddressRange
