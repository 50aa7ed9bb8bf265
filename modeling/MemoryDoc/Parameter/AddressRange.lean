/-
# Address ranges

A range of addresses is written `first`, or `first-last`, and may go on with the distance of two
addresses in a row of the picture and the distance of two rows.  A range is repeated as often as
the number behind an `x` says.

Addresses of a range are counted on beyond 64K and only then taken round.  All distances are kept
within 64 bits, and a range never has more addresses than a picture may have tiles.
-/
import MemoryDoc.Text.Numeral
import MemoryDoc.Fault

namespace MemoryDoc

/-- A range of addresses for a picture whose rows are `width` tiles wide. -/
structure AddressRange where
  first : Int
  last : Int
  /-- The distance of two addresses in a row. -/
  across : Int
  /-- The distance of two rows. -/
  down : Int
  width : Nat
  copies : Nat
deriving DecidableEq, Repr

namespace AddressRange

/-- The most addresses that a range may come to. -/
def maxTiles : Nat := 65536

/-- The number, if it fits in 64 bits with a sign. -/
def inWord? (n : Int) : Option Int :=
  if -0x8000000000000000 ≤ n ∧ n < 0x8000000000000000 then some n else none

/-- The parts of a range that are written between dashes. -/
def parts? (t : Text) : Option (List Int) :=
  (t.splitOn '-').mapM fun part => (Numeral.parse? part).map fun n => (n.toNat : Int)

/-- The range that `t` writes for rows of `width` tiles. -/
def parse? (t : Text) (width : Nat) : Option AddressRange := do
  let (range, copies) ←
    match Text.cut 'x' t with
    | some (range, copies) => (Numeral.parse? copies).map fun n => (range, n.toNat)
    | none => some (t, 1)
  let (first, last, across, down?) ←
    match ← parts? range with
    | [a] => some (a, a, 1, none)
    | [a, b] => some (a, b, 1, none)
    | [a, b, h] => some (a, b, h, none)
    | [a, b, h, v] => some (a, b, h, some v)
    | _ => none
  let down ←
    match down? with
    | some v => some v
    | none => inWord? (across * width)
  return { first, last, across, down, width, copies }

/-- The distance from the last address of a row to the first of the next. -/
def rowStep? (r : AddressRange) : Option Int := do
  let back ← inWord? ((r.width - 1 : Nat) * r.across)
  inWord? (r.down - back)

/-- Why a range gives no addresses. -/
inductive Failure where
  | overflow
  | tooLong
deriving DecidableEq, Repr

/-- The addresses from `address` up to the last of the range, when `done` addresses come before and
`left` more may follow. -/
def walk (r : AddressRange) (rowStep : Int) : (left done : Nat) → (address : Int) →
    Except Failure (List UInt32)
  | left, done, address =>
    if address ≤ r.last then
      match left with
      | 0 => .error .tooLong
      | left + 1 =>
        let step := if (done + 1) % r.width ≠ 0 then r.across else rowStep
        match inWord? (address + step) with
        | none => .error .overflow
        | some next =>
          match walk r rowStep left (done + 1) next with
          | .ok rest => .ok ((address % 65536).toNat.toUInt32 :: rest)
          | .error e => .error e
    else .ok []

/-- The addresses of `once`, written `n` times one after the other. -/
def repeated (n : Nat) (once : List UInt32) : List UInt32 :=
  if once.isEmpty then [] else (List.replicate n once).flatten

/-- The addresses of the range, all copies one after the other. -/
def addresses (r : AddressRange) : Except Failure (List UInt32) :=
  match r.rowStep? with
  | none => .error .overflow
  | some rowStep =>
    match r.walk rowStep maxTiles 0 r.first with
    | .error e => .error e
    | .ok once =>
      if once.length * r.copies ≤ maxTiles then .ok (repeated r.copies once)
      else .error .tooLong

/-- The addresses that `t` writes for rows of `width` tiles. -/
def expand (t : Text) (width : UInt32) : Except Fault (List UInt32) :=
  match parse? t (max width.toNat 1) with
  | none => .error (.badRange t)
  | some r =>
    match r.addresses with
    | .ok addresses => .ok addresses
    | .error .overflow => .error (.badRange t)
    | .error .tooLong => .error (.rangeTooLong t)

end AddressRange

end MemoryDoc
