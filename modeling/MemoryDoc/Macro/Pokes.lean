/-
# Pokes

The macro that changes the current memory is given clauses: a byte is poked at one address, or at
several that are a step apart.  The clauses are applied in order, and those before a clause that
cannot be read are applied too.

A step brings an address back to where it was after 64K pokes at the latest, so that no more are
needed.
-/
import MemoryDoc.Memory.Basic
import MemoryDoc.Parameter.Spec

namespace MemoryDoc

/-- A byte to be poked at `length` addresses. -/
structure Poke where
  address : UInt32
  byte : UInt8
  length : UInt32
  step : UInt32
deriving DecidableEq, Repr

namespace Poke

/-- The memory after the pokes of a clause. -/
def apply (m : Memory) (p : Poke) : Memory :=
  m.fill p.address p.step p.byte (min p.length.toNat Memory.size)

/-- The memory after the pokes of some clauses. -/
def applyAll (m : Memory) (ps : List Poke) : Memory :=
  ps.foldl apply m

/-- The parameters of a clause. -/
def spec : Parameter.Spec where
  names := ["addr".toList, "byte".toList, "length".toList, "step".toList]
  defaults := [some 1, some 1]

/-- The clause with the given parameters. -/
def ofValues (vs : Parameter.Values) : Poke where
  address := vs.number 0
  byte := (vs.number 1).toUInt8
  length := vs.number 2
  step := vs.number 3

/-- `addr,byte[,length,step][;addr,byte[,length,step];...]`: the clauses that can be read, and what
is left behind the last or what is wrong with the next. -/
def clauses (t : Text) : List Poke × Except Fault Text :=
  match _h : spec.read t with
  | .error fault => ([], .error fault)
  | .ok (values, ';' :: rest) =>
    let (more, outcome) := clauses rest
    (ofValues values :: more, outcome)
  | .ok (values, rest) => ([ofValues values], .ok rest)
termination_by t.length
decreasing_by
  have := spec.advances_read.length_le _h
  simp only [List.length_cons] at this
  omega

end Poke

end MemoryDoc
