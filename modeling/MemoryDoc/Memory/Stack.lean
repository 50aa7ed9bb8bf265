/-
# Saved memories

The current memory can be saved under a name and brought back later, last saved first.  At the
bottom is the memory that the stack was made with.  It has no name and is never taken away.

The bottom has a place of its own.  It can as well be the last of the saved memories, which must then
not be brought back while it is the only one.

Main statements: what was pushed is what a pop brings back (`pop_push`), and with the base among the
saved memories there is something to bring back exactly if they are more than one (`saves_pop`).
-/
import MemoryDoc.Memory.Basic
import MemoryDoc.Text.Basic

namespace MemoryDoc.Memory

/-- The current memory and the memories saved before it. -/
structure Stack where
  current : Memory
  /-- The memories that were saved and their names, the latest first. -/
  pushed : List (Memory × Text)
  /-- The memory at the bottom. -/
  base : Memory
deriving DecidableEq

namespace Stack

/-- There is no saved memory left to bring back. -/
inductive Underflow where
  | underflow
deriving DecidableEq, Repr

/-- The wording of the underflow. -/
def Underflow.message : Underflow → Text
  | .underflow => "Cannot pop snapshot when snapshot stack is empty"

/-- The stack over a memory, with nothing saved. -/
def ofMemory (m : Memory) : Stack :=
  ⟨m, [], m⟩

/-- All saved memories and their names, the latest first and the base last. -/
def saved (s : Stack) : List (Memory × Text) :=
  s.pushed ++ [(s.base, [])]

/-- The number of saved memories. -/
def depth (s : Stack) : Nat :=
  s.saved.length

/-- The name of the memory that was saved last. -/
def name (s : Stack) : Text :=
  match s.pushed with
  | [] => []
  | (_, name) :: _ => name

/-- Save the current memory under a name. -/
def push (s : Stack) (name : Text) : Stack :=
  { s with pushed := (s.current, name) :: s.pushed }

/-- Bring back the memory that was saved last. -/
def pop (s : Stack) : Except Underflow Stack :=
  match s.pushed with
  | [] => .error .underflow
  | (m, _) :: rest => .ok { s with current := m, pushed := rest }

/-- Change the current memory. -/
def modify (s : Stack) (f : Memory → Memory) : Stack :=
  { s with current := f s.current }

/-- **A pop brings back what was pushed,** whatever became of the current memory. -/
theorem pop_push (s : Stack) (name : Text) (f : Memory → Memory) :
    ((s.push name).modify f).pop = .ok s := rfl

@[simp] theorem depth_push (s : Stack) (name : Text) : (s.push name).depth = s.depth + 1 := rfl

@[simp] theorem depth_ofMemory (m : Memory) : (ofMemory m).depth = 1 := rfl

end Stack

/-! ## The base in the list of saved memories -/

/-- The current memory and one list of all memories that are saved, in which the base is the last and
has the empty name. -/
structure Saves where
  current : Memory
  saved : List (Memory × Text)
deriving DecidableEq

namespace Saves

/-- Save the current memory under a name. -/
def push (s : Saves) (name : Text) : Saves :=
  { s with saved := (s.current, name) :: s.saved }

/-- Bring back the memory that was saved last, unless the base is the only one. -/
def pop (s : Saves) : Except Stack.Underflow Saves :=
  if s.saved.length ≤ 1 then .error .underflow
  else
    match s.saved with
    | [] => .ok s
    | (m, _) :: rest => .ok ⟨m, rest⟩

/-- The name of the memory that was saved last. -/
def name (s : Saves) : Text :=
  match s.saved with
  | [] => []
  | (_, name) :: _ => name

end Saves

namespace Stack

/-- The stack with the base in the list. -/
def saves (s : Stack) : Saves :=
  ⟨s.current, s.saved⟩

/-- Nothing is lost when the base is put in the list. -/
theorem saves_inj {s t : Stack} : s.saves = t.saves ↔ s = t := by
  constructor
  · obtain ⟨current, pushed, base⟩ := s
    obtain ⟨current', pushed', base'⟩ := t
    intro h
    obtain ⟨rfl, hsaved⟩ := Saves.mk.inj h
    obtain ⟨rfl, hbase⟩ := List.append_inj' hsaved rfl
    cases hbase
    rfl
  · rintro rfl
    rfl

/-- A fresh stack holds one memory, the nameless one. -/
theorem saves_ofMemory (m : Memory) : (ofMemory m).saves = ⟨m, [(m, [])]⟩ := rfl

/-- A push puts the memory on the list under its name. -/
theorem saves_push (s : Stack) (name : Text) : (s.push name).saves = s.saves.push name := rfl

/-- A change leaves the list alone. -/
theorem saves_modify (s : Stack) (f : Memory → Memory) :
    (s.modify f).saves = { s.saves with current := f s.current } := rfl

/-- **A memory is brought back exactly if the base is not the only one that is saved,** and it is the
first of the list. -/
theorem saves_pop (s : Stack) : s.pop.map saves = s.saves.pop := by
  obtain ⟨current, pushed, base⟩ := s
  cases pushed with
  | nil => rfl
  | cons top rest =>
    have hmore : ¬ ((top :: rest) ++ [(base, ([] : Text))]).length ≤ 1 := by
      simp
    exact (if_neg hmore).symm

/-- The name is that of the memory at the head of the list. -/
theorem name_saves (s : Stack) : s.saves.name = s.name := by
  obtain ⟨current, pushed, base⟩ := s
  cases pushed <;> rfl

end Stack

end MemoryDoc.Memory
