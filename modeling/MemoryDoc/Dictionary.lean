/-
# Dictionaries

A dictionary maps names to values.  A name that is set again keeps its place and gets the new value.

Main statement: after setting a name, looking it up gives the new value and every other name gives
what it gave before (`find?_set`).
-/
import MemoryDoc.Text.Basic

namespace MemoryDoc

/-- Values under names, each name at most once if only `set` is used. -/
abbrev Dictionary (α : Type) := List (Text × α)

namespace Dictionary

variable {α : Type}

/-- The value of a name. -/
def find? (d : Dictionary α) (name : Text) : Option α :=
  d.lookup name

/-- The dictionary in which a name has a new value. -/
def set : (d : Dictionary α) → (name : Text) → (value : α) → Dictionary α
  | [], name, value => [(name, value)]
  | (n, v) :: d, name, value =>
    if n = name then (n, value) :: d else (n, v) :: set d name value

/-- **Setting a name changes what that name gives, and nothing else.** -/
theorem find?_set (d : Dictionary α) (name other : Text) (value : α) :
    (d.set name value).find? other = if other = name then some value else d.find? other := by
  induction d with
  | nil =>
    by_cases h : other = name
    · simp [set, find?, h]
    · have hb : (other == name) = false := by simpa using h
      simp [set, find?, List.lookup_cons, h, hb]
  | cons p d ih =>
    obtain ⟨n, v⟩ := p
    unfold find? at ih ⊢
    by_cases hn : n = name
    · by_cases h : other = name
      · simp [set, hn, h]
      · have hb : (other == name) = false := by simpa using h
        simp [set, hn, h, List.lookup_cons, hb]
    · by_cases h : other = n
      · subst h
        simp [set, hn]
      · have hb : (other == n) = false := by simpa using h
        simp [set, hn, List.lookup_cons, hb, ih]

/-- What is found under a name is in the dictionary. -/
theorem mem_of_find?_eq_some {d : Dictionary α} {name : Text} {value : α}
    (h : d.find? name = some value) : (name, value) ∈ d := by
  obtain ⟨front, behind, rfl, -⟩ := List.lookup_eq_some_iff.1 h
  simp

/-- The dictionary with the value of every name changed by `f`. -/
def mapValues {β : Type} (f : α → β) (d : Dictionary α) : Dictionary β :=
  d.map fun (name, value) => (name, f value)

/-- A changed value is found under the name that it had before. -/
theorem find?_mapValues {β : Type} (f : α → β) (d : Dictionary α) (name : Text) :
    (d.mapValues f).find? name = (d.find? name).map f := by
  induction d with
  | nil => rfl
  | cons p d ih =>
    obtain ⟨n, v⟩ := p
    unfold find? mapValues at ih ⊢
    rw [List.map_cons, List.lookup_cons, List.lookup_cons]
    cases name == n with
    | true => rfl
    | false => exact ih

/-- Values may be changed before or after one of them is set. -/
theorem mapValues_set {β : Type} (f : α → β) (d : Dictionary α) (name : Text) (value : α) :
    (d.set name value).mapValues f = (d.mapValues f).set name (f value) := by
  induction d with
  | nil => rfl
  | cons p d ih =>
    obtain ⟨n, v⟩ := p
    unfold mapValues at ih ⊢
    rw [List.map_cons, set, set]
    split
    · rfl
    · rw [List.map_cons, ih]

end Dictionary

end MemoryDoc
