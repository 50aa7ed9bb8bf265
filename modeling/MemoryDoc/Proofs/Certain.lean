/-
# Computations in which nothing is missing

A computation that is followed in every detail may come to nothing, and not even to an error: where
an element is looked up in a place that is none, or where a number does not fit in its word.  It is
certain if it comes to something.

Main statement: certain computations in a row are certain (`certain_bind`).
-/

namespace MemoryDoc

variable {ε α β : Type}

/-- A computation that comes to something. -/
abbrev certain (x : Except ε α) : ExceptT ε Option α :=
  ExceptT.mk (some x)

/-- **Certain computations in a row are certain.** -/
theorem certain_bind (x : Except ε α) (f : α → Except ε β) :
    certain (x >>= f) = certain x >>= fun a => certain (f a) := by
  cases x <;> rfl

/-- What is there is taken, and the computation goes on with it. -/
theorem lift_some_bind (a : α) (f : α → ExceptT ε Option β) :
    ((liftM (some a) : ExceptT ε Option α) >>= f) = f a :=
  rfl

theorem foldlM_certain {f? : α → β → ExceptT ε Option α} {f : α → β → Except ε α}
    (h : ∀ a b, f? a b = certain (f a b)) (l : List β) (a : α) :
    l.foldlM f? a = certain (l.foldlM f a) := by
  induction l generalizing a with
  | nil => rfl
  | cons b l ih =>
    rw [List.foldlM_cons, List.foldlM_cons, h, certain_bind]
    exact bind_congr fun a => ih a

/-- All elements of a list come to something if each of them does. -/
theorem mapM_eq_some {f : α → Option β} {as : List α} {bs : List β} :
    as.mapM f = some bs ↔ as.map f = bs.map some := by
  induction as generalizing bs with
  | nil => cases bs <;> simp
  | cons a as ih =>
    rw [List.mapM_cons, List.map_cons]
    simp only [Option.bind_eq_bind, Option.bind_eq_some_iff, ih]
    constructor
    · rintro ⟨b, hb, rest, hrest, h⟩
      cases h
      rw [hb, hrest, List.map_cons]
    · intro h
      cases bs with
      | nil => cases h
      | cons b rest =>
        obtain ⟨hb, hrest⟩ := List.cons.inj h
        exact ⟨b, hb, rest, hrest, rfl⟩

end MemoryDoc
