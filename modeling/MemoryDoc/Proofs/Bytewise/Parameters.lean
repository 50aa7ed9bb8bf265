/-
# Scanning parameters

Values are stored and looked up at places that are computed from the tokens: the value of a
parameter, its default, and its name.  A reading of parameters comes to nothing if one of these
places is not in its list.

Main statements: all places are in their lists, and the values are those that the parameters have
(`values?_eq`); the parameters of a picture are scanned as they are read (`follows_picture`).
-/
import MemoryDoc.Parameter.Defaults
import MemoryDoc.Proofs.Bytewise.Scanner

namespace MemoryDoc

namespace Parameter.Spec

/-- The list with the element at a place replaced, which has to be one of its places. -/
def store? {α : Type} (l : List α) (slot : Nat) (a : α) : Option (List α) :=
  if slot < l.length then some (l.set slot a) else none

/-- Take one token. -/
def take? (s : Spec) (params : Text) (given : Given) (token : Text) :
    ExceptT Fault Option Given := do
  let (slot, raw, positional) ← s.address given.positional token
  if s.names.length ≤ slot then
    throw (.tooManyParameters s.names.length params)
  if raw.isEmpty then
    return { given with positional }
  let v ← s.value params slot raw
  return ⟨positional, ← store? given.values slot (some v)⟩

/-- The value of a parameter of which nothing is known but its default. -/
def fallback? (s : Spec) (params : Text) (slot : Nat) : ExceptT Fault Option Value := do
  if s.required ≤ slot then
    match ← (s.defaults[slot - s.required]? : Option (Option UInt32)) with
    | some n => return .number n
    | none => return .unset
  else if s.named then
    throw (.missingParameter (← (s.names[slot]? : Option Text)) params)
  else
    throw (.tooFewParameters s.required params)

/-- The value of a parameter: what was given, or else its default. -/
def complete? (s : Spec) (params : Text) : Option Value × Nat → ExceptT Fault Option Value
  | (some v, _) => return v
  | (none, slot) => s.fallback? params slot

/-- The values that a parameter string gives to the declared parameters. -/
def values? (s : Spec) (params : Text) : ExceptT Fault Option Values := do
  let given ← (tokens params).foldlM (s.take? params) ⟨0, s.names.map fun _ => none⟩
  given.values.zipIdx.mapM (s.complete? params)

/-! ## All places are there -/

/-- Every slot that a token is put into is there. -/
theorem take?_eq {s : Spec} {given : Given} (h : given.values.length = s.names.length)
    (params token : Text) : s.take? params given token = certain (s.take params given token) := by
  unfold take? take
  rw [certain_bind]
  refine bind_congr fun (slot, raw, positional) => ?_
  by_cases hslot : s.names.length ≤ slot
  · simp only [hslot, if_true]
    rfl
  · simp only [hslot, if_false]
    split
    · rfl
    · rw [certain_bind]
      refine bind_congr fun v => ?_
      -- The place is one of a name, and there are as many values as names.
      rw [store?, if_pos (by omega)]
      rfl

theorem fallback?_eq {s : Spec} {slot : Nat} (h : slot < s.names.length) (params : Text) :
    s.fallback? params slot = certain (s.fallback params slot) := by
  unfold fallback? fallback
  split
  · next hrequired =>
    -- The defaults are those of the last names.
    have hslot : slot - s.required < s.defaults.length := by
      unfold required at hrequired ⊢
      omega
    rw [List.getElem?_eq_getElem hslot]
    simp only [Option.join_some]
    cases s.defaults[slot - s.required] <;> rfl
  · split
    · rw [List.getD_eq_getElem?_getD, List.getElem?_eq_getElem h]
      rfl
    · rfl

/-- A slot that is there can be completed. -/
theorem complete?_eq {s : Spec} {slot : Nat} (h : slot < s.names.length) (params : Text)
    (value : Option Value) :
    s.complete? params (value, slot) = certain (s.complete params (value, slot)) := by
  cases value with
  | some v => rfl
  | none => exact fallback?_eq h params

/-- The slots stay there while tokens are taken. -/
theorem foldlM_take?_eq {s : Spec} {given : Given} (h : s.Sound given.values) (params : Text)
    (tokens : List Text) :
    tokens.foldlM (s.take? params) given = certain (tokens.foldlM (s.take params) given) := by
  induction tokens generalizing given with
  | nil => rfl
  | cons token tokens ih =>
    rw [List.foldlM_cons, List.foldlM_cons, take?_eq h.length_eq, certain_bind]
    cases ht : s.take params given token with
    | error e => rfl
    | ok next => exact ih (h.take ht)

theorem mapM_complete?_eq {s : Spec} (params : Text) (values : List (Option Value)) (slot : Nat)
    (h : slot + values.length ≤ s.names.length) :
    (values.zipIdx slot).mapM (s.complete? params) =
      certain ((values.zipIdx slot).mapM (s.complete params)) := by
  induction values generalizing slot with
  | nil => rfl
  | cons value values ih =>
    rw [List.length_cons] at h
    rw [List.zipIdx_cons, List.mapM_cons, List.mapM_cons, complete?_eq (by omega), certain_bind]
    refine bind_congr fun v => ?_
    rw [ih (slot + 1) (by omega), certain_bind]
    rfl

/-- **All places that are computed from the tokens are in their lists.** -/
theorem values?_eq (s : Spec) (params : Text) : s.values? params = certain (s.get params) := by
  unfold values? get
  rw [foldlM_take?_eq s.sound_empty, certain_bind]
  cases hgiven : (tokens params).foldlM (s.take params) ⟨0, s.names.map fun _ => none⟩ with
  | error e => rfl
  | ok given =>
    have hlength := (s.sound_empty.foldlM hgiven).length_eq
    exact mapM_complete?_eq params given.values 0 (by omega)

end Parameter.Spec

/-! ## Scanning -/

namespace Scanner

open Parameter (Spec Picture Values)
open Text (dropBytes? byteSize)

/-- Read a parameter string. -/
def parameters (s : Spec) : Scanner Fault Values := do
  outcome (s.values? (← readWhile (s.accepts [])))

/-- Read a string of characters of class `p`, and a text in brackets if one follows. -/
def string (p : Char → Bool) : Scanner Fault (Text × Option Text) := do
  let params ← readWhile p
  return (params, ← optionalBracketed)

/-- Read a cropping rectangle whose opening brace is the next character, and a file name. -/
def crop : Scanner Fault (Crop × Option Text) := do
  let brace ← place
  moveTo (brace + 1)
  let sides ← parameters Picture.cropSpec
  let stop ← place
  if ← accept '}' then
    return (Picture.cropOf sides, ← optionalBracketed)
  else
    throw (.unclosedCrop (← slice brace stop))

/-- Read the parameters of a picture, which may have the characters `extra` too. -/
def picture (s : Spec) (extra : Text) : Scanner Fault Picture := do
  let (params, fileName) ← string (s.accepts extra)
  let values ← outcome (s.values? params)
  if fileName.isSome then
    return { values, fileName }
  if ← startsWith '{' then
    let (crop, fileName) ← crop
    return ⟨values, crop, fileName⟩
  else
    return { values, fileName }

variable {t rest : Text} {n : Nat}

/-- Parameters are scanned up to the place that they are read to. -/
theorem follows_parameters (s : Spec) : Follows (parameters s) s.read := by
  intro t n rest hn
  unfold parameters Spec.read
  rw [readWhile_bind hn, Spec.values?_eq]
  cases s.get (rest.takeWhile (s.accepts [])) with
  | error e => exact .error e
  | ok values => exact .ok (Nat.le_add_right _ _) (dropBytes?_readWhile _ hn)

/-- A word with a text in brackets is scanned up to the place that it is read to. -/
theorem follows_string (p : Char → Bool) : Follows (string p) (Parameter.readString p) := by
  intro t n rest hn
  have hread := follows_optionalBracketed (dropBytes?_readWhile p hn)
  unfold string Parameter.readString
  rw [readWhile_bind hn, bind_apply]
  generalize optionalBracketed t (n + byteSize (rest.takeWhile p)) = o at hread ⊢
  generalize Reader.optionalBracketed (rest.dropWhile p) = x at hread ⊢
  cases hread with
  | error e => exact .error e
  | ok hle hstop => exact .ok (Nat.le_trans (Nat.le_add_right _ _) hle) hstop

theorem lands_crop (hn : dropBytes? n t = some ('{' :: rest)) :
    Lands t n (crop t n) (Picture.readCrop ('{' :: rest)) := by
  have hnext : dropBytes? (n + 1) t = some rest := Text.dropBytes?_cons hn
  have hsides := follows_parameters Picture.cropSpec hnext
  unfold crop Picture.readCrop
  rw [place_bind, moveTo_bind, bind_apply, List.tail_cons]
  generalize parameters Picture.cropSpec t (n + 1) = o at hsides ⊢
  generalize Picture.cropSpec.read rest = x at hsides ⊢
  cases hsides with
  | error e => exact .error e
  | @ok sides k left hle hk =>
    simp only
    rw [place_bind, accept_bind hk]
    split
    · next hhead =>
      obtain ⟨behind, rfl⟩ := List.head?_eq_some_iff.1 hhead
      have hname := follows_optionalBracketed (Text.dropBytes?_cons hk)
      simp only [if_true]
      rw [bind_apply]
      generalize optionalBracketed t (k + '}'.utf8Size) = o at hname ⊢
      generalize Reader.optionalBracketed behind = x at hname ⊢
      cases hname with
      | error e => exact .error e
      | ok hle' hstop => exact .ok (by omega) hstop
    · next hhead =>
      rw [if_neg (by decide), slice_bind (by omega) hn hk]
      split
      · next h => cases h
      · next h =>
        cases h
        exact absurd rfl hhead
      · next h =>
        cases h
        exact .error _

/-- **The parameters of a picture are scanned as they are read.** -/
theorem follows_picture (s : Spec) (extra : Text) :
    Follows (picture s extra) (Picture.read s extra) := by
  intro t n rest hn
  have hstring := follows_string (s.accepts extra) hn
  unfold picture Picture.read
  rw [bind_apply]
  generalize string (s.accepts extra) t n = o at hstring ⊢
  generalize Parameter.readString (s.accepts extra) rest = x at hstring ⊢
  cases hstring with
  | error e => exact .error e
  | @ok p k left hle hk =>
    obtain ⟨params, fileName⟩ := p
    simp only
    rw [Spec.values?_eq, outcome_bind]
    cases s.get params with
    | error e => exact .error e
    | ok values =>
      simp only
      cases fileName with
      | some fileName => exact .ok hle hk
      | none =>
        simp only [Option.isSome_none, Bool.false_eq_true, if_false]
        rw [startsWith_bind hk]
        split
        · next hhead =>
          obtain ⟨behind, rfl⟩ := List.head?_eq_some_iff.1 (of_decide_eq_true hhead)
          -- A brace opens a crop only where no name has been read.
          have hcrop := lands_crop hk
          simp only
          rw [bind_apply]
          generalize crop t k = o at hcrop ⊢
          generalize Picture.readCrop ('{' :: behind) = x at hcrop ⊢
          cases hcrop with
          | error e => exact .error e
          | ok hle' hstop => exact .ok (Nat.le_trans hle hle') hstop
        · next hhead =>
          split
          · exact absurd (by simp) hhead
          · exact .ok hle hk

end Scanner

end MemoryDoc
