/-
# Given parameters and defaults

The defaults of parameters have no say in how their values are read: a default only takes the place of
a value that was not given.  So parameters can be read without the defaults first, and the defaults
can be filled in afterwards.

Main statements: reading is reading without defaults and filling them in (`get_eq_map_fill`), and
what is read without defaults is of the kind of its parameter or was not given (`kinds_of_get_bare`).
-/
import MemoryDoc.Parameter.Lookahead

namespace MemoryDoc.Parameter

namespace Spec

/-- The same parameters, none of which has another value than the one that is given. -/
def bare (s : Spec) : Spec :=
  { s with defaults := s.defaults.map fun _ => none }

/-- The default of the parameter at a place. -/
def default? (s : Spec) (slot : Nat) : Option UInt32 :=
  if s.required ≤ slot then (s.defaults[slot - s.required]?).join else none

/-- The value that a default comes to. -/
def ofDefault : Option UInt32 → Value
  | some n => .number n
  | none => .unset

/-- The value of the parameter at a place: what was given, or else its default. -/
def fillAt (s : Spec) : Value × Nat → Value
  | (.unset, slot) => ofDefault (s.default? slot)
  | (v, _) => v

/-- The values with the defaults of those that were not given. -/
def fill (s : Spec) (own : Values) : Values :=
  own.zipIdx.map s.fillAt

/-- The value is of the kind of the parameter at a place. -/
def Fits (s : Spec) (slot : Nat) (v : Value) : Prop :=
  if slot ∈ s.texts then ∃ t, v = .text t else ∃ n, v = .number n

/-- There is room for the value of each parameter, and what was given is of its kind. -/
structure Sound (s : Spec) (values : List (Option Value)) : Prop where
  length_eq : values.length = s.names.length
  fits : ∀ slot v, values[slot]? = some (some v) → s.Fits slot v

variable {s : Spec} {params : Text}

/-! ## Filling in -/

/-- A value that fits has been given. -/
theorem Fits.ne_unset {slot : Nat} {v : Value} (h : s.Fits slot v) : v ≠ .unset := by
  rintro rfl
  unfold Fits at h
  split at h
  · obtain ⟨t, ht⟩ := h
    cases ht
  · obtain ⟨n, hn⟩ := h
    cases hn

/-- A value that is read for a slot fits it. -/
theorem fits_of_value {slot : Nat} {raw : Text} {v : Value} (h : s.value params slot raw = .ok v) :
    s.Fits slot v := by
  unfold value at h
  unfold Fits
  split at h
  · next htext =>
    cases h
    rw [if_pos htext]
    exact ⟨raw, rfl⟩
  · next htext =>
    rw [if_neg htext]
    split at h
    · next n _ =>
      cases h
      exact ⟨n, rfl⟩
    · cases h

theorem sound_empty (s : Spec) : s.Sound (s.names.map fun _ => none) where
  length_eq := List.length_map _
  fits slot v h := by
    rw [List.getElem?_map] at h
    cases hname : s.names[slot]? with
    | none =>
      rw [hname] at h
      cases h
    | some name =>
      rw [hname] at h
      cases h

/-- A token gives one of the parameters a value of its kind, or nothing. -/
theorem Sound.take {given next : Given} {token : Text} (hgiven : s.Sound given.values)
    (h : s.take params given token = .ok next) : s.Sound next.values := by
  obtain ⟨⟨slot, raw, positional⟩, -, h⟩ := Reader.outcome_bind_eq_ok.1 h
  simp only at h
  split at h
  · cases h
  · split at h
    · cases h
      exact hgiven
    · obtain ⟨v, hv, h⟩ := Reader.outcome_bind_eq_ok.1 h
      cases h
      refine ⟨List.length_set.trans hgiven.length_eq, fun place w hw => ?_⟩
      by_cases hplace : slot = place
      · subst hplace
        obtain ⟨_, -, rfl⟩ : ∃ _, _ ∧ v = w := by simpa [List.getElem?_set_self'] using hw
        exact fits_of_value hv
      · rw [List.getElem?_set_ne hplace] at hw
        exact hgiven.fits place w hw

/-- Values stay sound however many tokens are read. -/
theorem Sound.foldlM {tokens : List Text} {given next : Given} (hgiven : s.Sound given.values)
    (h : tokens.foldlM (s.take params) given = .ok next) : s.Sound next.values := by
  induction tokens generalizing given with
  | nil =>
    cases h
    exact hgiven
  | cons token tokens ih =>
    rw [List.foldlM_cons] at h
    obtain ⟨mid, hmid, h⟩ := Reader.outcome_bind_eq_ok.1 h
    exact ih (hgiven.take hmid) h

/-- Sound values have been given or are missing. -/
theorem Sound.unset_not_mem {values : List (Option Value)} (h : s.Sound values) :
    some .unset ∉ values := by
  intro hmem
  obtain ⟨slot, hslot⟩ := List.mem_iff_getElem?.1 hmem
  exact (h.fits slot .unset hslot).ne_unset rfl

/-- Without its defaults, a spec still asks for the same parameters. -/
theorem required_bare (s : Spec) : s.bare.required = s.required := by
  simp [required, bare]

theorem default?_bare (s : Spec) (slot : Nat) : s.bare.default? slot = none := by
  unfold default?
  split
  · rw [bare, List.getElem?_map]
    cases s.defaults[slot - _]? <;> rfl
  · rfl

/-- A parameter that has a default, or is declared to have none, may be left out. -/
theorem fallback_of_le {slot : Nat} (h : s.required ≤ slot) :
    s.fallback params slot = .ok (ofDefault (s.default? slot)) := by
  rw [fallback, default?, if_pos h, if_pos h]
  cases (s.defaults[slot - s.required]?).join <;> rfl

/-- Of a parameter that was not given nothing is known without its default. -/
theorem fallback_eq (s : Spec) (params : Text) (slot : Nat) :
    s.fallback params slot = (s.bare.fallback params slot).map fun v => s.fillAt (v, slot) := by
  by_cases hslot : s.required ≤ slot
  · rw [fallback_of_le hslot, fallback_of_le (required_bare s ▸ hslot), default?_bare]
    rfl
  · rw [fallback, fallback, required_bare, if_neg hslot, if_neg hslot]
    show _ = (if s.named = true then _ else _ : Except Fault Value).map _
    split <;> rfl

/-- A slot is completed without its default first, and the default is filled in afterwards. -/
theorem complete_eq (s : Spec) (params : Text) {value : Option Value}
    (hunset : value ≠ some .unset) (slot : Nat) :
    s.complete params (value, slot) =
      (s.bare.complete params (value, slot)).map fun v => s.fillAt (v, slot) := by
  cases value with
  | none => exact fallback_eq s params slot
  | some v =>
    cases v with
    | number n => rfl
    | text t => rfl
    | unset => exact absurd rfl hunset

/-- All slots are completed without their defaults first, and the defaults are filled in
afterwards. -/
theorem mapM_complete_eq (s : Spec) (params : Text) {values : List (Option Value)}
    (hunset : some .unset ∉ values) (slot : Nat) :
    (values.zipIdx slot).mapM (s.complete params) =
      ((values.zipIdx slot).mapM (s.bare.complete params)).map fun own =>
        (own.zipIdx slot).map s.fillAt := by
  induction values generalizing slot with
  | nil => rfl
  | cons value values ih =>
    rw [List.mem_cons, not_or] at hunset
    rw [List.zipIdx_cons, List.mapM_cons, List.mapM_cons, ih hunset.2,
      complete_eq s params (Ne.symm hunset.1)]
    cases s.bare.complete params (value, slot) with
    | error e => rfl
    | ok v => cases (values.zipIdx (slot + 1)).mapM (s.bare.complete params) <;> rfl

/-- **The defaults are filled in after the values were read.** -/
theorem get_eq_map_fill (s : Spec) (params : Text) :
    s.get params = (s.bare.get params).map s.fill := by
  have htake : s.bare.take params = s.take params := rfl
  unfold get
  rw [htake]
  show _ = ((tokens params).foldlM (s.take params) ⟨0, s.names.map fun _ => none⟩ >>= _).map _
  cases hgiven : (tokens params).foldlM (s.take params) ⟨0, s.names.map fun _ => none⟩ with
  | error e => rfl
  | ok given =>
    exact mapM_complete_eq s params (s.sound_empty.foldlM hgiven).unset_not_mem 0

/-! ## Values without defaults -/

/-- Completed values are as many as the slots, and each is that of its own slot. -/
theorem of_mapM_complete {values : List (Option Value)} {slot : Nat} {own : Values}
    (h : (values.zipIdx slot).mapM (s.complete params) = .ok own) :
    own.length = values.length ∧
      ∀ k v, own[k]? = some v →
        ∃ value, values[k]? = some value ∧ s.complete params (value, slot + k) = .ok v := by
  induction values generalizing slot own with
  | nil =>
    cases h
    exact ⟨rfl, nofun⟩
  | cons value values ih =>
    rw [List.zipIdx_cons, List.mapM_cons] at h
    obtain ⟨first, hfirst, h⟩ := Reader.outcome_bind_eq_ok.1 h
    obtain ⟨rest, hrest, h⟩ := Reader.outcome_bind_eq_ok.1 h
    cases h
    obtain ⟨hlength, hvalues⟩ := ih hrest
    refine ⟨congrArg (· + 1) hlength, fun k v hk => ?_⟩
    cases k with
    | zero =>
      cases hk
      exact ⟨value, rfl, hfirst⟩
    | succ k =>
      obtain ⟨value, hvalue, hcomplete⟩ := hvalues k v hk
      exact ⟨value, hvalue, by rwa [Nat.add_right_comm] at hcomplete⟩

/-- A parameter that was not given has no value without defaults. -/
theorem fallback_bare {slot : Nat} {v : Value} (h : s.bare.fallback params slot = .ok v) :
    v = .unset := by
  by_cases hslot : s.bare.required ≤ slot
  · rw [fallback_of_le hslot, default?_bare] at h
    exact (Except.ok.inj h).symm
  · rw [fallback, if_neg hslot] at h
    split at h <;> cases h

/-- **There is a value for each parameter,** and it is of its kind unless it was not given. -/
theorem kinds_of_get_bare {own : Values} (h : s.bare.get params = .ok own) :
    own.length = s.names.length ∧
      ∀ slot v, own[slot]? = some v → v = .unset ∨ s.Fits slot v := by
  obtain ⟨given, hgiven, h⟩ := Reader.outcome_bind_eq_ok.1 h
  have hsound : s.Sound given.values := s.sound_empty.foldlM hgiven
  obtain ⟨hlength, hvalues⟩ := of_mapM_complete h
  refine ⟨hlength.trans hsound.length_eq, fun slot v hv => ?_⟩
  obtain ⟨value, hvalue, hcomplete⟩ := hvalues slot v hv
  cases value with
  | none => exact .inl (fallback_bare hcomplete)
  | some w =>
    cases hcomplete
    exact .inr (hsound.fits slot v hvalue)

/-- Each slot is filled on its own. -/
theorem getElem?_fill (s : Spec) (own : Values) (slot : Nat) :
    (s.fill own)[slot]? = own[slot]?.map fun v => s.fillAt (v, slot) := by
  rw [fill, List.getElem?_map, List.getElem?_zipIdx, Nat.zero_add, Option.map_map]
  rfl

/-- Defaults are numbers, so they change no text. -/
theorem text_fill (s : Spec) (own : Values) (slot : Nat) :
    (s.fill own).text slot = own.text slot := by
  have hdefault (d : Option UInt32) : Values.text [ofDefault d] 0 = [] := by
    cases d <;> rfl
  unfold Values.text
  rw [getElem?_fill]
  cases own[slot]? with
  | none => rfl
  | some v =>
    cases v with
    | number n => rfl
    | text t => rfl
    | unset => exact hdefault (s.default? slot)

/-- **A number is the one that was given, or else the default.** -/
theorem number_fill {own : Values} (h : s.bare.get params = .ok own) (slot : Nat)
    (hslot : slot < s.names.length) (htexts : slot ∉ s.texts) :
    (s.fill own).number slot = (own.number? slot).getD ((s.default? slot).getD 0) := by
  obtain ⟨hlength, hkinds⟩ := kinds_of_get_bare h
  have hv := List.getElem?_eq_getElem (hlength ▸ hslot : slot < own.length)
  unfold Values.number Values.number?
  rw [getElem?_fill, hv]
  have hdefault (d : Option UInt32) : Values.number [ofDefault d] 0 = d.getD 0 := by
    cases d <;> rfl
  rcases hkinds slot _ hv with hunset | hfits
  · rw [hunset]
    exact hdefault (s.default? slot)
  · rw [Fits, if_neg htexts] at hfits
    obtain ⟨n, hn⟩ := hfits
    rw [hn]
    rfl

end Spec

namespace Picture

/-- **The parameters of a picture are read without defaults, which are then filled in.** -/
theorem read_eq_ok_bare {s : Spec} {extra t left : Text} {v : Picture}
    (h : read s extra t = .ok (v, left)) :
    ∃ own params, read s.bare extra t = .ok (⟨own, v.crop, v.fileName⟩, left) ∧
      s.bare.get params = .ok own ∧ v.values = s.fill own := by
  obtain ⟨params, name, rest, values, hstring, hvalues, h⟩ := read_eq_ok.1 h
  rw [s.get_eq_map_fill] at hvalues
  cases hown : s.bare.get params with
  | error e =>
    rw [hown] at hvalues
    cases hvalues
  | ok own =>
    rw [hown] at hvalues
    cases hvalues
    refine ⟨own, params, read_eq_ok.2 ⟨params, name, rest, own, hstring, hown, ?_⟩, hown, ?_⟩
    · rcases h with ⟨hbrace, crop, name, hcrop, rfl⟩ | ⟨hbrace, rfl, rfl⟩
      · exact .inl ⟨hbrace, crop, name, hcrop, rfl⟩
      · exact .inr ⟨hbrace, rfl, rfl⟩
    · rcases h with ⟨-, crop, name, -, rfl⟩ | ⟨-, -, rfl⟩
      · rfl
      · rfl

end Picture

end MemoryDoc.Parameter
