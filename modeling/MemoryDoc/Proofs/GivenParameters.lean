/-
# What a parameter string gives

The tokens of a parameter string address parameters: those without a name one parameter after the
other, those with a name the parameter of that name.  A token may give no value, and a parameter may
be addressed more than once.

Main statement: reading fails exactly on unknown names, on too many tokens, on values that are no
numbers and on parameters that are missing.  Else each parameter has the last value that it was given,
or its default, so that tokens with names may stand anywhere (`get_given`).
-/
import MemoryDoc.Parameter.Defaults
import Mathlib.Data.List.Induction
import Mathlib.Data.List.Nodup

namespace MemoryDoc.Parameter

namespace Spec

/-! ## What tokens address -/

/-- The token has no name, and stands for the next parameter in order. -/
def isPositional (s : Spec) (token : Text) : Bool :=
  !(s.named && token.contains '=')

/-- Behind `k` tokens without a name, a token addresses the parameter at `slot` with the value
`raw`. -/
inductive Addresses (s : Spec) (k : Nat) : (token : Text) → (slot : Nat) → (raw : Text) → Prop where
  | inOrder {token : Text} (hpositional : s.isPositional token = true) : Addresses s k token k token
  | byName {name raw : Text} {slot : Nat} (hnamed : s.named = true) (hname : '=' ∉ name)
      (hslot : s.names[slot]? = some name) : Addresses s k (name ++ '=' :: raw) slot raw

/-- The token at place `i` is `token`, and there are `k` tokens without a name before it. -/
def TokenAt (s : Spec) (ts : List Text) (i k : Nat) (token : Text) : Prop :=
  ts[i]? = some token ∧ (ts.take i).countP s.isPositional = k

/-- The token at place `i` addresses the parameter at `slot` with the value `raw`. -/
def Gives (s : Spec) (ts : List Text) (i slot : Nat) (raw : Text) : Prop :=
  ∃ k token, s.TokenAt ts i k token ∧ s.Addresses k token slot raw

/-- The text stands for the value at a place: for itself at a place for texts, and elsewhere for the
number that is written. -/
def Means (s : Spec) (slot : Nat) (raw : Text) : Value → Prop
  | .text t => slot ∈ s.texts ∧ raw = t
  | .number n => slot ∉ s.texts ∧ Numeral.parse? raw = some n
  | .unset => False

/-- The last value that is given for the parameter at `slot` and is not empty, if there is one. -/
def LastGiven (s : Spec) (ts : List Text) (slot : Nat) : Option Value → Prop
  | some v => ∃ i raw, s.Gives ts i slot raw ∧ raw ≠ [] ∧ s.Means slot raw v ∧
      ∀ j raw', s.Gives ts j slot raw' → raw' ≠ [] → j ≤ i
  | none => ∀ i raw, s.Gives ts i slot raw → raw = []

/-- Behind `k` tokens without a name, a token has an unknown name, or there is no parameter for it, or
its value is no number where one is needed. -/
inductive Misuses (s : Spec) (k : Nat) : (token : Text) → Prop where
  | unknownName {name raw : Text} (hnamed : s.named = true) (hname : '=' ∉ name)
      (hunknown : name ∉ s.names) : Misuses s k (name ++ '=' :: raw)
  | tooMany {token raw : Text} {slot : Nat} (haddresses : s.Addresses k token slot raw)
      (hslot : s.names.length ≤ slot) : Misuses s k token
  | noNumber {token raw : Text} {slot : Nat} (haddresses : s.Addresses k token slot raw)
      (hne : raw ≠ []) (htexts : slot ∉ s.texts) (hnumber : Numeral.parse? raw = none) :
      Misuses s k token

/-- One of the tokens is misused. -/
def Misused (s : Spec) (ts : List Text) : Prop :=
  ∃ i k token, s.TokenAt ts i k token ∧ s.Misuses k token

/-- A parameter without a default is not given a value. -/
def Missing (s : Spec) (ts : List Text) : Prop :=
  ∃ slot < s.required, s.LastGiven ts slot none

variable {s : Spec} {params : Text} {ts : List Text} {token raw : Text} {k i slot : Nat}

/-! ## One token -/

/-- A token with a name is a name and a value behind the first equals sign. -/
theorem exists_name (h : s.isPositional token = false) :
    s.named = true ∧ ∃ name raw, token = name ++ '=' :: raw ∧ '=' ∉ name := by
  have hboth : s.named = true ∧ '=' ∈ token := by simpa [isPositional] using h
  obtain ⟨name, raw, htoken, hname⟩ := List.eq_append_cons_of_mem hboth.2
  exact ⟨hboth.1, name, raw, htoken, hname⟩

/-- A token with a name is not positional where names are allowed. -/
theorem isPositional_name (hnamed : s.named = true) (name raw : Text) :
    s.isPositional (name ++ '=' :: raw) = false := by
  simp [isPositional, hnamed]

/-- The name of a parameter tells its place, as no name comes twice. -/
theorem findIdx?_name (hnames : s.names.Nodup) {name : Text} (h : s.names[slot]? = some name) :
    s.names.findIdx? (· = name) = some slot := by
  obtain ⟨hlt, rfl⟩ := List.getElem?_eq_some_iff.1 h
  refine List.findIdx?_eq_some_iff_getElem.2 ⟨hlt, by simp, ?_⟩
  intro j hj heq
  have hsame := (List.Nodup.getElem_inj_iff hnames).1 (of_decide_eq_true heq)
  omega

/-- A token goes to the slot that it addresses, and counts if it is positional. -/
theorem address_of_addresses (hnames : s.names.Nodup) (h : s.Addresses k token slot raw) :
    s.address k token = .ok (slot, raw, k + [token].countP s.isPositional) := by
  rcases h with hpositional | ⟨hnamed, hname, hslot⟩
  · have hcount : [token].countP s.isPositional = 1 := by simp [hpositional]
    rw [hcount]
    unfold address
    -- Without a name there is no equals sign, or names mean nothing.
    by_cases hnamed : s.named = true
    · have hequals : '=' ∉ token := by simpa [isPositional, hnamed] using hpositional
      rw [Text.cut_of_not_mem hequals]
      cases s.named <;> rfl
    · rw [Bool.not_eq_true] at hnamed
      rw [hnamed]
  · rename_i name
    have hcount : [name ++ '=' :: raw].countP s.isPositional = 0 := by
      simp [isPositional_name hnamed]
    rw [hcount, address, Text.cut_append hname, hnamed]
    simp only [findIdx?_name hnames hslot, Nat.add_zero]

/-- What a token addresses and gives is told by the token. -/
theorem Addresses.unique (hnames : s.names.Nodup) {slot' : Nat} {raw' : Text}
    (h : s.Addresses k token slot raw) (h' : s.Addresses k token slot' raw') :
    slot' = slot ∧ raw' = raw := by
  have heq := (address_of_addresses hnames h).symm.trans (address_of_addresses hnames h')
  cases heq
  exact ⟨rfl, rfl⟩

/-- A token with an unknown name is an error. -/
theorem address_of_unknown {name : Text} (hnamed : s.named = true) (hname : '=' ∉ name)
    (hunknown : name ∉ s.names) (k : Nat) (raw : Text) :
    s.address k (name ++ '=' :: raw) = .error (.unknownKeyword name) := by
  have hnone : s.names.findIdx? (· = name) = none := by
    refine List.findIdx?_eq_none_iff.2 fun other hother => ?_
    rw [decide_eq_false_iff_not]
    rintro rfl
    exact hunknown hother
  rw [address, Text.cut_append hname, hnamed]
  simp only [hnone]

/-- A token addresses a parameter, unless its name is unknown. -/
theorem addresses_or_unknown (s : Spec) (k : Nat) (token : Text) :
    (∃ slot raw, s.Addresses k token slot raw) ∨
      s.named = true ∧ ∃ name raw, token = name ++ '=' :: raw ∧ '=' ∉ name ∧ name ∉ s.names := by
  by_cases hpositional : s.isPositional token = true
  · exact .inl ⟨k, token, .inOrder hpositional⟩
  · obtain ⟨hnamed, name, raw, rfl, hname⟩ := exists_name (eq_false_of_ne_true hpositional)
    by_cases hmem : name ∈ s.names
    · obtain ⟨slot, hslot⟩ := List.mem_iff_getElem?.1 hmem
      exact .inl ⟨slot, raw, .byName hnamed hname hslot⟩
    · exact .inr ⟨hnamed, name, raw, rfl, hname, hmem⟩

/-- A value is read for a slot if the text means it there. -/
theorem value_eq_ok {v : Value} : s.value params slot raw = .ok v ↔ s.Means slot raw v := by
  unfold value
  by_cases htexts : slot ∈ s.texts
  · rw [if_pos htexts]
    cases v <;> simp [Means, htexts]
  · rw [if_neg htexts]
    cases hnumber : Numeral.parse? raw <;> cases v <;> simp [Means, htexts, hnumber]

/-- A text has no value at a place if it is no number and texts are not kept there. -/
theorem value_eq_error (htexts : slot ∉ s.texts) (hnumber : Numeral.parse? raw = none) :
    s.value params slot raw = .error (.badParameter raw params) := by
  rw [value, if_neg htexts, hnumber]

/-- A text that has no value is no number, and texts are not kept there. -/
theorem exists_means_or (s : Spec) (slot : Nat) (raw : Text) :
    (∃ v, s.Means slot raw v) ∨ slot ∉ s.texts ∧ Numeral.parse? raw = none := by
  by_cases htexts : slot ∈ s.texts
  · exact .inl ⟨.text raw, htexts, rfl⟩
  · cases hnumber : Numeral.parse? raw with
    | none => exact .inr ⟨htexts, rfl⟩
    | some n => exact .inl ⟨.number n, htexts, hnumber⟩

/-- A text means one value for a slot. -/
theorem Means.unique {v v' : Value} (h : s.Means slot raw v) (h' : s.Means slot raw v') : v = v' := by
  have hvalue : s.value [] slot raw = .ok v := value_eq_ok.2 h
  have hvalue' : s.value [] slot raw = .ok v' := value_eq_ok.2 h'
  exact Except.ok.inj (hvalue.symm.trans hvalue')

/-- A text that has a value at a place is a number, unless texts are kept there. -/
theorem Means.parse?_ne_none {v : Value} (h : s.Means slot raw v) (htexts : slot ∉ s.texts) :
    Numeral.parse? raw ≠ none := by
  intro hnumber
  have hvalue : s.value [] slot raw = .ok v := value_eq_ok.2 h
  rw [value_eq_error htexts hnumber] at hvalue
  cases hvalue

/-- A token that addresses a parameter is misused if there is no such parameter, or no such value. -/
theorem misuses_iff (hnames : s.names.Nodup) (h : s.Addresses k token slot raw) :
    s.Misuses k token ↔ s.names.length ≤ slot ∨
      raw ≠ [] ∧ slot ∉ s.texts ∧ Numeral.parse? raw = none := by
  constructor
  · intro hmisuses
    rcases hmisuses with ⟨hnamed, hname, hunknown⟩ | ⟨h', hslot⟩ | ⟨h', hne, htexts, hnumber⟩
    · have heq := (address_of_unknown hnamed hname hunknown k _).symm.trans
        (address_of_addresses hnames h)
      cases heq
    · obtain ⟨rfl, rfl⟩ := h.unique hnames h'
      exact .inl hslot
    · obtain ⟨rfl, rfl⟩ := h.unique hnames h'
      exact .inr ⟨hne, htexts, hnumber⟩
  · rintro (hslot | ⟨hne, htexts, hnumber⟩)
    · exact .tooMany h hslot
    · exact .noNumber h hne htexts hnumber

/-- What becomes of the given values is told by what the token addresses. -/
theorem take_of_addresses (hnames : s.names.Nodup) {given : Given}
    (h : s.Addresses given.positional token slot raw) :
    s.take params given token =
      if s.names.length ≤ slot then .error (.tooManyParameters s.names.length params)
      else if raw = [] then
        .ok { given with positional := given.positional + [token].countP s.isPositional }
      else
        (s.value params slot raw).map fun v =>
          ⟨given.positional + [token].countP s.isPositional, given.values.set slot (some v)⟩ := by
  unfold take
  rw [address_of_addresses hnames h]
  show (if _ then _ else _ : Except Fault Given) = _
  by_cases hslot : s.names.length ≤ slot
  · rw [if_pos hslot, if_pos hslot]
    rfl
  · rw [if_neg hslot, if_neg hslot]
    cases raw with
    | nil => rfl
    | cons c raw =>
      show (s.value params slot (c :: raw) >>= _) = _
      cases s.value params slot (c :: raw) <;> rfl

/-! ## One token more -/

/-- What is in a list with one element more is in the list, or is the last. -/
theorem getElem?_concat_eq_some {α : Type} {xs : List α} {last x : α} :
    (xs ++ [last])[i]? = some x ↔ xs[i]? = some x ∨ i = xs.length ∧ x = last := by
  grind

/-- The last token stands behind the others, and they stand as before. -/
theorem tokenAt_append {token' : Text} :
    s.TokenAt (ts ++ [token]) i k token' ↔ s.TokenAt ts i k token' ∨
      i = ts.length ∧ k = ts.countP s.isPositional ∧ token' = token := by
  unfold TokenAt
  rw [getElem?_concat_eq_some]
  constructor
  · rintro ⟨htoken | ⟨rfl, rfl⟩, hk⟩
    · have hlt := (List.getElem?_eq_some_iff.1 htoken).1
      rw [List.take_append_of_le_length (Nat.le_of_lt hlt)] at hk
      exact .inl ⟨htoken, hk⟩
    · rw [List.take_left] at hk
      exact .inr ⟨rfl, hk.symm, rfl⟩
  · rintro (⟨htoken, hk⟩ | ⟨rfl, rfl, rfl⟩)
    · have hlt := (List.getElem?_eq_some_iff.1 htoken).1
      rw [List.take_append_of_le_length (Nat.le_of_lt hlt)]
      exact ⟨.inl htoken, hk⟩
    · rw [List.take_left]
      exact ⟨.inr ⟨rfl, rfl⟩, rfl⟩

/-- One more token gives what it addresses, behind all that came before. -/
theorem gives_append :
    s.Gives (ts ++ [token]) i slot raw ↔ s.Gives ts i slot raw ∨
      i = ts.length ∧ s.Addresses (ts.countP s.isPositional) token slot raw := by
  constructor
  · rintro ⟨k, token', htoken, haddresses⟩
    rcases tokenAt_append.1 htoken with htoken | ⟨rfl, rfl, rfl⟩
    · exact .inl ⟨k, token', htoken, haddresses⟩
    · exact .inr ⟨rfl, haddresses⟩
  · rintro (⟨k, token', htoken, haddresses⟩ | ⟨rfl, haddresses⟩)
    · exact ⟨k, token', tokenAt_append.2 (.inl htoken), haddresses⟩
    · exact ⟨_, token, tokenAt_append.2 (.inr ⟨rfl, rfl, rfl⟩), haddresses⟩

/-- One more token is misused on its own, whatever came before. -/
theorem misused_append :
    s.Misused (ts ++ [token]) ↔ s.Misused ts ∨ s.Misuses (ts.countP s.isPositional) token := by
  constructor
  · rintro ⟨i, k, token', htoken, hmisuses⟩
    rcases tokenAt_append.1 htoken with htoken | ⟨rfl, rfl, rfl⟩
    · exact .inl ⟨i, k, token', htoken, hmisuses⟩
    · exact .inr hmisuses
  · rintro (⟨i, k, token', htoken, hmisuses⟩ | hmisuses)
    · exact ⟨i, k, token', tokenAt_append.2 (.inl htoken), hmisuses⟩
    · exact ⟨_, _, token, tokenAt_append.2 (.inr ⟨rfl, rfl, rfl⟩), hmisuses⟩

theorem Gives.lt (h : s.Gives ts i slot raw) : i < ts.length := by
  obtain ⟨k, token, ⟨htoken, -⟩, -⟩ := h
  exact (List.getElem?_eq_some_iff.1 htoken).1

/-- Each token gives one value to one slot. -/
theorem Gives.unique (hnames : s.names.Nodup) {slot' : Nat} {raw' : Text}
    (h : s.Gives ts i slot raw) (h' : s.Gives ts i slot' raw') : slot' = slot ∧ raw' = raw := by
  obtain ⟨k, token, ⟨htoken, rfl⟩, haddresses⟩ := h
  obtain ⟨k', token', ⟨htoken', rfl⟩, haddresses'⟩ := h'
  rw [htoken] at htoken'
  cases htoken'
  exact haddresses.unique hnames haddresses'

/-- What was given last is so still if the next token does not give the parameter a value. -/
theorem LastGiven.append {given : Option Value} (h : s.LastGiven ts slot given)
    (hnext : ∀ raw, s.Addresses (ts.countP s.isPositional) token slot raw → raw = []) :
    s.LastGiven (ts ++ [token]) slot given := by
  cases given with
  | none =>
    intro i raw hgives
    rcases gives_append.1 hgives with hgives | ⟨-, haddresses⟩
    · exact h i raw hgives
    · exact hnext raw haddresses
  | some v =>
    obtain ⟨i, raw, hgives, hne, hmeans, hlast⟩ := h
    refine ⟨i, raw, gives_append.2 (.inl hgives), hne, hmeans, ?_⟩
    intro j raw' hgives' hne'
    rcases gives_append.1 hgives' with hgives' | ⟨-, haddresses⟩
    · exact hlast j raw' hgives' hne'
    · exact absurd (hnext raw' haddresses) hne'

/-- What the next token gives is given last. -/
theorem lastGiven_append {v : Value}
    (hnext : s.Addresses (ts.countP s.isPositional) token slot raw) (hne : raw ≠ [])
    (hmeans : s.Means slot raw v) : s.LastGiven (ts ++ [token]) slot (some v) := by
  refine ⟨ts.length, raw, gives_append.2 (.inr ⟨rfl, hnext⟩), hne, hmeans, ?_⟩
  intro j raw' h _
  have hlt := h.lt
  rw [List.length_append, List.length_singleton] at hlt
  omega

/-! ## All tokens -/

/-- The tokens are counted, and for each parameter there is the last value that they give. -/
structure Tells (s : Spec) (ts : List Text) (given : Given) : Prop where
  positional_eq : given.positional = ts.countP s.isPositional
  length_eq : given.values.length = s.names.length
  lastGiven : ∀ slot < s.names.length,
    ∃ value, given.values[slot]? = some value ∧ s.LastGiven ts slot value

theorem tells_nil (s : Spec) : s.Tells [] ⟨0, s.names.map fun _ => none⟩ where
  positional_eq := rfl
  length_eq := List.length_map _
  lastGiven slot hslot := by
    refine ⟨none, by simp [hslot], ?_⟩
    rintro i raw ⟨k, token, ⟨htoken, -⟩, -⟩
    cases htoken

section

variable {given : Given} (h : s.Tells ts given)
  (haddresses : s.Addresses (ts.countP s.isPositional) token slot raw)

include h

/-- The next token gives no value. -/
theorem Tells.append (hnext : ∀ slot raw,
      s.Addresses (ts.countP s.isPositional) token slot raw → raw = []) :
    s.Tells (ts ++ [token])
      { given with positional := given.positional + [token].countP s.isPositional } where
  positional_eq := by rw [List.countP_append, h.positional_eq]
  length_eq := h.length_eq
  lastGiven slot hslot := by
    obtain ⟨value, hvalue, hlast⟩ := h.lastGiven slot hslot
    exact ⟨value, hvalue, hlast.append (hnext slot)⟩

include haddresses

/-- The next token gives one of the parameters a value. -/
theorem Tells.append_set (hnames : s.names.Nodup) {v : Value} (hne : raw ≠ [])
    (hmeans : s.Means slot raw v) :
    s.Tells (ts ++ [token])
      ⟨given.positional + [token].countP s.isPositional, given.values.set slot (some v)⟩ where
  positional_eq := by rw [List.countP_append, h.positional_eq]
  length_eq := List.length_set.trans h.length_eq
  lastGiven place hplace := by
    by_cases heq : slot = place
    · subst heq
      refine ⟨some v, ?_, lastGiven_append haddresses hne hmeans⟩
      rw [List.getElem?_set_self (h.length_eq ▸ hplace)]
    · obtain ⟨value, hvalue, hlast⟩ := h.lastGiven place hplace
      refine ⟨value, ?_, hlast.append fun raw' haddresses' => ?_⟩
      · rw [List.getElem?_set_ne heq, hvalue]
      · exact absurd (haddresses.unique hnames haddresses').1.symm heq

end

/-- **A token is taken as it is meant, unless it is misused.** -/
theorem Tells.take (hnames : s.names.Nodup) {given : Given} (h : s.Tells ts given)
    (params token : Text) :
    (∃ next, s.take params given token = .ok next ∧ s.Tells (ts ++ [token]) next ∧
        ¬ s.Misuses (ts.countP s.isPositional) token) ∨
      (∃ fault, s.take params given token = .error fault) ∧
        s.Misuses (ts.countP s.isPositional) token := by
  have hcount := h.positional_eq
  rcases s.addresses_or_unknown given.positional token with ⟨slot, raw, haddresses⟩ | hunknown
  · have htake : s.take params given token = _ := take_of_addresses hnames haddresses
    rw [hcount] at haddresses
    rw [misuses_iff hnames haddresses]
    -- The token is misused if its slot is not there, or if the text means nothing for it.
    by_cases hslot : s.names.length ≤ slot
    · rw [if_pos hslot] at htake
      exact .inr ⟨⟨_, htake⟩, .inl hslot⟩
    · rw [if_neg hslot] at htake
      by_cases hempty : raw = []
      · rw [if_pos hempty] at htake
        refine .inl ⟨_, htake, h.append fun slot' raw' h' => ?_, by simp [hslot, hempty]⟩
        rw [(haddresses.unique hnames h').2, hempty]
      · rw [if_neg hempty] at htake
        rcases s.exists_means_or slot raw with ⟨v, hmeans⟩ | hbad
        · rw [value_eq_ok.2 hmeans] at htake
          refine .inl ⟨_, htake, h.append_set haddresses hnames hempty hmeans, ?_⟩
          rintro (hle | ⟨-, htexts, hnumber⟩)
          · exact hslot hle
          · exact hmeans.parse?_ne_none htexts hnumber
        · rw [value_eq_error hbad.1 hbad.2] at htake
          exact .inr ⟨⟨_, htake⟩, .inr ⟨hempty, hbad⟩⟩
  · obtain ⟨hnamed, name, raw, rfl, hname, hunknown⟩ := hunknown
    refine .inr ⟨⟨.unknownKeyword name, ?_⟩, .unknownName hnamed hname hunknown⟩
    unfold Spec.take
    rw [address_of_unknown hnamed hname hunknown]
    rfl

/-- **The tokens are taken as they are meant, unless one of them is misused.** -/
theorem foldlM_take (hnames : s.names.Nodup) (params : Text) (ts : List Text) :
    (∃ given, ts.foldlM (s.take params) ⟨0, s.names.map fun _ => none⟩ = .ok given ∧
        s.Tells ts given ∧ ¬ s.Misused ts) ∨
      (∃ fault, ts.foldlM (s.take params) ⟨0, s.names.map fun _ => none⟩ = .error fault) ∧
        s.Misused ts := by
  induction ts using List.reverseRecOn with
  | nil =>
    refine .inl ⟨_, rfl, s.tells_nil, ?_⟩
    rintro ⟨i, k, token, ⟨htoken, -⟩, -⟩
    cases htoken
  | append_singleton ts token ih =>
    rw [List.foldlM_append, misused_append]
    rcases ih with ⟨given, hgiven, htells, hgood⟩ | ⟨⟨fault, hfault⟩, hbad⟩
    · rw [hgiven]
      show (∃ next, [token].foldlM (s.take params) given = _ ∧ _) ∨
        (∃ fault, [token].foldlM (s.take params) given = _) ∧ _
      have htake : [token].foldlM (s.take params) given = s.take params given token := by
        rw [List.foldlM_cons]
        exact bind_pure _
      rw [htake]
      rcases htells.take hnames params token with ⟨next, hnext, htells, hgood'⟩ | ⟨hfault, hbad⟩
      · exact .inl ⟨next, hnext, htells, not_or.2 ⟨hgood, hgood'⟩⟩
      · exact .inr ⟨hfault, .inr hbad⟩
    · rw [hfault]
      exact .inr ⟨⟨fault, rfl⟩, .inl hbad⟩

/-! ## Values -/

/-- A parameter that has no default is not left out. -/
theorem fallback_of_lt (h : slot < s.required) : ∃ fault, s.fallback params slot = .error fault := by
  unfold fallback
  rw [if_neg (Nat.not_le_of_lt h)]
  cases s.named <;> exact ⟨_, rfl⟩

/-- What was given, or else the default. -/
def completed (s : Spec) : Option Value × Nat → Value
  | (value, slot) => value.getD (ofDefault (s.default? slot))

section

variable {values : List (Option Value)} {first : Nat}

/-- Values are completed by the defaults if those without a default were given. -/
theorem mapM_complete_eq_ok (h : ∀ k, values[k]? = some none → s.required ≤ first + k) :
    (values.zipIdx first).mapM (s.complete params) = .ok ((values.zipIdx first).map s.completed) := by
  induction values generalizing first with
  | nil => rfl
  | cons value values ih =>
    have hvalue : s.complete params (value, first) = .ok (s.completed (value, first)) := by
      cases value with
      | none => exact fallback_of_le (h 0 rfl)
      | some v => rfl
    have hrest := @ih (first + 1) fun k hk => by
      have hle := h (k + 1) hk
      omega
    rw [List.zipIdx_cons, List.mapM_cons, hvalue, hrest]
    rfl

/-- Values are not completed if one of them was not given and has no default. -/
theorem mapM_complete_eq_error (hnone : values[k]? = some none) (hlt : first + k < s.required) :
    ∃ fault, (values.zipIdx first).mapM (s.complete params) = .error fault := by
  cases hmap : (values.zipIdx first).mapM (s.complete params) with
  | error fault => exact ⟨fault, rfl⟩
  | ok own =>
    obtain ⟨hlength, hvalues⟩ := of_mapM_complete hmap
    have hk : k < own.length := hlength ▸ (List.getElem?_eq_some_iff.1 hnone).1
    obtain ⟨value, hvalue, hcomplete⟩ := hvalues k own[k] (List.getElem?_eq_getElem hk)
    rw [hnone] at hvalue
    cases hvalue
    obtain ⟨fault, hfault⟩ : ∃ fault, s.fallback params (first + k) = .error fault :=
      fallback_of_lt hlt
    have heq := hfault.symm.trans hcomplete
    cases heq

end

theorem getElem?_map_completed {values : List (Option Value)} {value : Option Value}
    (h : values[slot]? = some value) :
    (values.zipIdx.map s.completed)[slot]? = some (value.getD (ofDefault (s.default? slot))) := by
  rw [List.getElem?_map, List.getElem?_zipIdx, h, Nat.zero_add]
  rfl

/-- A parameter was given a value or not. -/
theorem LastGiven.unique_none {v : Value} (h : s.LastGiven ts slot (some v)) :
    ¬ s.LastGiven ts slot none := by
  intro hnone
  obtain ⟨i, raw, hgives, hne, -⟩ := h
  exact hne (hnone i raw hgives)

/-- What is missing is a value that was not given. -/
theorem Tells.missing_iff {given : Given} (h : s.Tells ts given) :
    s.Missing ts ↔ ∃ slot < s.required, given.values[slot]? = some none := by
  constructor
  · rintro ⟨slot, hslot, hnone⟩
    obtain ⟨value, hvalue, hlast⟩ := h.lastGiven slot (Nat.lt_of_lt_of_le hslot (Nat.sub_le _ _))
    cases value with
    | none => exact ⟨slot, hslot, hvalue⟩
    | some v => exact absurd hnone hlast.unique_none
  · rintro ⟨slot, hslot, hnone⟩
    obtain ⟨value, hvalue, hlast⟩ := h.lastGiven slot (Nat.lt_of_lt_of_le hslot (Nat.sub_le _ _))
    rw [hnone] at hvalue
    cases hvalue
    exact ⟨slot, hslot, hlast⟩

/-- The values of the parameters are the last that the tokens give, and the defaults of the others. -/
def Holds (s : Spec) (ts : List Text) (values : Values) : Prop :=
  values.length = s.names.length ∧
    ∀ slot < s.names.length, ∃ given, s.LastGiven ts slot given ∧
      values[slot]? = some (given.getD (ofDefault (s.default? slot)))

/-- **A parameter string is read unless a token is misused or a parameter is missing.** -/
theorem get_cases (hnames : s.names.Nodup) (params : Text) :
    (∃ values, s.get params = .ok values ∧ s.Holds (tokens params) values ∧
        ¬ (s.Misused (tokens params) ∨ s.Missing (tokens params))) ∨
      (∃ fault, s.get params = .error fault) ∧
        (s.Misused (tokens params) ∨ s.Missing (tokens params)) := by
  unfold get
  rcases foldlM_take hnames params (tokens params) with ⟨given, hgiven, htells, hgood⟩ | hbad
  · rw [hgiven, htells.missing_iff]
    show (∃ values, given.values.zipIdx.mapM (s.complete params) = _ ∧ _) ∨
      (∃ fault, given.values.zipIdx.mapM (s.complete params) = _) ∧ _
    -- All tokens are in their slots. What is left is whether a required one is empty.
    by_cases hmissing : ∃ slot < s.required, given.values[slot]? = some none
    · obtain ⟨slot, hslot, hnone⟩ := hmissing
      have herror : ∃ fault, given.values.zipIdx.mapM (s.complete params) = .error fault :=
        mapM_complete_eq_error hnone (by omega)
      exact .inr ⟨herror, .inr ⟨slot, hslot, hnone⟩⟩
    · have hle : ∀ k, given.values[k]? = some none → s.required ≤ 0 + k := by
        intro k hk
        rw [Nat.zero_add]
        exact Nat.le_of_not_lt fun hlt => hmissing ⟨k, hlt, hk⟩
      refine .inl ⟨_, mapM_complete_eq_ok hle, ⟨?_, ?_⟩, not_or.2 ⟨hgood, hmissing⟩⟩
      · rw [List.length_map, List.length_zipIdx, htells.length_eq]
      · intro slot hslot
        obtain ⟨value, hvalue, hlast⟩ := htells.lastGiven slot hslot
        exact ⟨value, hlast, getElem?_map_completed hvalue⟩
  · obtain ⟨⟨fault, hfault⟩, hbad⟩ := hbad
    rw [hfault]
    exact .inr ⟨⟨fault, rfl⟩, .inl hbad⟩

/-! ## Tokens in another order -/

/-- One of the tokens addresses the parameter at `slot` with the value `raw`. -/
def Offers (s : Spec) (ts : List Text) (slot : Nat) (raw : Text) : Prop :=
  ∃ i, s.Gives ts i slot raw

/-- The tokens are the same, and those without a name are in the same order. -/
structure Moves (s : Spec) (ts ts' : List Text) : Prop where
  perm : ts.Perm ts'
  order : ts.filter s.isPositional = ts'.filter s.isPositional

/-- No parameter is given two values. -/
def Once (s : Spec) (ts : List Text) : Prop :=
  ∀ slot i j raw raw', s.Gives ts i slot raw → raw ≠ [] → s.Gives ts j slot raw' → raw' ≠ [] → i = j

theorem Moves.symm {ts' : List Text} (h : s.Moves ts ts') : s.Moves ts' ts where
  perm := h.perm.symm
  order := h.order.symm

/-- The tokens without a name are numbered in their order. -/
theorem getElem?_filter_isPositional :
    (ts.filter s.isPositional)[k]? = some token ↔
      s.isPositional token = true ∧ ∃ i, s.TokenAt ts i k token := by
  -- From the last token, since a token is told by how many are in front of it.
  induction ts using List.reverseRecOn with
  | nil => simp [TokenAt]
  | append_singleton ts last ih =>
    have hlength : (ts.filter s.isPositional).length = ts.countP s.isPositional :=
      List.countP_eq_length_filter.symm
    simp only [tokenAt_append, List.filter_append, exists_or]
    by_cases hlast : s.isPositional last = true
    · -- The last token has the number of the others.
      rw [List.filter_cons_of_pos hlast, List.filter_nil, getElem?_concat_eq_some, ih, hlength]
      constructor
      · rintro (⟨hpositional, htoken⟩ | ⟨rfl, rfl⟩)
        · exact ⟨hpositional, .inl htoken⟩
        · exact ⟨hlast, .inr ⟨_, rfl, rfl, rfl⟩⟩
      · rintro ⟨hpositional, htoken | ⟨-, -, rfl, rfl⟩⟩
        · exact .inl ⟨hpositional, htoken⟩
        · exact .inr ⟨rfl, rfl⟩
    · rw [List.filter_cons_of_neg hlast, List.filter_nil, List.append_nil, ih]
      constructor
      · exact And.imp_right .inl
      · rintro ⟨hpositional, htoken | ⟨-, -, -, rfl⟩⟩
        · exact ⟨hpositional, htoken⟩
        · exact absurd hpositional hlast

/-- What is offered are the tokens without a name by their number, and the values behind names. -/
theorem offers_iff :
    s.Offers ts slot raw ↔ (ts.filter s.isPositional)[slot]? = some raw ∨
      ∃ name, name ++ '=' :: raw ∈ ts ∧ s.named = true ∧ '=' ∉ name ∧
        s.names[slot]? = some name := by
  constructor
  · rintro ⟨i, k, token, htoken, hpositional | ⟨hnamed, hname, hslot⟩⟩
    · exact .inl (getElem?_filter_isPositional.2 ⟨hpositional, i, htoken⟩)
    · exact .inr ⟨_, List.mem_of_getElem? htoken.1, hnamed, hname, hslot⟩
  · rintro (hfilter | ⟨name, hmem, hnamed, hname, hslot⟩)
    · obtain ⟨hpositional, i, htoken⟩ := getElem?_filter_isPositional.1 hfilter
      exact ⟨i, slot, raw, htoken, .inOrder hpositional⟩
    · obtain ⟨i, hi⟩ := List.mem_iff_getElem?.1 hmem
      exact ⟨i, _, _, ⟨hi, rfl⟩, .byName hnamed hname hslot⟩

/-- Tokens are misused by an unknown name, by a slot that is not there, or by a number that is
none. -/
theorem misused_iff :
    s.Misused ts ↔
      (∃ name raw, name ++ '=' :: raw ∈ ts ∧ s.named = true ∧ '=' ∉ name ∧ name ∉ s.names) ∨
        ∃ slot raw, s.Offers ts slot raw ∧ (s.names.length ≤ slot ∨
          raw ≠ [] ∧ slot ∉ s.texts ∧ Numeral.parse? raw = none) := by
  constructor
  · rintro ⟨i, k, token, htoken, ⟨hnamed, hname, hunknown⟩ | ⟨h, hslot⟩ | ⟨h, hbad⟩⟩
    · exact .inl ⟨_, _, List.mem_of_getElem? htoken.1, hnamed, hname, hunknown⟩
    · exact .inr ⟨_, _, ⟨i, k, token, htoken, h⟩, .inl hslot⟩
    · exact .inr ⟨_, _, ⟨i, k, token, htoken, h⟩, .inr ⟨hbad, ‹_›, ‹_›⟩⟩
  · rintro (⟨name, raw, hmem, hnamed, hname, hunknown⟩ | ⟨slot, raw, ⟨i, k, token, htoken, h⟩, hbad⟩)
    · obtain ⟨i, hi⟩ := List.mem_iff_getElem?.1 hmem
      exact ⟨i, _, _, ⟨hi, rfl⟩, .unknownName hnamed hname hunknown⟩
    · rcases hbad with hslot | ⟨hne, htexts, hnumber⟩
      · exact ⟨i, k, token, htoken, .tooMany h hslot⟩
      · exact ⟨i, k, token, htoken, .noNumber h hne htexts hnumber⟩

section

variable {ts' : List Text} (h : s.Moves ts ts')

include h

/-- Tokens that are moved offer what they did. -/
theorem Moves.offers (hoffers : s.Offers ts slot raw) : s.Offers ts' slot raw := by
  rw [offers_iff, ← h.order]
  refine (offers_iff.1 hoffers).imp_right ?_
  rintro ⟨name, hmem, hname⟩
  exact ⟨name, h.perm.mem_iff.1 hmem, hname⟩

theorem Moves.misused (hmisused : s.Misused ts) : s.Misused ts' := by
  refine misused_iff.2 ((misused_iff.1 hmisused).imp ?_ ?_)
  · rintro ⟨name, raw, hmem, hname⟩
    exact ⟨name, raw, h.perm.mem_iff.1 hmem, hname⟩
  · rintro ⟨slot, raw, hoffers, hbad⟩
    exact ⟨slot, raw, h.offers hoffers, hbad⟩

theorem Moves.lastGiven_none (hnone : s.LastGiven ts slot none) : s.LastGiven ts' slot none := by
  intro i raw hgives
  obtain ⟨j, hj⟩ := h.symm.offers ⟨i, hgives⟩
  exact hnone j raw hj

/-- A parameter that is missing is not supplied by moving tokens. -/
theorem Moves.missing (hmissing : s.Missing ts) : s.Missing ts' := by
  obtain ⟨slot, hslot, hnone⟩ := hmissing
  exact ⟨slot, hslot, h.lastGiven_none hnone⟩

/-- The last value is the only one if no parameter is given two. -/
theorem Moves.lastGiven_eq (hnames : s.names.Nodup) (honce : s.Once ts) {given given' : Option Value}
    (hlast : s.LastGiven ts slot given) (hlast' : s.LastGiven ts' slot given') :
    given' = given := by
  cases given with
  | none =>
    cases given' with
    | none => rfl
    | some v' => exact absurd (h.lastGiven_none hlast) hlast'.unique_none
  | some v =>
    cases given' with
    | none => exact absurd (h.symm.lastGiven_none hlast') hlast.unique_none
    | some v' =>
      obtain ⟨i, raw, hgives, hne, hmeans, -⟩ := hlast
      obtain ⟨i', raw', hgives', hne', hmeans', -⟩ := hlast'
      obtain ⟨j, hj⟩ := h.symm.offers ⟨i', hgives'⟩
      obtain rfl := honce slot i j raw raw' hgives hne hj hne'
      obtain ⟨-, rfl⟩ := hgives.unique hnames hj
      exact congrArg some (hmeans'.unique hmeans)

/-- **Moving tokens does not change the values, if each slot is given once.** -/
theorem Moves.values_eq (hnames : s.names.Nodup) (honce : s.Once ts) {values values' : Values}
    (hholds : s.Holds ts values) (hholds' : s.Holds ts' values') : values' = values := by
  refine List.ext_getElem? fun slot => ?_
  by_cases hslot : slot < s.names.length
  · obtain ⟨given, hlast, hvalue⟩ := hholds.2 slot hslot
    obtain ⟨given', hlast', hvalue'⟩ := hholds'.2 slot hslot
    rw [hvalue, hvalue', h.lastGiven_eq hnames honce hlast hlast']
  · rw [List.getElem?_eq_none (hholds'.1 ▸ Nat.le_of_not_lt hslot),
      List.getElem?_eq_none (hholds.1 ▸ Nat.le_of_not_lt hslot)]

end

/-- **A parameter string gives the last values of its tokens.**  Where names are different, reading
fails exactly if a name is unknown, there are too many tokens without a name, a value is no number
where one is needed, or a parameter without a default is given no value.  Else there is one value for
each parameter: the last that it was given and is not empty, or its default.  So if no parameter is
given two values, tokens with names can be moved to other places, and reading succeeds as before and
gives the same values. -/
theorem get_given {s : Spec} (hnames : s.names.Nodup) (params : Text) :
    ((∃ fault, s.get params = .error fault) ↔
      s.Misused (tokens params) ∨ s.Missing (tokens params)) ∧
    (∀ values, s.get params = .ok values → s.Holds (tokens params) values) ∧
    (s.Once (tokens params) → ∀ params', s.Moves (tokens params) (tokens params') →
      (s.get params').toOption = (s.get params).toOption) := by
  have hcases := get_cases hnames params
  refine ⟨?_, ?_, ?_⟩
  · rcases hcases with ⟨values, hget, -, hgood⟩ | ⟨hfault, hbad⟩
    · rw [hget]
      simp [hgood]
    · exact iff_of_true hfault hbad
  · intro values hget
    rcases hcases with ⟨values', hget', hholds, -⟩ | ⟨⟨fault, hfault⟩, -⟩
    · rw [hget] at hget'
      cases hget'
      exact hholds
    · rw [hget] at hfault
      cases hfault
  · intro honce params' hmoves
    rcases hcases with ⟨values, hget, hholds, hgood⟩ | ⟨⟨fault, hfault⟩, hbad⟩
    · rcases get_cases hnames params' with ⟨values', hget', hholds', -⟩ | ⟨-, hbad⟩
      · rw [hget, hget', hmoves.values_eq hnames honce hholds hholds']
      · exact absurd (hbad.imp hmoves.symm.misused hmoves.symm.missing) hgood
    · rcases get_cases hnames params' with ⟨values', -, -, hgood⟩ | ⟨⟨fault', hfault'⟩, -⟩
      · exact absurd (hbad.imp hmoves.misused hmoves.missing) hgood
      · rw [hfault, hfault']
        rfl

/-- The parameter that the token at place `i` addresses. -/
def slotAt? (s : Spec) (ts : List Text) (i : Nat) : Option Nat :=
  (ts[i]?).bind fun token =>
    (s.address ((ts.take i).countP s.isPositional) token).toOption.map (·.1)

/-- No parameter is given two values if no two tokens address the same. -/
theorem once_of_slotAt? (hnames : s.names.Nodup)
    (h : ∀ i < ts.length, ∀ j < ts.length, s.slotAt? ts i = s.slotAt? ts j → i = j) : s.Once ts := by
  have hslot : ∀ i slot raw, s.Gives ts i slot raw → s.slotAt? ts i = some slot := by
    rintro i slot raw ⟨k, token, ⟨htoken, rfl⟩, haddresses⟩
    rw [slotAt?, htoken, Option.bind_some, address_of_addresses hnames haddresses]
    rfl
  intro slot i j raw raw' hgives _ hgives' _
  exact h i hgives.lt j hgives'.lt ((hslot i slot raw hgives).trans (hslot j slot raw' hgives').symm)

/-- Parameters for the place and the height of a picture. -/
def placeSpec : Spec where
  names := ["x".toList, "y".toList, "height".toList]
  defaults := [some 7]
  named := true

/-- An empty value with a name may stand in front of the others or behind them. -/
theorem get_given_moved :
    placeSpec.names.Nodup ∧ placeSpec.Once (tokens "height=,1,y=$20") ∧
      placeSpec.Moves (tokens "height=,1,y=$20") (tokens "1,y=$20,height=") ∧
      placeSpec.Holds (tokens "height=,1,y=$20") [.number 1, .number 32, .number 7] ∧
      ¬ (placeSpec.Misused (tokens "height=,1,y=$20") ∨ placeSpec.Missing (tokens "height=,1,y=$20")) ∧
      (placeSpec.get "1,y=$20,height=").toOption = some [.number 1, .number 32, .number 7] := by
  have hnames : placeSpec.names.Nodup := by decide
  have hget : placeSpec.get "height=,1,y=$20" = .ok [.number 1, .number 32, .number 7] := by rfl
  have honce : placeSpec.Once (tokens "height=,1,y=$20") := once_of_slotAt? hnames (by decide)
  have hmoves : placeSpec.Moves (tokens "height=,1,y=$20") (tokens "1,y=$20,height=") :=
    ⟨by decide, by decide⟩
  obtain ⟨hfails, hholds, hsame⟩ := get_given hnames "height=,1,y=$20"
  refine ⟨hnames, honce, hmoves, hholds _ hget, fun hbad => ?_, ?_⟩
  · obtain ⟨fault, hfault⟩ := hfails.2 hbad
    rw [hget] at hfault
    cases hfault
  · rw [hsame honce _ hmoves, hget]
    rfl

end Spec

end MemoryDoc.Parameter
