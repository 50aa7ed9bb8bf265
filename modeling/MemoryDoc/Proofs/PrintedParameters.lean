/-
# Parameters that are printed

Parameters are printed as numerals between commas, the first of them in their order and further ones
by name, with a cropping rectangle in braces and a file name in brackets behind them.  The letters of
names are digits too, and where the parameters end is told by what follows.

Main statement: what is printed is read back, and nothing of what follows (`read_printed`).
-/
import MemoryDoc.Proofs.Bytewise.Parameters
import MemoryDoc.Proofs.GivenParameters
import MemoryDoc.Text.Bracket
import MemoryDoc.Text.Digits

namespace MemoryDoc

namespace Parameter

/-- All parameters are numbers, and their names are different words of small letters. -/
structure Spec.Plain (s : Spec) : Prop where
  texts_eq : s.texts = []
  nodup_names : s.names.Nodup
  isLower : ∀ name ∈ s.names, ∀ c ∈ name, c.isLower = true

/-- The names of a spec are checked letter by letter. -/
theorem Spec.isLower_of_all {s : Spec}
    (h : (s.names.all fun name => name.all fun c => c.isLower) = true) :
    ∀ name ∈ s.names, ∀ c ∈ name, c.isLower = true :=
  fun name hname => List.all_eq_true.1 (List.all_eq_true.1 h name hname)

/-- Numbers that are given for parameters: those of the first in their order, and those of some of
the others by name.  Nothing is given twice, and what has no default is given. -/
structure Arguments (s : Spec) where
  first : List Numeral.Written
  named : List (Nat × Numeral.Written)
  required_le : s.required ≤ first.length
  length_le : first.length ≤ s.names.length
  named_of_ne_nil : named ≠ [] → s.named = true
  slot_ge : ∀ arg ∈ named, first.length ≤ arg.1
  slot_lt : ∀ arg ∈ named, arg.1 < s.names.length
  nodup_slots : (named.map (·.1)).Nodup

namespace Arguments

variable {s : Spec} (args : Arguments s)

/-- What a numeral gives to a parameter. -/
def given (n : Numeral.Written) : Option Value :=
  some (.number n.number)

/-- The token of an argument that is given by name. -/
def namedToken (s : Spec) (arg : Nat × Numeral.Written) : Text :=
  s.names.getD arg.1 [] ++ '=' :: arg.2.text

/-- The tokens of the arguments. -/
def tokens : List Text :=
  args.first.map (·.text) ++ args.named.map (namedToken s)

/-- The arguments as they are printed. -/
def text : Text :=
  Text.join "," args.tokens

/-- The number that is given for the parameter at a place. -/
def given? (slot : Nat) : Option UInt32 :=
  ((args.first[slot]?).or (args.named.lookup slot)).map (·.number)

/-- The values of all parameters: the numbers that are given, and the defaults of the others. -/
def values : Values :=
  (List.range s.names.length).map fun slot =>
    match args.given? slot with
    | some n => .number n
    | none => Spec.ofDefault (s.default? slot)

end Arguments

/-! ## Tokens -/

namespace Spec

variable {s : Spec} {params : Text}

/-- A numeral is read as its number, in every slot that takes numbers. -/
theorem value_numeral (hs : s.Plain) (n : Numeral.Written) (slot : Nat) :
    s.value params slot n.text = .ok (.number n.number) := by
  rw [value, hs.texts_eq, if_neg List.not_mem_nil, Numeral.parse?_of_writes n.writes]

/-- A token gives the number that is written in it to the parameter that it addresses. -/
theorem take_numeral (hs : s.Plain) {given : Given} {token : Text} {slot : Nat}
    {n : Numeral.Written} (hslot : slot < s.names.length)
    (h : s.Addresses given.positional token slot n.text) :
    s.take params given token =
      .ok ⟨given.positional + [token].countP s.isPositional,
        given.values.set slot (some (.number n.number))⟩ := by
  rw [take_of_addresses hs.nodup_names h, if_neg (Nat.not_le_of_lt hslot), if_neg n.text_ne_nil,
    value_numeral hs]
  rfl

/-- A numeral is the value of the next parameter. -/
theorem isPositional_numeral (n : Numeral.Written) : s.isPositional n.text = true := by
  have hequals : '=' ∉ n.text := n.not_mem_text (by decide)
  simp [isPositional, hequals]

/-- A numeral behind a name is the value of the parameter of that name. -/
theorem addresses_namedToken (hs : s.Plain) (hnamed : s.named = true) {slot : Nat}
    (hslot : slot < s.names.length) (n : Numeral.Written) (k : Nat) :
    s.Addresses k (Arguments.namedToken s (slot, n)) slot n.text := by
  have hname : s.names.getD slot [] = s.names[slot] := by
    rw [List.getD_eq_getElem?_getD, List.getElem?_eq_getElem hslot]
    rfl
  have hequals : '=' ∉ s.names[slot] := fun hmem =>
    absurd (hs.isLower _ (List.getElem_mem hslot) '=' hmem) (by decide)
  rw [Arguments.namedToken, hname]
  exact .byName hnamed hequals (List.getElem?_eq_getElem hslot)

/-! ## All tokens -/

/-- The first tokens are the values of the first parameters. -/
theorem foldlM_first (hs : s.Plain) (params : Text) (first done : List Numeral.Written)
    (left : Nat) (hlength : done.length + left = s.names.length) (hleft : first.length ≤ left) :
    (first.map (·.text)).foldlM (s.take params)
        ⟨done.length, done.map Arguments.given ++ List.replicate left none⟩ =
      .ok ⟨(done ++ first).length, (done ++ first).map Arguments.given ++
        List.replicate (left - first.length) none⟩ := by
  induction first generalizing done left with
  | nil => simp; rfl
  | cons n first ih =>
    rw [List.length_cons] at hleft
    obtain ⟨left, rfl⟩ : ∃ k, left = k + 1 := ⟨left - 1, by omega⟩
    have hslot : done.length < s.names.length := by omega
    have hset : (done.map Arguments.given ++ List.replicate (left + 1) none).set done.length
        (some (.number n.number)) =
          (done ++ [n]).map Arguments.given ++ List.replicate left none := by
      simp [List.replicate_succ, Arguments.given]
    have hnext := ih (done ++ [n]) left (by simp; omega) (by omega)
    have hcount : [n.text].countP s.isPositional = 1 := by simp [isPositional_numeral]
    rw [List.map_cons, List.foldlM_cons, take_numeral hs hslot (.inOrder (isPositional_numeral n))]
    show (first.map (·.text)).foldlM (s.take params) ⟨done.length + _, _⟩ = _
    rw [hset, hcount]
    simpa using hnext

/-- A token with a name gives its number to the parameter of that name and leaves the others. -/
theorem foldlM_named (hs : s.Plain) (hnamed : s.named = true)
    (named : List (Nat × Numeral.Written)) (hlt : ∀ arg ∈ named, arg.1 < s.names.length)
    (k : Nat) (values : List (Option Value)) :
    (named.map (Arguments.namedToken s)).foldlM (s.take params) ⟨k, values⟩ =
      .ok ⟨k, named.foldl (fun values arg => values.set arg.1 (Arguments.given arg.2)) values⟩ := by
  induction named generalizing values with
  | nil => rfl
  | cons arg named ih =>
    have hslot := hlt arg List.mem_cons_self
    have hcount : [Arguments.namedToken s arg].countP s.isPositional = 0 := by
      simp [Arguments.namedToken, isPositional_name hnamed]
    rw [List.map_cons, List.foldlM_cons,
      take_numeral hs hslot (addresses_namedToken hs hnamed hslot arg.2 k), hcount]
    exact ih (fun arg harg => hlt arg (List.mem_cons_of_mem _ harg)) _

/-- **Values that are set one after the other do not get into each other's way**, as long as each
has a slot of its own. -/
theorem getElem?_foldl_set {named : List (Nat × Numeral.Written)}
    (hnodup : (named.map (·.1)).Nodup) (values : List (Option Value))
    (hlt : ∀ arg ∈ named, arg.1 < values.length) (slot : Nat) :
    (named.foldl (fun values arg => values.set arg.1 (Arguments.given arg.2)) values)[slot]? =
      match named.lookup slot with
      | some n => some (Arguments.given n)
      | none => values[slot]? := by
  induction named generalizing values with
  | nil => rfl
  | cons arg named ih =>
    obtain ⟨first, n⟩ := arg
    rw [List.map_cons, List.nodup_cons] at hnodup
    have hstep := ih hnodup.2 (values.set first (Arguments.given n))
      (fun arg harg => by
        rw [List.length_set]
        exact hlt arg (List.mem_cons_of_mem _ harg))
    rw [List.foldl_cons, hstep, List.lookup_cons]
    -- The first value could be lost only to one that comes later for the same slot.
    by_cases hslot : slot = first
    · -- The parameter is not given again.
      subst hslot
      have hnone : named.lookup slot = none := by
        refine List.lookup_eq_none_iff.2 fun arg harg => bne_iff_ne.2 fun heq => ?_
        exact hnodup.1 (List.mem_map.2 ⟨arg, harg, heq.symm⟩)
      rw [hnone]
      simp [hlt (slot, n) List.mem_cons_self]
    · have hne : (slot == first) = false := beq_eq_false_iff_ne.2 hslot
      rw [hne, List.getElem?_set_ne (Ne.symm hslot)]

end Spec

namespace Arguments

variable {s : Spec} {args : Arguments s}

/-- What the tokens without a name give. -/
def ofFirst (args : Arguments s) : List (Option Value) :=
  args.first.map given ++ List.replicate (s.names.length - args.first.length) none

/-- What all tokens give. -/
def ofTokens (args : Arguments s) : List (Option Value) :=
  args.named.foldl (fun values arg => values.set arg.1 (given arg.2)) args.ofFirst

/-- The tokens of arguments are taken as they are printed, first those without names. -/
theorem foldlM_tokens (hs : s.Plain) (params : Text) :
    args.tokens.foldlM (s.take params) ⟨0, s.names.map fun _ => none⟩ =
      .ok ⟨args.first.length, args.ofTokens⟩ := by
  have hfirst := Spec.foldlM_first hs params args.first [] s.names.length
    (Nat.zero_add _) args.length_le
  rw [List.map_nil, List.nil_append, List.nil_append, List.length_nil] at hfirst
  rw [tokens, List.foldlM_append, List.map_const', hfirst]
  by_cases hnone : args.named = []
  · rw [ofTokens, hnone]
    rfl
  · exact Spec.foldlM_named hs (args.named_of_ne_nil hnone) args.named args.slot_lt _ _

theorem length_ofFirst : args.ofFirst.length = s.names.length := by
  have hle := args.length_le
  simp only [ofFirst, List.length_append, List.length_map, List.length_replicate]
  omega

theorem length_ofTokens : args.ofTokens.length = s.names.length := by
  have hlength (named : List (Nat × Numeral.Written)) (values : List (Option Value)) :
      (named.foldl (fun values arg => values.set arg.1 (given arg.2)) values).length =
        values.length := by
    induction named generalizing values with
    | nil => rfl
    | cons arg named ih => rw [List.foldl_cons, ih, List.length_set]
  rw [ofTokens, hlength, length_ofFirst]

/-- The arguments without names fill the first slots. -/
theorem getElem?_ofFirst {slot : Nat} (hslot : slot < s.names.length) :
    args.ofFirst[slot]? = some (args.first[slot]?.bind given) := by
  unfold ofFirst
  by_cases hfirst : slot < args.first.length
  · rw [List.getElem?_append_left (by simpa using hfirst), List.getElem?_map,
      List.getElem?_eq_getElem hfirst]
    rfl
  · rw [List.getElem?_append_right (by simpa using hfirst), List.length_map,
      List.getElem?_replicate_of_lt (by omega), List.getElem?_eq_none (Nat.le_of_not_lt hfirst)]
    rfl

/-- The first parameters are not given by name. -/
theorem lookup_of_lt {slot : Nat} (h : slot < args.first.length) : args.named.lookup slot = none := by
  refine List.lookup_eq_none_iff.2 fun arg harg => bne_iff_ne.2 fun heq => ?_
  have hge := args.slot_ge arg harg
  omega

/-- **Each parameter is given its own number,** if it is given one. -/
theorem getElem?_ofTokens {slot : Nat} (hslot : slot < s.names.length) :
    args.ofTokens[slot]? = some ((args.given? slot).map .number) := by
  have hlt : ∀ arg ∈ args.named, arg.1 < args.ofFirst.length :=
    fun arg harg => length_ofFirst ▸ args.slot_lt arg harg
  rw [ofTokens, Spec.getElem?_foldl_set args.nodup_slots _ hlt, getElem?_ofFirst hslot, given?]
  cases hnamed : args.named.lookup slot with
  | none =>
    rw [Option.or_none]
    cases args.first[slot]? <;> rfl
  | some n =>
    have hfirst : args.first[slot]? = none := by
      refine List.getElem?_eq_none (Nat.le_of_not_lt fun hlt => ?_)
      rw [lookup_of_lt hlt] at hnamed
      cases hnamed
    rw [hfirst]
    rfl

/-- A parameter that is not given may be left out. -/
theorem required_le_of_given? {slot : Nat} (h : args.given? slot = none) : s.required ≤ slot := by
  have hfirst : args.first[slot]? = none := (Option.or_eq_none_iff.1 (Option.map_eq_none_iff.1 h)).1
  exact Nat.le_trans args.required_le (List.getElem?_eq_none_iff.1 hfirst)

/-- What is not given is the default. -/
theorem mapM_complete_ofTokens (params : Text) :
    args.ofTokens.zipIdx.mapM (s.complete params) = .ok args.values := by
  have hgiven (slot : Nat) (h : args.ofTokens[slot]? = some none) : s.required ≤ 0 + slot := by
    have hslot : slot < s.names.length := length_ofTokens ▸ (List.getElem?_eq_some_iff.1 h).1
    rw [getElem?_ofTokens hslot, Option.some.injEq, Option.map_eq_none_iff] at h
    rw [Nat.zero_add]
    exact required_le_of_given? h
  rw [Spec.mapM_complete_eq_ok hgiven]
  refine congrArg Except.ok (List.ext_getElem? fun slot => ?_)
  by_cases hslot : slot < s.names.length
  · rw [Spec.getElem?_map_completed (getElem?_ofTokens hslot), values, List.getElem?_map,
      List.getElem?_range hslot, Option.map_some]
    cases args.given? slot <;> rfl
  · have hlength : args.ofTokens.length ≤ slot := length_ofTokens ▸ Nat.le_of_not_lt hslot
    rw [List.getElem?_eq_none (by simpa using hlength),
      List.getElem?_eq_none (by simpa [values] using hslot)]

/-- The characters that tokens are written with. -/
theorem mem_tokens (hs : s.Plain) {token : Text} (htoken : token ∈ args.tokens) {c : Char}
    (hc : c ∈ token) :
    (c = '$' ∨ Numeral.isHexDigit c = true) ∨ s.named = true ∧ (c = '=' ∨ c.isLower = true) := by
  rcases List.mem_append.1 htoken with hfirst | hnamed
  · obtain ⟨n, -, rfl⟩ := List.mem_map.1 hfirst
    exact .inl (n.mem_text hc)
  · obtain ⟨arg, harg, rfl⟩ := List.mem_map.1 hnamed
    have hnamed : s.named = true := args.named_of_ne_nil (List.ne_nil_of_mem harg)
    have hname : s.names.getD arg.1 [] ∈ s.names := by
      rw [List.getD_eq_getElem?_getD, List.getElem?_eq_getElem (args.slot_lt arg harg)]
      exact List.getElem_mem _
    rcases List.mem_append.1 hc with hc | hc
    · exact .inr ⟨hnamed, .inr (hs.isLower _ hname c hc)⟩
    · rcases List.mem_cons.1 hc with rfl | hc
      · exact .inr ⟨hnamed, .inl rfl⟩
      · exact .inl (arg.2.mem_text hc)

theorem token_ne_nil {token : Text} (htoken : token ∈ args.tokens) : token ≠ [] := by
  rcases List.mem_append.1 htoken with hfirst | hnamed
  · obtain ⟨n, -, rfl⟩ := List.mem_map.1 hfirst
    exact n.text_ne_nil
  · obtain ⟨arg, -, rfl⟩ := List.mem_map.1 hnamed
    exact List.append_ne_nil_of_right_ne_nil _ nofun

/-- The tokens are those between the commas. -/
theorem tokens_text (hs : s.Plain) : Parameter.tokens args.text = args.tokens := by
  have hcomma : ∀ token ∈ args.tokens, ',' ∉ token := by
    intro token htoken hc
    rcases mem_tokens hs htoken hc with h | ⟨-, h⟩
    · exact absurd h (by decide)
    · exact absurd h (by decide)
  unfold Parameter.tokens
  by_cases hnone : args.tokens = []
  · rw [text, hnone]
    rfl
  · have htext : args.text ≠ [] := by
      obtain ⟨token, htoken⟩ := List.exists_mem_of_ne_nil _ hnone
      obtain ⟨c, hc⟩ := List.exists_mem_of_ne_nil _ (token_ne_nil htoken)
      exact List.ne_nil_of_mem (Text.subset_join htoken hc)
    rw [if_neg (by simpa using htext)]
    exact List.splitOn_intercalate ',' hcomma hnone

/-- **Arguments have the values that are written,** and the defaults. -/
theorem get_text (hs : s.Plain) : s.get args.text = .ok args.values := by
  unfold Spec.get
  rw [tokens_text hs, foldlM_tokens hs]
  exact mapM_complete_ofTokens _

/-- What holds of the first 128 characters, one by one, holds of a character that is one of them. -/
theorem of_forall_ascii {P : Char → Prop} (h : ∀ n : Fin 128, P (Char.ofNat n)) {c : Char}
    (hc : c.toNat < 128) : P c := by
  have hofNat : Char.ofNat c.toNat = c := Char.ofNat_toNat c
  exact hofNat ▸ h ⟨c.toNat, hc⟩

/-- A lower case letter is an ASCII character. -/
theorem toNat_lt_of_isLower {c : Char} (h : c.isLower = true) : c.toNat < 128 := by
  have hval : c.toNat = c.val.toNat := rfl
  have hz : ('z'.val).toNat = 122 := rfl
  have hboth : (decide (c.val ≥ 'a'.val) && decide (c.val ≤ 'z'.val)) = true := h
  have hle : c.val ≤ 'z'.val := of_decide_eq_true (Bool.and_eq_true_iff.1 hboth).2
  rw [UInt32.le_iff_toNat_le] at hle
  omega

/-- Numerals and the commas between them are written with the characters of numbers. -/
theorem contains_numberChars {c : Char} (h : c = ',' ∨ c = '$' ∨ Numeral.isHexDigit c = true) :
    Spec.numberChars.contains c = true := by
  have hascii : c.toNat < 128 := by
    rcases h with rfl | rfl | h
    · decide
    · decide
    · exact Numeral.toNat_lt_of_isHexDigit h
  revert h
  refine of_forall_ascii (P := fun c => c = ',' ∨ c = '$' ∨ Numeral.isHexDigit c = true →
    Spec.numberChars.contains c = true) ?_ hascii
  decide +kernel

/-- The letters of names are characters of numbers or of names. -/
theorem contains_nameChars {c : Char} (h : c = '=' ∨ c.isLower = true) :
    Spec.numberChars.contains c = true ∨ Spec.nameChars.contains c = true := by
  have hascii : c.toNat < 128 := by
    rcases h with rfl | h
    · decide
    · exact toNat_lt_of_isLower h
  revert h
  refine of_forall_ascii (P := fun c => c = '=' ∨ c.isLower = true →
    Spec.numberChars.contains c = true ∨ Spec.nameChars.contains c = true) ?_ hascii
  decide +kernel

/-- All characters that are printed are characters of parameters. -/
theorem accepts_of_mem_text (hs : s.Plain) {c : Char} (hc : c ∈ args.text) :
    s.accepts [] c = true := by
  have hcases : (c = ',' ∨ c = '$' ∨ Numeral.isHexDigit c = true) ∨
      s.named = true ∧ (c = '=' ∨ c.isLower = true) := by
    rcases Text.mem_join hc with hc | ⟨token, htoken, hc⟩
    · exact .inl (.inl (List.mem_singleton.1 hc))
    · rcases mem_tokens hs htoken hc with h | h
      · exact .inl (.inr h)
      · exact .inr h
  unfold Spec.accepts
  rcases hcases with hnumber | ⟨hnamed, hname⟩
  · rw [contains_numberChars hnumber]
    rfl
  · rw [hnamed]
    rcases contains_nameChars hname with h | h
    · rw [h]
      rfl
    · rw [h, Bool.and_self, Bool.or_true]

/-- **Arguments are read up to a character that parameters cannot have.** -/
theorem read_text (hs : s.Plain) {behind : Text}
    (hbehind : ∀ c, behind.head? = some c → s.accepts [] c = false) :
    Reader.readWhile (s.accepts []) (args.text ++ behind) = .ok (args.text, behind) :=
  Reader.readWhile_eq_ok.2 ⟨rfl, fun _ hc => accepts_of_mem_text hs hc, hbehind⟩

end Arguments

/-! ## Cropping rectangles and file names -/

/-- A cropping rectangle as it is written. -/
structure WrittenCrop where
  x : Numeral.Written
  y : Numeral.Written
  width : Numeral.Written
  height : Numeral.Written

namespace WrittenCrop

/-- The cropping rectangle in braces. -/
def text (c : WrittenCrop) : Text :=
  '{' :: (c.x.text ++ "," ++ c.y.text ++ "," ++ c.width.text ++ "," ++ c.height.text ++ ['}'])

/-- A side, which is left out if it is zero. -/
def side (n : Numeral.Written) : Option UInt32 :=
  if n.number = 0 then none else some n.number

/-- The rectangle that is written. -/
def crop (c : WrittenCrop) : Crop where
  x := c.x.number
  y := c.y.number
  width := side c.width
  height := side c.height

/-- The arguments in the braces. -/
def arguments (c : WrittenCrop) : Arguments Picture.cropSpec where
  first := [c.x, c.y, c.width, c.height]
  named := []
  required_le := Nat.zero_le 4
  length_le := Nat.le_refl 4
  named_of_ne_nil := fun _ => rfl
  slot_ge := nofun
  slot_lt := nofun
  nodup_slots := List.nodup_nil

theorem plain_cropSpec : Picture.cropSpec.Plain where
  texts_eq := rfl
  nodup_names := by decide
  isLower := Spec.isLower_of_all (by decide)

theorem text_eq (c : WrittenCrop) : c.text = '{' :: (c.arguments.text ++ ['}']) := by
  simp [text, Arguments.text, Arguments.tokens, arguments, Text.join]

theorem filter_side (n : Numeral.Written) :
    (some n.number).filter (· ≠ 0) = side n := by
  unfold side
  by_cases h : n.number = 0 <;> simp [h]

/-- A crop that is printed is the crop of its values. -/
theorem cropOf_values (c : WrittenCrop) : Picture.cropOf c.arguments.values = c.crop := by
  have hvalues : c.arguments.values =
      [.number c.x.number, .number c.y.number, .number c.width.number, .number c.height.number] :=
    rfl
  rw [hvalues, crop, ← filter_side, ← filter_side]
  rfl

end WrittenCrop

/-- A text in brackets. -/
def inBrackets (t : Text) : Text :=
  '(' :: (t ++ ")")

/-- Arguments with a cropping rectangle and a file name, as they are printed. -/
def printed {s : Spec} (args : Arguments s) (crop : Option WrittenCrop) (name : Option Text) : Text :=
  args.text ++ (crop.elim [] WrittenCrop.text ++ name.elim [] inBrackets)

/-- Parameters end in front of a brace. -/
theorem accepts_brace (s : Spec) : s.accepts [] '{' = false := by
  unfold Spec.accepts
  cases s.named <;> decide

theorem accepts_bracket (s : Spec) : s.accepts [] '(' = false := by
  unfold Spec.accepts
  cases s.named <;> decide

section

variable {s : Spec} {args : Arguments s} {crop : Option WrittenCrop} {name : Option Text}
  {behind : Text}

/-- Printed arguments are read up to what they cannot have. -/
theorem spec_read_text (hs : s.Plain)
    (hbehind : ∀ c, behind.head? = some c → s.accepts [] c = false) :
    s.read (args.text ++ behind) = .ok (args.values, behind) := by
  rw [s.read_eq]
  refine Reader.bind_eq_ok.2 ⟨args.text, behind, Arguments.read_text hs hbehind, ?_⟩
  rw [Arguments.get_text hs]
  rfl

variable (hname : ∀ f ∈ name, f.Balanced) (hopen : name = none → behind.head? ≠ some '(')

include hname hopen

/-- A printed name is read with its brackets, or nothing is read. -/
theorem optionalBracketed_name :
    Reader.optionalBracketed (name.elim [] inBrackets ++ behind) = .ok (name, behind) := by
  cases name with
  | none => exact Reader.optionalBracketed_eq_ok.2 (.inr ⟨rfl, hopen rfl, rfl⟩)
  | some f =>
    have htext : inBrackets f ++ behind = '(' :: (f ++ ')' :: behind) := by simp [inBrackets]
    show Reader.optionalBracketed (inBrackets f ++ behind) = _
    rw [htext]
    exact Reader.optionalBracketed_append (hname f rfl) behind

/-- **A cropping rectangle is read as it is written.** -/
theorem readCrop_text (c : WrittenCrop) :
    Picture.readCrop (c.text ++ (name.elim [] inBrackets ++ behind)) =
      .ok ((c.crop, name), behind) := by
  have htail : (c.text ++ (name.elim [] inBrackets ++ behind)).tail =
      c.arguments.text ++ '}' :: (name.elim [] inBrackets ++ behind) := by
    simp [c.text_eq]
  refine Picture.readCrop_eq_ok.2 ⟨c.arguments.values, name.elim [] inBrackets ++ behind, ?_,
    optionalBracketed_name hname hopen, c.cropOf_values.symm⟩
  rw [htail]
  refine spec_read_text WrittenCrop.plain_cropSpec fun d hd => ?_
  cases hd
  decide

/-- **Parameters are read back as they are printed.** -/
theorem read_printed_append (hs : s.Plain)
    (hbehind : name = none → crop = none →
      ∀ c, behind.head? = some c → c ≠ '{' ∧ s.accepts [] c = false) :
    Picture.read s [] (printed args crop name ++ behind) =
      .ok (⟨args.values, crop.elim {} WrittenCrop.crop, name⟩, behind) := by
  rw [printed, List.append_assoc, List.append_assoc]
  -- The parameters end at the brace of a crop, at the bracket of a name or at the text behind.
  cases crop with
  | none =>
    have hend : ∀ c, (name.elim [] inBrackets ++ behind).head? = some c →
        s.accepts [] c = false := by
      intro c hc
      cases name with
      | none => exact (hbehind rfl rfl c hc).2
      | some f =>
        cases hc
        exact accepts_bracket s
    refine Picture.read_eq_ok.2 ⟨args.text, name, behind, args.values, ?_, Arguments.get_text hs,
      .inr ⟨?_, rfl, rfl⟩⟩
    · rw [readString_eq]
      refine Reader.bind_eq_ok.2 ⟨args.text, _, Arguments.read_text hs hend, ?_⟩
      exact Reader.bind_eq_ok.2 ⟨name, behind, optionalBracketed_name hname hopen, rfl⟩
    · rintro ⟨hnone, hbrace⟩
      exact (hbehind hnone rfl '{' hbrace).1 rfl
  | some c =>
    have hend : ∀ d, (c.text ++ (name.elim [] inBrackets ++ behind)).head? = some d →
        s.accepts [] d = false := by
      intro d hd
      cases hd
      exact accepts_brace s
    refine Picture.read_eq_ok.2 ⟨args.text, none, c.text ++ (name.elim [] inBrackets ++ behind),
      args.values, ?_, Arguments.get_text hs, .inl ⟨⟨rfl, rfl⟩, c.crop, name, ?_, rfl⟩⟩
    · rw [readString_eq]
      refine Reader.bind_eq_ok.2 ⟨args.text, _, Arguments.read_text hs hend, ?_⟩
      refine Reader.bind_eq_ok.2 ⟨none, _, Reader.optionalBracketed_eq_ok.2 (.inr ?_), rfl⟩
      exact ⟨rfl, nofun, rfl⟩
    · exact readCrop_text hname hopen c

end

/-- **What is printed is read back, and nothing of what follows.**  Parameters of words as names are
printed with numbers for the first of them, for others by name, with a cropping rectangle or without,
and with a file name or without.  Behind a file name there may be any text; else text follows that
could not go on with what is missing.  Then reading gives the numbers that were printed, the defaults
of the other parameters, the rectangle and the file name, and ends where the printed text ends,
whatever is written in front of it. -/
theorem read_printed {s : Spec} (hs : s.Plain) (args : Arguments s) (crop : Option WrittenCrop)
    (name : Option Text) (front behind : Text) (hname : ∀ f ∈ name, f.Balanced)
    (hbehind : name = none → behind.head? ≠ some '(' ∧
      (crop = none → ∀ c, behind.head? = some c → c ≠ '{' ∧ s.accepts [] c = false)) :
    Picture.read s [] (printed args crop name ++ behind) =
      .ok (⟨args.values, crop.elim {} WrittenCrop.crop, name⟩, behind) ∧
    Scanner.picture s [] (front ++ printed args crop name ++ behind) (Text.byteSize front) =
      some (.ok (⟨args.values, crop.elim {} WrittenCrop.crop, name⟩,
        Text.byteSize (front ++ printed args crop name))) := by
  have hread : Picture.read s [] (printed args crop name ++ behind) =
      .ok (⟨args.values, crop.elim {} WrittenCrop.crop, name⟩, behind) :=
    read_printed_append hname (fun h => (hbehind h).1) hs fun h => (hbehind h).2
  refine ⟨hread, ?_⟩
  have hfront := Text.dropBytes?_byteSize front (printed args crop name ++ behind)
  have hlands := Scanner.follows_picture s [] hfront
  rw [hread, ← List.append_assoc] at hlands
  generalize Scanner.picture s [] (front ++ printed args crop name ++ behind)
    (Text.byteSize front) = result at hlands ⊢
  cases hlands with
  | @ok _ stop _ hle hstop =>
    have hsize := Text.add_byteSize hstop
    rw [Text.byteSize_append (front ++ printed args crop name)] at hsize
    obtain rfl : stop = Text.byteSize (front ++ printed args crop name) := by omega
    rfl

/-- An address without a default, and two parameters with one. -/
def addressSpec : Spec where
  names := ["addr".toList, "attr".toList, "scale".toList]
  defaults := [some 56, some 4]
  named := true

/-- A number in hexadecimal, and one that is given by name. -/
def addressArguments : Arguments addressSpec where
  first := [⟨"$8000".toList, 32768, .hexadecimal nofun (List.all_eq_true.1 (by decide)) (by decide)⟩]
  named := [(2, ⟨"5".toList, 5, Numeral.writes_decimal 5⟩)]
  required_le := by decide
  length_le := by decide
  named_of_ne_nil := fun _ => rfl
  slot_ge := by decide
  slot_lt := by decide
  nodup_slots := by decide

/-- A rectangle whose height is left out. -/
def addressCrop : WrittenCrop where
  x := ⟨"0".toList, 0, Numeral.writes_decimal 0⟩
  y := ⟨"8".toList, 8, Numeral.writes_decimal 8⟩
  width := ⟨"$10".toList, 16, .hexadecimal nofun (List.all_eq_true.1 (by decide)) (by decide)⟩
  height := ⟨"0".toList, 0, Numeral.writes_decimal 0⟩

/-- A name, a crop and a hexadecimal number are read back. -/
theorem read_printed_cropped :
    Picture.read addressSpec [] "$8000,scale=5\x7b0,8,$10,0\x7d.5" =
      .ok (⟨[.number 32768, .number 56, .number 5], { y := 8, width := some 16 }, none⟩, ".5") ∧
    Scanner.picture addressSpec [] "#UDG$8000,scale=5\x7b0,8,$10,0\x7d.5" 4 =
      some (.ok (⟨[.number 32768, .number 56, .number 5], { y := 8, width := some 16 }, none⟩, 28)) := by
  have hplain : addressSpec.Plain := ⟨rfl, by decide, Spec.isLower_of_all (by decide)⟩
  exact read_printed hplain addressArguments (some addressCrop) none "#UDG" ".5" nofun
    fun _ => ⟨by decide, nofun⟩

end Parameter

end MemoryDoc
