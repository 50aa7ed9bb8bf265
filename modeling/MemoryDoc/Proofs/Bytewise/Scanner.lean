/-
# Scanners

A scanner reads a text from a place on, and goes on at the place where it stopped.  It is given the
whole text and takes parts of it between places that it computes.  It comes to nothing, and not even
to a fault, when it takes a part between places that are not boundaries in order.

A scanner follows a reader if at any boundary it comes to what the reader comes to on what is behind
the boundary, and stops at the boundary before what the reader leaves.

Main statements: the scanners of numbers, addresses and texts in brackets follow the readers of the
same names (`follows_address`, `follows_optionalBracketed`).
-/
import MemoryDoc.Macro.Error
import MemoryDoc.Proofs.Bytewise.Slice
import MemoryDoc.Proofs.Certain

namespace MemoryDoc

/-! ## Scanners -/

/-- A scanner is given a whole text and a place in it.  It comes to nothing if it takes a part of
the text that is none. -/
abbrev Scanner (ε : Type) := ReaderT Text (StateT Nat (ExceptT ε Option))

namespace Scanner

open Text (slice? dropBytes? byteSize)

variable {α β ε ε' : Type}

/-! ## Places -/

/-- The place where the scanner is. -/
def place : Scanner ε Nat := fun _ n => some (.ok (n, n))

/-- Go on at another place, whatever it is. -/
def moveTo (n : Nat) : Scanner ε Unit := fun _ _ => some (.ok ((), n))

/-- What only comes to something if it is there. -/
def checked (a : Option α) : Scanner ε α := fun _ n => a.map fun a => .ok (a, n)

/-- The part of the text between two places, which have to be boundaries in order. -/
def slice (i j : Nat) : Scanner ε Text := fun t => checked (slice? t i j) t

/-- What is left behind a place, which has to be a boundary. -/
def sliceFrom (i : Nat) : Scanner ε Text := fun t => checked (slice? t i (byteSize t)) t

/-- The outcome of a computation that reads nothing. -/
def outcome (x : ExceptT Fault Option α) : Scanner Fault α := fun _ n =>
  (x.run : Option (Except Fault α)).map fun result => result.map fun a => (a, n)

/-- The scanner with its faults told by `f`. -/
def mapFault (f : ε → ε') (m : Scanner ε α) : Scanner ε' α := fun t n =>
  match m t n with
  | none => none
  | some (.error e) => some (.error (f e))
  | some (.ok result) => some (.ok result)

/-- Faults are errors of macros. -/
instance : MonadLift (Scanner Fault) (Scanner MacroError) where
  monadLift m := mapFault .fault m

/-- A link that cannot be made is an error of the macro. -/
def ofLink (link : Except Site.LinkError α) : Scanner MacroError α := fun _ n =>
  match link with
  | .ok a => some (.ok (a, n))
  | .error e => some (.error (.link e))

/-! ## Characters -/

/-- The character at a place, if one begins there. -/
def charAt? (t : Text) (n : Nat) : Option Char :=
  (dropBytes? n t).bind List.head?

/-- A character that stands in a place ends within the text. -/
theorem add_utf8Size_le {t : Text} {n : Nat} {c : Char} (h : charAt? t n = some c) :
    n + c.utf8Size ≤ byteSize t := by
  unfold charAt? at h
  cases hd : dropBytes? n t with
  | none =>
    rw [hd] at h
    cases h
  | some rest =>
    rw [hd] at h
    obtain ⟨rest, rfl⟩ := List.head?_eq_some_iff.1 h
    have := Text.add_byteSize hd
    rw [Text.byteSize_cons] at this
    omega

/-- The place behind the characters of class `p` from a place on. -/
def skipWhile (p : Char → Bool) (t : Text) (n : Nat) : Nat :=
  match _h : charAt? t n with
  | none => n
  | some c => if p c then skipWhile p t (n + c.utf8Size) else n
termination_by byteSize t - n
decreasing_by
  have := add_utf8Size_le _h
  have := c.utf8Size_pos
  omega

/-- Read all characters of class `p` up to the first that is not. -/
def readWhile (p : Char → Bool) : Scanner Fault Text := do
  let start ← place
  let stop := skipWhile p (← read) start
  moveTo stop
  slice start stop

/-- Move over the character `c` if it comes next, and say whether it did. -/
def accept (c : Char) : Scanner Fault Bool := fun t n =>
  if charAt? t n = some c then some (.ok (true, n + c.utf8Size)) else some (.ok (false, n))

/-- What is left starts with the character `c`.  The place has to be a boundary. -/
def startsWith (c : Char) : Scanner ε Bool := do
  return (← sliceFrom (← place)).head? = some c

/-! ## Brackets -/

/-- The place behind the bracket that closes `depth + 1` open ones. -/
def closingPlace? (t : Text) (depth n : Nat) : Option Nat :=
  match _h : charAt? t n with
  | none => none
  | some c =>
    if c = '(' then closingPlace? t (depth + 1) (n + c.utf8Size)
    else if c = ')' then
      match depth with
      | 0 => some (n + c.utf8Size)
      | depth + 1 => closingPlace? t depth (n + c.utf8Size)
    else closingPlace? t depth (n + c.utf8Size)
termination_by byteSize t - n
decreasing_by
  all_goals
    have := add_utf8Size_le _h
    have := c.utf8Size_pos
    omega

/-- Read a text in brackets, in which brackets may nest. -/
def bracketed : Scanner Fault Text := do
  let start ← place
  if ← accept '(' then
    match closingPlace? (← read) 0 (← place) with
    | some stop =>
      moveTo stop
      slice (start + 1) (stop - 1)
    | none => throw (.unclosedBracket (← sliceFrom start))
  else
    throw .noText

/-- Read a text in brackets if a bracket comes next. -/
def optionalBracketed : Scanner Fault (Option Text) := do
  if charAt? (← read) (← place) = some '(' then
    return some (← bracketed)
  else
    return none

/-! ## Numbers -/

/-- Read the digits of a number, as they are written. -/
def number : Scanner Fault Text := do
  let start ← place
  if ← accept '$' then
    let _ ← readWhile Numeral.isHexDigit
  else
    let _ ← readWhile Numeral.isDecimalDigit
  slice start (← place)

/-- Read an address: its digits as they are written, and its value. -/
def address : Scanner Fault (Text × UInt16) := do
  let start ← place
  let digits ← number
  match Numeral.address? digits with
  | some value => return (digits, value)
  | none => throw (.badAddress ((dropBytes? start (← read)).getD []))

/-! ## Scanners that follow readers -/

/-- What a scanner comes to from the place `n` on is what a reader comes to, and it stops before
what the reader leaves, if it does not fail. -/
inductive Lands (t : Text) (n : Nat) :
    Option (Except ε (α × Nat)) → Except ε (α × Text) → Prop where
  | ok {a : α} {stop : Nat} {rest : Text} (hle : n ≤ stop) (hstop : dropBytes? stop t = some rest) :
    Lands t n (some (.ok (a, stop))) (.ok (a, rest))
  | error (e : ε) : Lands t n (some (.error e)) (.error e)

/-- A scanner comes to what a reader comes to, from any boundary of any text on. -/
def Follows (m : Scanner ε α) (r : StateT Text (Except ε) α) : Prop :=
  ∀ ⦃t n rest⦄, dropBytes? n t = some rest → Lands t n (m t n) (r rest)

section

variable {t rest : Text} {n k : Nat}

/-- A scanner that lands behind a place lands behind every place in front of that one. -/
theorem Lands.of_le (h : n ≤ k) {o : Option (Except ε (α × Nat))} {x : Except ε (α × Text)}
    (ho : Lands t k o x) : Lands t n o x := by
  cases ho with
  | ok hle hstop => exact .ok (Nat.le_trans h hle) hstop
  | error e => exact .error e

/-- A scanner stops at the only place behind which the text is left that the reader leaves. -/
theorem Lands.eq_some {o : Option (Except ε (α × Nat))} {a : α} (h : Lands t n o (.ok (a, rest)))
    (hk : dropBytes? k t = some rest) : o = some (.ok (a, k)) := by
  cases h with
  | @ok _ stop _ _ hstop =>
    have hplace := Text.add_byteSize hstop
    have hplace' := Text.add_byteSize hk
    rw [show stop = k by omega]

theorem Lands.eq_error {o : Option (Except ε (α × Nat))} {e : ε} (h : Lands t n o (.error e)) :
    o = some (.error e) := by
  cases h
  rfl

/-- What is scanned next starts where the first scanner stops. -/
theorem bind_apply (m : Scanner ε α) (f : α → Scanner ε β) :
    (m >>= f) t n =
      match m t n with
      | none => none
      | some (.error e) => some (.error e)
      | some (.ok (a, k)) => f a t k := by
  show ExceptT.bind (m t n) _ = _
  cases h : m t n with
  | none => rfl
  | some x => cases x <;> rfl

/-- A scanner and a reader go on alike. -/
theorem Lands.bind {m : Scanner ε α} {r : StateT Text (Except ε) α} {f : α → Scanner ε β}
    {g : α → StateT Text (Except ε) β} (h : Lands t n (m t n) (r rest))
    (hf : ∀ a k rest', n ≤ k → dropBytes? k t = some rest' → Lands t k (f a t k) (g a rest')) :
    Lands t n ((m >>= f) t n) ((r >>= g) rest) := by
  have hr : (r >>= g) rest =
      match r rest with
      | .error e => .error e
      | .ok (a, rest') => g a rest' := by
    show (r rest >>= fun p => g p.1 p.2) = _
    cases r rest <;> rfl
  rw [bind_apply, hr]
  generalize m t n = o at h
  generalize r rest = x at h
  cases h with
  | error e => exact .error e
  | ok hle hstop => exact (hf _ _ _ hle hstop).of_le hle

theorem place_bind (f : Nat → Scanner ε α) : (place >>= f) t n = f n t n :=
  rfl

theorem read_bind (f : Text → Scanner ε α) : ((read : Scanner ε Text) >>= f) t n = f t t n :=
  rfl

theorem moveTo_bind (f : Unit → Scanner ε α) : (moveTo k >>= f) t n = f () t k :=
  rfl

theorem outcome_bind (x : Except Fault α) (f : α → Scanner Fault β) :
    (outcome (certain x) >>= f) t n =
      match x with
      | .error e => some (.error e)
      | .ok a => f a t n := by
  cases x <;> rfl

theorem lift_bind_apply (m : Scanner Fault α) (f : α → Scanner MacroError β) :
    ((liftM m : Scanner MacroError α) >>= f) t n =
      match m t n with
      | none => none
      | some (.error e) => some (.error (.fault e))
      | some (.ok (a, k)) => f a t k := by
  have hlift : (liftM m : Scanner MacroError α) t n = mapFault MacroError.fault m t n := rfl
  rw [bind_apply, hlift, mapFault]
  cases m t n with
  | none => rfl
  | some x => cases x <;> rfl

theorem lift_rest_bind (g : Text → Handler α) :
    ((liftM Reader.rest : Handler Text) >>= g) rest = g rest rest :=
  rfl

theorem lift_reader_bind (r : Reader α) (g : α → Handler β) :
    ((liftM r : Handler α) >>= g) rest =
      match r rest with
      | .error e => .error (.fault e)
      | .ok (a, left) => g a left := by
  show (Reader.mapFault MacroError.fault r rest >>= fun p => g p.1 p.2) = _
  unfold Reader.mapFault
  cases r rest <;> rfl

/-- A slice between two boundaries is the text between them. -/
theorem slice_apply {i j : Nat} {a b : Text} (hij : i ≤ j) (hi : dropBytes? i t = some a)
    (hj : dropBytes? j t = some b) :
    (slice i j : Scanner ε Text) t n = some (.ok (Text.consumed a b, n)) := by
  rw [slice, Text.slice?_eq_consumed hij hi hj]
  rfl

theorem slice_bind {i j : Nat} {a b : Text} (hij : i ≤ j) (hi : dropBytes? i t = some a)
    (hj : dropBytes? j t = some b) (f : Text → Scanner ε α) :
    (slice i j >>= f) t n = f (Text.consumed a b) t n := by
  rw [bind_apply, slice_apply hij hi hj]

theorem sliceFrom_bind {i : Nat} {a : Text} (hi : dropBytes? i t = some a)
    (f : Text → Scanner ε α) : (sliceFrom i >>= f) t n = f a t n := by
  rw [bind_apply, sliceFrom, Text.slice?_end hi]
  rfl

/-- **Scanners that follow readers do so one after the other.** -/
theorem Follows.bind {m : Scanner ε α} {r : StateT Text (Except ε) α} {f : α → Scanner ε β}
    {g : α → StateT Text (Except ε) β} (hm : Follows m r) (hf : ∀ a, Follows (f a) (g a)) :
    Follows (m >>= f) (r >>= g) := fun _ _ _ hn => (hm hn).bind fun a _ _ _ hk => hf a hk

theorem follows_pure (a : α) :
    Follows (pure a : Scanner ε α) (pure a : StateT Text (Except ε) α) := fun _ _ _ hn =>
  .ok (Nat.le_refl _) hn

theorem follows_throw (e : ε) :
    Follows (throw e : Scanner ε α) (throw e : StateT Text (Except ε) α) := fun _ _ _ _ => .error e

theorem follows_ite {c : Prop} [Decidable c] {m m' : Scanner ε α} {r r' : StateT Text (Except ε) α}
    (h : Follows m r) (h' : Follows m' r') :
    Follows (if c then m else m') (if c then r else r') := by
  split
  · exact h
  · exact h'

theorem follows_mapFault (f : ε → ε') {m : Scanner ε α} {r : StateT Text (Except ε) α}
    (h : Follows m r) : Follows (mapFault f m) (Reader.mapFault f r) := by
  intro t n rest hn
  have hland := h hn
  unfold mapFault Reader.mapFault
  generalize m t n = o at hland
  generalize r rest = x at hland
  cases hland with
  | error e => exact .error (f e)
  | ok hle hstop => exact .ok hle hstop

theorem follows_lift {m : Scanner Fault α} {r : Reader α} (h : Follows m r) :
    Follows (monadLift m : Scanner MacroError α) (monadLift r : Handler α) :=
  follows_mapFault _ h

theorem follows_ofLink (link : Except Site.LinkError α) :
    Follows (ofLink link) (Handler.ofLink link) := by
  intro t n rest hn
  unfold ofLink Handler.ofLink
  cases link with
  | ok a => exact .ok (Nat.le_refl n) hn
  | error e => exact .error _

end

/-! ## Characters and brackets -/

section

variable {t rest : Text} {n : Nat}

/-- The character in a place is the first of the text that starts there. -/
theorem charAt?_eq (hn : dropBytes? n t = some rest) : charAt? t n = rest.head? := by
  rw [charAt?, hn, Option.bind_some]

/-- Skipped characters are those at the front of the text that starts there. -/
theorem skipWhile_eq (p : Char → Bool) (hn : dropBytes? n t = some rest) :
    skipWhile p t n = n + byteSize (rest.takeWhile p) := by
  induction rest generalizing n with
  | nil =>
    have hc := charAt?_eq hn
    unfold skipWhile
    split
    · rfl
    · next c h =>
      rw [hc] at h
      cases h
  | cons c rest ih =>
    have hc := charAt?_eq hn
    unfold skipWhile
    split
    · next h =>
      rw [hc] at h
      cases h
    · next d h =>
      rw [hc] at h
      cases h
      rw [List.takeWhile_cons]
      split
      · rw [ih (Text.dropBytes?_cons hn), Text.byteSize_cons, Nat.add_assoc]
      · rfl

/-- Behind the characters that are read is a boundary. -/
theorem dropBytes?_readWhile (p : Char → Bool) (hn : dropBytes? n t = some rest) :
    dropBytes? (n + byteSize (rest.takeWhile p)) t = some (rest.dropWhile p) := by
  rw [← List.takeWhile_append_dropWhile (p := p) (l := rest)] at hn
  exact Text.dropBytes?_append hn

/-- A word that starts at a boundary is read, and the place behind it is a boundary. -/
theorem readWhile_apply (p : Char → Bool) (hn : dropBytes? n t = some rest) :
    readWhile p t n =
      some (.ok (rest.takeWhile p, n + byteSize (rest.takeWhile p))) := by
  have hread := Text.consumed_dropWhile p [] rest
  rw [List.nil_append, List.nil_append] at hread
  unfold readWhile
  rw [place_bind, read_bind, skipWhile_eq p hn, moveTo_bind,
    slice_apply (Nat.le_add_right _ _) hn (dropBytes?_readWhile p hn), hread]

theorem readWhile_bind {p : Char → Bool} (hn : dropBytes? n t = some rest)
    (f : Text → Scanner Fault α) :
    (readWhile p >>= f) t n = f (rest.takeWhile p) t (n + byteSize (rest.takeWhile p)) := by
  rw [bind_apply, readWhile_apply p hn]

/-- A word is scanned up to the place that it is read to. -/
theorem follows_readWhile (p : Char → Bool) :
    Follows (readWhile p) (Reader.readWhile p) := by
  intro t n rest hn
  rw [readWhile_apply p hn]
  exact .ok (Nat.le_add_right _ _) (dropBytes?_readWhile p hn)

theorem follows_accept (c : Char) : Follows (accept c) (Reader.accept c) := by
  intro t n rest hn
  unfold accept
  rw [charAt?_eq hn]
  cases rest with
  | nil => exact .ok (Nat.le_refl n) hn
  | cons d rest =>
    rw [Reader.accept]
    by_cases hd : d = c
    · subst hd
      simp only [List.head?_cons, if_true]
      exact .ok (Nat.le_add_right _ _) (Text.dropBytes?_cons hn)
    · simp only [List.head?_cons, Option.some.injEq, hd, if_false]
      exact .ok (Nat.le_refl n) hn

/-- What is scanned next starts behind the character, if it is there. -/
theorem accept_bind {c : Char} (hn : dropBytes? n t = some rest) (f : Bool → Scanner Fault α) :
    (accept c >>= f) t n =
      if rest.head? = some c then f true t (n + c.utf8Size) else f false t n := by
  rw [bind_apply, accept, charAt?_eq hn]
  by_cases hc : rest.head? = some c
  · rw [if_pos hc, if_pos hc]
  · rw [if_neg hc, if_neg hc]

theorem startsWith_bind {c : Char} (hn : dropBytes? n t = some rest) (f : Bool → Scanner ε α) :
    (startsWith c >>= f) t n = f (rest.head? = some c) t n := by
  unfold startsWith
  rw [bind_assoc, place_bind, bind_assoc, sliceFrom_bind hn]
  rfl

/-- The place behind a closing bracket is the one behind which what follows it is left. -/
theorem closingPlace?_eq {inside : Text} {depth : Nat} (hn : dropBytes? n t = some rest) :
    closingPlace? t depth n =
      (Reader.closingFrom inside depth rest).map fun (_, left) => byteSize t - byteSize left := by
  -- The depth is counted alike, and the place is as far from the end as what is left is long.
  induction rest generalizing n inside depth with
  | nil =>
    have hc := charAt?_eq hn
    unfold closingPlace?
    split
    · rfl
    · next c h =>
      rw [hc] at h
      cases h
  | cons c rest ih =>
    have hc := charAt?_eq hn
    have hnext := Text.dropBytes?_cons hn
    unfold closingPlace? Reader.closingFrom
    split
    · next h =>
      rw [hc] at h
      cases h
    · next d h =>
      rw [hc] at h
      cases h
      split
      · exact ih hnext
      · split
        · cases depth with
          | zero =>
            have := Text.add_byteSize hnext
            simp only [Option.map_some, Option.some.injEq]
            omega
          | succ depth => exact ih hnext
        · exact ih hnext

/-- A text in brackets is scanned up to the bracket that it is read to. -/
theorem follows_bracketed : Follows bracketed Reader.bracketed := by
  intro t n rest hn
  unfold bracketed
  rw [place_bind, accept_bind hn]
  split
  · next hhead =>
    obtain ⟨behind, rfl⟩ := List.head?_eq_some_iff.1 hhead
    have hnext : dropBytes? (n + 1) t = some behind := Text.dropBytes?_cons hn
    simp only [if_true, Reader.bracketed]
    have hopen : '('.utf8Size = 1 := rfl
    rw [read_bind, place_bind, hopen, closingPlace?_eq hnext, ← Reader.closing]
    cases hclosing : Reader.closing behind with
    | none =>
      simp only [Option.map_none]
      rw [sliceFrom_bind hn]
      exact .error _
    | some found =>
      obtain ⟨inside, left⟩ := found
      -- The scanner knows the place behind the closing bracket only, which is one byte.
      have hbehind := Reader.eq_of_closing hclosing
      rw [hbehind] at hnext
      have hclose := Text.dropBytes?_append hnext
      have hleft : dropBytes? (n + 1 + byteSize inside + 1) t = some left :=
        Text.dropBytes?_cons hclose
      have hstop : byteSize t - byteSize left = n + 1 + byteSize inside + 1 := by
        have := Text.add_byteSize hleft
        omega
      simp only [Option.map_some]
      rw [hstop, moveTo_bind, Nat.add_sub_cancel,
        slice_apply (Nat.le_add_right _ _) hnext hclose, Text.consumed_append_left]
      exact .ok (by omega) hleft
  · next hhead =>
    have hreader : Reader.bracketed rest = .error .noText := by
      cases rest with
      | nil => rfl
      | cons c rest =>
        unfold Reader.bracketed
        split
        · next h =>
          cases h
          exact absurd rfl hhead
        · rfl
    rw [hreader]
    exact .error _

theorem follows_optionalBracketed : Follows optionalBracketed Reader.optionalBracketed := by
  intro t n rest hn
  unfold optionalBracketed
  rw [read_bind, place_bind, charAt?_eq hn]
  split
  · next hhead =>
    obtain ⟨behind, rfl⟩ := List.head?_eq_some_iff.1 hhead
    have hreader : Reader.optionalBracketed ('(' :: behind) =
        (do return some (← Reader.bracketed) : Reader (Option Text)) ('(' :: behind) := by
      rw [Reader.optionalBracketed]
      show _ = (Reader.bracketed ('(' :: behind) >>= fun p => pure (some p.1, p.2))
      cases Reader.bracketed ('(' :: behind) <;> rfl
    rw [hreader]
    exact (follows_bracketed hn).bind fun a _ _ _ hk => follows_pure (some a) hk
  · next hhead =>
    have hreader : Reader.optionalBracketed rest = .ok (none, rest) := by
      unfold Reader.optionalBracketed
      split
      · exact absurd rfl hhead
      · rfl
    rw [hreader]
    exact .ok (Nat.le_refl n) hn

/-! ## Numbers -/

theorem follows_number : Follows number Reader.number := by
  intro t n rest hn
  unfold number
  rw [place_bind, accept_bind hn]
  split
  · next hhead =>
    obtain ⟨behind, rfl⟩ := List.head?_eq_some_iff.1 hhead
    have hnext := Text.dropBytes?_cons hn
    have hstop := dropBytes?_readWhile Numeral.isHexDigit hnext
    have hle : n ≤ n + '$'.utf8Size + byteSize (behind.takeWhile Numeral.isHexDigit) := by omega
    -- The digits are taken together with the dollar sign before them.
    have hread := Text.consumed_dropWhile Numeral.isHexDigit ['$'] behind
    rw [List.singleton_append, List.singleton_append] at hread
    simp only [if_true]
    rw [readWhile_bind hnext, place_bind, slice_apply hle hn hstop, hread]
    exact .ok hle hstop
  · next hhead =>
    have hstop := dropBytes?_readWhile Numeral.isDecimalDigit hn
    have hle : n ≤ n + byteSize (rest.takeWhile Numeral.isDecimalDigit) := Nat.le_add_right _ _
    have hread := Text.consumed_dropWhile Numeral.isDecimalDigit [] rest
    rw [List.nil_append, List.nil_append] at hread
    have hreader : Reader.number rest =
        .ok (rest.takeWhile Numeral.isDecimalDigit, rest.dropWhile Numeral.isDecimalDigit) := by
      unfold Reader.number
      split
      · exact absurd rfl hhead
      · rfl
    simp only [Bool.false_eq_true, if_false]
    rw [readWhile_bind hn, place_bind, slice_apply hle hn hstop, hread, hreader]
    exact .ok hle hstop

theorem follows_address : Follows address Reader.address := by
  intro t n rest hn
  have hreader : Reader.address rest = (do
      let digits ← Reader.number
      match Numeral.address? digits with
      | some value => return (digits, value)
      | none => throw (.badAddress rest) : Reader (Text × UInt16)) rest := by
    rw [Reader.address]
    show _ = Reader.number rest >>= _
    cases Reader.number rest with
    | error e => rfl
    | ok p =>
      show _ = (match Numeral.address? p.1 with
        | some value => _
        | none => _ : Reader (Text × UInt16)) p.2
      cases h : Numeral.address? p.1 <;> simp only [h] <;> rfl
  unfold address
  rw [place_bind, hreader]
  refine (follows_number hn).bind fun digits k rest' _ hk => ?_
  cases Numeral.address? digits with
  | some value => exact follows_pure (digits, value) hk
  | none =>
    simp only
    rw [read_bind, hn]
    exact .error _

end

end Scanner

end MemoryDoc
