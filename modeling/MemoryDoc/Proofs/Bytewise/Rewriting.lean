/-
# Rewriting the first macro

Expansion is a rewriting of texts.  A step takes the first place of the bytes of a text where a `#`
is followed by a capital letter, runs the macro from behind the letters on, and leaves all bytes
before that place.  What a macro turns into may make up a new macro with the text beside it, also
with a `#` that stands before it, so a step may begin before the place of the last one.

Main statements: the search for a macro finds the first place where one begins (`isFirst_of_find?`),
a step rewrites there (`rewrites_of_step`), and a text that an expansion gives is one that no
expansion changes (`expand_rewrites`).
-/
import Mathlib.Data.List.Chain
import Mathlib.Data.List.TakeWhile
import MemoryDoc.Proofs.Bytewise.Expansion
import MemoryDoc.Proofs.Calls
import MemoryDoc.Store.Listed

namespace MemoryDoc

open Text (byteSize bytes dropBytes? slice?)

/-- The characters of a class at the front of a text are all bytes of the class at its front. -/
theorem Text.ToldBy.exists_append {q : UInt8 → Bool} {p : Char → Bool} (h : ToldBy q p) (t : Text) :
    ∃ front back, bytes t = front ++ back ∧ front.length = byteSize (t.takeWhile p) ∧
      (∀ b ∈ front, q b = true) ∧ ∀ b, back.head? = some b → q b = false := by
  refine ⟨(bytes t).takeWhile q, (bytes t).dropWhile q, List.takeWhile_append_dropWhile.symm,
    h.length_takeWhile t, fun b hb => List.mem_takeWhile_imp hb, fun b hb => ?_⟩
  have hhead := List.head?_dropWhile_not q (bytes t)
  rw [hb] at hhead
  simpa using hhead

/-! ## Places where macros begin -/

namespace Marker

/-- At a place of a text is a `#` that is followed by a letter which names are written with. -/
def BeginsAt (t : Text) (n : Nat) : Prop :=
  (bytes t)[n]? = some 0x23 ∧ ∃ b, (bytes t)[n + 1]? = some b ∧ isNameByte b = true

/-- The first macro of a text is between two places: no macro begins before the earlier, one begins
there, and up to the later are all letters that follow. -/
structure IsFirst (t : Text) (start index : Nat) : Prop where
  begins : BeginsAt t start
  least : ∀ n < start, ¬ BeginsAt t n
  start_lt : start < index
  letter : ∀ n, start < n → n < index → ∃ b, (bytes t)[n]? = some b ∧ isNameByte b = true
  ends : ∀ b, (bytes t)[index]? = some b → isNameByte b = false

/-- A sharp is told by its byte. -/
theorem toldBy_sharp : Text.ToldBy (· == 0x23) (· == '#') :=
  TableText.toldBy_char (d := '#') (by decide) (by decide) (by decide)

/-- A letter is first in a text if its byte is. -/
theorem takeWhile_ne_nil_iff {t : Text} :
    t.takeWhile isNameLetter ≠ [] ↔ ∃ b, (bytes t)[0]? = some b ∧ isNameByte b = true := by
  have hhead := toldBy_nameLetter.map_head? t
  rw [List.head?_eq_getElem?] at hhead
  rw [← Option.map_eq_some_iff, hhead]
  cases t with
  | nil => simp
  | cons c t => by_cases hc : isNameLetter c <;> simp [hc]

/-- A macro begins at the first character of a text or behind it. -/
theorem beginsAt_cons {c : Char} {t : Text} {n : Nat} (h : BeginsAt (c :: t) n) :
    (c = '#' ∧ t.takeWhile isNameLetter ≠ []) ∨ ∃ k, n = c.utf8Size + k ∧ BeginsAt t k := by
  obtain ⟨hsharp, b, hb, hletter⟩ := h
  rw [Text.bytes_cons] at hsharp hb
  -- The sharp is behind the first character, or it is a byte of that.
  by_cases hn : c.utf8Size ≤ n
  · have hlen := String.length_utf8EncodeChar c
    rw [List.getElem?_append_right (by omega), hlen] at hsharp hb
    rw [Nat.sub_add_comm hn] at hb
    exact Or.inr ⟨n - c.utf8Size, by omega, hsharp, b, hb, hletter⟩
  · have hlt : n < (String.utf8EncodeChar c).length := by
      rw [String.length_utf8EncodeChar]
      omega
    rw [List.getElem?_append_left hlt] at hsharp
    by_cases hc : c.toNat < 128
    · have hsize := Text.utf8Size_of_lt hc
      obtain rfl : n = 0 := by omega
      rw [Text.utf8EncodeChar_of_lt hc] at hsharp hb
      have hbyte : c.toUInt8 = 0x23 := by simpa using hsharp
      have hc' := toldBy_sharp.of_lt hc
      rw [hbyte, beq_self_eq_true] at hc'
      exact Or.inl ⟨beq_iff_eq.1 hc'.symm, takeWhile_ne_nil_iff.2 ⟨b, hb, hletter⟩⟩
    · -- A byte of a character beyond ASCII is none of ASCII.
      have hle := Text.le_of_mem_utf8EncodeChar (by omega) (List.mem_of_getElem? hsharp)
      exact absurd hle (by decide)

/-- Where a macro begins the search has found one. -/
theorem exists_find?_of_beginsAt {t : Text} {n : Nat} (h : BeginsAt t n) :
    ∃ before letters after, find? t = some (before, letters, after) ∧ byteSize before ≤ n := by
  induction t generalizing n with
  | nil =>
    obtain ⟨hsharp, -⟩ := h
    cases hsharp
  | cons c t ih =>
    rw [find?]
    split
    · exact ⟨_, _, _, rfl, Nat.zero_le n⟩
    · next hc =>
      rcases beginsAt_cons h with hfirst | ⟨k, rfl, hk⟩
      · exact absurd hfirst hc
      · obtain ⟨before, letters, after, hfind, hle⟩ := ih hk
        refine ⟨c :: before, letters, after, by rw [hfind, Option.map_some], ?_⟩
        rw [Text.byteSize_cons]
        omega

/-- The name of the first macro is all letters that follow its `#`. -/
theorem exists_takeWhile_of_find? {t before letters after : Text}
    (h : find? t = some (before, letters, after)) :
    ∃ behind, t = before ++ '#' :: behind ∧ letters = behind.takeWhile isNameLetter ∧
      letters ≠ [] := by
  induction t generalizing before with
  | nil => cases h
  | cons c t ih =>
    rw [find?] at h
    split at h
    · next hc =>
      cases h
      exact ⟨t, by rw [hc.1, List.nil_append], rfl, hc.2⟩
    · obtain ⟨⟨b, l, a⟩, hfind, heq⟩ := Option.map_eq_some_iff.1 h
      cases heq
      obtain ⟨behind, rfl, hletters⟩ := ih hfind
      exact ⟨behind, rfl, hletters⟩

/-- **The search for a macro finds the first place where one begins, and all letters behind it.** -/
theorem isFirst_of_find? {t before letters after : Text}
    (h : find? t = some (before, letters, after)) :
    IsFirst t (byteSize before) (byteSize before + 1 + byteSize letters) := by
  obtain ⟨behind, ht, hletters, hne⟩ := exists_takeWhile_of_find? h
  obtain ⟨front, back, hbytes, hlen, hfront, hback⟩ := toldBy_nameLetter.exists_append behind
  rw [← hletters] at hlen
  have hsharp : dropBytes? (byteSize before) t = some ('#' :: behind) :=
    Text.dropBytes?_eq_some_iff.2 ⟨before, ht, rfl⟩
  have hbehind : (bytes t).drop (byteSize before + 1) = bytes behind :=
    Text.drop_bytes (Text.dropBytes?_cons hsharp)
  -- Bytes behind the sharp, counted from it.
  have hget (k : Nat) : (bytes t)[byteSize before + 1 + k]? = (front ++ back)[k]? := by
    rw [← hbytes, ← hbehind, List.getElem?_drop]
  obtain ⟨b, hb, hletter⟩ := takeWhile_ne_nil_iff.1 (hletters ▸ hne)
  rw [hbytes, ← hget, Nat.add_zero] at hb
  refine ⟨⟨?_, b, hb, hletter⟩, ?_, by omega, ?_, ?_⟩
  · rw [← Nat.add_zero (byteSize before), ← List.getElem?_drop, Text.drop_bytes hsharp]
    rfl
  · intro n hn hbegins
    -- A marker in front of this one would have been found instead.
    obtain ⟨before', letters', after', hfind, hle⟩ := exists_find?_of_beginsAt hbegins
    rw [h] at hfind
    cases hfind
    omega
  · intro n hstart hindex
    obtain ⟨k, rfl⟩ : ∃ k, n = byteSize before + 1 + k := ⟨n - (byteSize before + 1), by omega⟩
    have hk : k < front.length := by omega
    refine ⟨front[k], ?_, hfront _ (List.getElem_mem hk)⟩
    rw [hget, List.getElem?_append_left hk, List.getElem?_eq_getElem hk]
  · intro b hb
    rw [hget, ← hlen, List.getElem?_append_right (Nat.le_refl _), Nat.sub_self,
      ← List.head?_eq_getElem?] at hb
    exact hback b hb

/-- No macro begins in a text in which the search finds none. -/
theorem not_beginsAt_of_find? {t : Text} (h : find? t = none) (n : Nat) : ¬ BeginsAt t n := by
  intro hbegins
  obtain ⟨before, letters, after, hfind, -⟩ := exists_find?_of_beginsAt hbegins
  rw [h] at hfind
  cases hfind

end Marker

/-! ## Steps -/

namespace Session

variable {σ : Type} {env : Environment σ} {cwd t : Text} {s s' : Session σ}

/-- A text and its session become others when the first macro of the text is run from behind its
name on.  The bytes from its `#` to where it stops give way to those of what it turns into. -/
inductive Rewrites (env : Environment σ) (cwd : Text) :
    Text × Session σ → Text × Session σ → Prop where
  | first {t t' letters markup : Text} {name : MacroName} {start index stop : Nat}
      {s s' : Session σ} (place : Marker.IsFirst t start index)
      (written : slice? t (start + 1) index = some letters)
      (named : MacroName.ofName? letters = some name)
      (ran : run? env cwd name t index s = some (.ok (markup, stop), s'))
      (le_stop : index ≤ stop) (stop_le : stop ≤ byteSize t)
      (bytes_eq : bytes t' = (bytes t).take start ++ bytes markup ++ (bytes t).drop stop) :
      Rewrites env cwd (t, s) (t', s')

/-- The texts that an expansion goes through in its first `fuel` steps, with their sessions. -/
def visited (env : Environment σ) (cwd : Text) :
    (fuel : Nat) → (t : Text) → Session σ → List (Text × Session σ)
  | 0, t, s => [(t, s)]
  | fuel + 1, t, s =>
    (t, s) ::
      match step env cwd t s with
      | .done => []
      | .failed _ _ => []
      | .replaced before after s => visited env cwd fuel (before ++ after) s

/-- **A step rewrites the first macro of a text.** -/
theorem rewrites_of_step {before after : Text}
    (h : step env cwd t s = .replaced before after s') :
    Rewrites env cwd (t, s) (before ++ after, s') := by
  obtain ⟨letters, arguments, hfind, hreplace⟩ := step_eq_replaced.1 h
  obtain ⟨name, markup, rest, hnamed, hrun, rfl⟩ := replace_eq_ok.1 hreplace
  have ht := Marker.eq_of_find?_eq_some hfind
  have hname : dropBytes? (byteSize before + 1) t = some (letters ++ arguments) :=
    Text.dropBytes?_cons (Text.dropBytes?_eq_some_iff.2 ⟨before, ht, rfl⟩)
  obtain ⟨outcome, hran, hland⟩ := exists_run?_eq env cwd name (Text.dropBytes?_append hname) s
  rw [hrun] at hran hland
  cases hland with
  | @ok _ stop _ hle hstop =>
    have hsize := Text.add_byteSize hstop
    have htake : (bytes t).take (byteSize before) = bytes before := by
      rw [ht, Text.bytes_append, ← Text.length_bytes, List.take_left]
    refine .first (Marker.isFirst_of_find? hfind) (Text.slice?_append hname) hnamed hran hle
      (by omega) ?_
    rw [htake, Text.drop_bytes hstop, Text.bytes_append, Text.bytes_append, List.append_assoc]

/-- The text that is expanded is the first to be visited. -/
theorem head?_visited (env : Environment σ) (cwd : Text) (fuel : Nat) (t : Text) (s : Session σ) :
    (visited env cwd fuel t s).head? = some (t, s) := by
  cases fuel <;> rfl

/-- **An expansion goes from text to text by rewriting the first macro.** -/
theorem isChain_visited (env : Environment σ) (cwd : Text) (fuel : Nat) (t : Text)
    (s : Session σ) : (visited env cwd fuel t s).IsChain (Rewrites env cwd) := by
  induction fuel generalizing t s with
  | zero => exact .singleton _
  | succ fuel ih =>
    rw [visited]
    cases hstep : step env cwd t s with
    | done => exact .singleton _
    | failed e s₁ => exact .singleton _
    | replaced before after s₁ =>
      refine List.isChain_cons.2 ⟨?_, ih (before ++ after) s₁⟩
      intro next hnext
      rw [head?_visited] at hnext
      cases hnext
      exact rewrites_of_step hstep

/-- An expansion ends with a text in which the search finds no macro, or where the first fails. -/
theorem exists_getLast?_visited {answer : Except ExpansionError Text} {fuel : Nat}
    (h : expand env cwd fuel t s = some (answer, s')) :
    ∃ u s₁, (visited env cwd fuel t s).getLast? = some (u, s₁) ∧
      ((answer = .ok u ∧ s' = s₁ ∧ step env cwd u s₁ = .done) ∨
        ∃ e, answer = .error e ∧ step env cwd u s₁ = .failed e s') := by
  induction fuel generalizing t s with
  | zero => cases h
  | succ fuel ih =>
    rw [expand] at h
    rw [visited]
    cases hstep : step env cwd t s with
    | done =>
      rw [hstep] at h
      cases h
      exact ⟨t, s', rfl, Or.inl ⟨rfl, rfl, hstep⟩⟩
    | failed e s₁ =>
      rw [hstep] at h
      cases h
      exact ⟨t, s, rfl, Or.inr ⟨e, rfl, hstep⟩⟩
    | replaced before after s₁ =>
      rw [hstep] at h
      obtain ⟨u, s₂, hlast, hend⟩ := ih h
      refine ⟨u, s₂, ?_, hend⟩
      simp only
      rw [List.getLast?_cons, hlast]
      rfl

/-- A text in which the search finds no macro is given as it is, whatever the site, the store and
the session are, and no macro is run. -/
theorem expand_of_find? (h : Marker.find? t = none) (env : Environment σ) (cwd : Text) (fuel : Nat)
    (s : Session σ) :
    expand env cwd (fuel + 1) t s = some (.ok t, s) ∧ dispatches env cwd (fuel + 1) t s = [] := by
  rw [expand, step, dispatches, h]
  exact ⟨rfl, rfl⟩

/-- A step that fails does so at the first macro. -/
theorem exists_isFirst_of_step {e : ExpansionError} (h : step env cwd t s = .failed e s') :
    ∃ start index, Marker.IsFirst t start index ∧
      replace? env cwd t start index s = some (.error e, s') := by
  obtain ⟨before, letters, arguments, hfind, hreplace⟩ := step_eq_failed.1 h
  refine ⟨_, _, Marker.isFirst_of_find? hfind, ?_⟩
  rw [Marker.eq_of_find?_eq_some hfind, replace?_eq, hreplace]
  rfl

/-- **An expansion rewrites the first macro until there is none, and what it gives stays as it is.**
From each text that it goes through to the next it runs the first macro, which begins at the first
place where a `#` is followed by a capital letter, from behind all letters that follow on, and
leaves the bytes before that place.  If it gives a text, it has come there so, no macro begins in
the text, and any expansion of it gives it again, leaves the session as it is and runs no macro.  If
it fails, it has come to a text whose first macro fails. -/
theorem expand_rewrites (env : Environment σ) (cwd t : Text) (s : Session σ) :
    (∀ fuel, (visited env cwd fuel t s).head? = some (t, s) ∧
      (visited env cwd fuel t s).IsChain (Rewrites env cwd)) ∧
    (∀ fuel r s', expand env cwd fuel t s = some (.ok r, s') →
      (visited env cwd fuel t s).getLast? = some (r, s') ∧ (∀ n, ¬ Marker.BeginsAt r n) ∧
      ∀ (τ : Type) (env' : Environment τ) (cwd' : Text) (fuel' : Nat) (s'' : Session τ),
        expand env' cwd' (fuel' + 1) r s'' = some (.ok r, s'') ∧
          dispatches env' cwd' (fuel' + 1) r s'' = []) ∧
    ∀ fuel e s', expand env cwd fuel t s = some (.error e, s') →
      ∃ u s₁ start index, (visited env cwd fuel t s).getLast? = some (u, s₁) ∧
        Marker.IsFirst u start index ∧
        replace? env cwd u start index s₁ = some (.error e, s') := by
  refine ⟨fun fuel => ⟨head?_visited env cwd fuel t s, isChain_visited env cwd fuel t s⟩,
    fun fuel r s' hexpand => ?_, fun fuel e s' hexpand => ?_⟩
  · have hfind := find?_of_expand_eq_ok hexpand
    obtain ⟨u, s₁, hlast, ⟨hok, rfl, -⟩ | ⟨e, herror, -⟩⟩ := exists_getLast?_visited hexpand
    · cases hok
      exact ⟨hlast, Marker.not_beginsAt_of_find? hfind, fun _ => expand_of_find? hfind⟩
    · cases herror
  · obtain ⟨u, s₁, hlast, ⟨hok, -, -⟩ | ⟨e', herror, hstep⟩⟩ := exists_getLast?_visited hexpand
    · cases hok
    · cases herror
      obtain ⟨start, index, hfirst, hreplace⟩ := exists_isFirst_of_step hstep
      exact ⟨u, s₁, start, index, hlast, hfirst, hreplace⟩

/-- A `#` stands before a macro and makes up a new macro with what that one turns into.  With no
argument behind it, the new macro fails. -/
theorem expand_rewrites_sharpInFront :
    (∃ s, expand (.usual ({} : Store.Listed).store) [] 3 "é##HTML(HTML)(x)".toList
          (start .zeros []) = some (.ok "éx".toList, s) ∧
        (visited (.usual ({} : Store.Listed).store) [] 3 "é##HTML(HTML)(x)".toList
          (start .zeros [])).getLast? = some ("éx".toList, s)) ∧
      ∃ e s, expand (.usual ({} : Store.Listed).store) [] 3 "é##HTML(HTML)".toList
          (start .zeros []) = some (.error e, s) ∧
        ∃ u s₁ start index, Marker.IsFirst u start index ∧
          replace? (.usual ({} : Store.Listed).store) [] u start index s₁ = some (.error e, s) := by
  have htext : (expand (.usual ({} : Store.Listed).store) [] 3 "é##HTML(HTML)(x)".toList
      (start .zeros [])).map (·.1.toOption) = some (some "éx".toList) := by decide +kernel
  have hnone : (expand (.usual ({} : Store.Listed).store) [] 3 "é##HTML(HTML)".toList
      (start .zeros [])).map (·.1.toOption) = some none := by decide +kernel
  obtain ⟨s, hok⟩ := exists_expand_eq htext
  obtain ⟨⟨result, s'⟩, herror, hresult⟩ := Option.map_eq_some_iff.1 hnone
  obtain ⟨-, hgiven, -⟩ := expand_rewrites (.usual ({} : Store.Listed).store) []
    "é##HTML(HTML)(x)".toList (start .zeros [])
  obtain ⟨-, -, hfails⟩ := expand_rewrites (.usual ({} : Store.Listed).store) []
    "é##HTML(HTML)".toList (start .zeros [])
  refine ⟨⟨s, hok, (hgiven 3 _ s hok).1⟩, ?_⟩
  cases result with
  | ok r => cases hresult
  | error e =>
    obtain ⟨u, s₁, start, index, -, hfirst, hreplace⟩ := hfails 3 e s' herror
    exact ⟨e, s', herror, u, s₁, start, index, hfirst, hreplace⟩

end Session

end MemoryDoc
