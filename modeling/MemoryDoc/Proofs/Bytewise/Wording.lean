/-
# Scanning the arguments of macros that turn into text

The handlers of the macros that turn into text, as they work on the whole text: anchors and the
arguments that errors quote are parts of the text between places.

Main statement: they follow the handlers that are given what is left of the text
(`follows_page`, `follows_routine`, `follows_call` and so on).
-/
import MemoryDoc.Macro.Wording
import MemoryDoc.Proofs.Bytewise.Scanner

namespace MemoryDoc

namespace Scanner

open Text (dropBytes? byteSize isNameChar isWordChar)

/-! ## Links -/

/-- The name behind `#`, if a `#` comes next. -/
def itemName : Scanner Fault Text := do
  if ← accept '#' then
    readWhile isNameChar
  else
    return []

/-- `[#item][(text)]` -/
def item (p : Page) (kind : Site.ItemKind) : Scanner MacroError Text := do
  let name ← itemName
  let text ← optionalBracketed
  ofLink (p.site.itemLink p.cwd kind name (text.getD []))

/-- The part of the text that names an anchor. -/
def anchor : Scanner Fault Text := do
  let start ← place
  if ← accept '#' then
    let _ ← readWhile isNameChar
  slice start (← place)

/-- The name of a page behind `:`. -/
def pageName : Scanner Fault Text := do
  if ← accept ':' then
    readWhile Wording.isPageChar
  else
    return []

/-- `:page[#anchor](text)` -/
def page (p : Page) : Scanner MacroError Text := do
  let index ← place
  let page ← pageName
  if page = [] then
    throw (.fault (.noPage (← slice index (← place))))
  let anchor ← anchor
  match ← optionalBracketed with
  | none => throw (.fault (.noLinkText (← slice index (← place))))
  | some text => ofLink (p.site.pageLink p.cwd page anchor text)

/-- `@code` where a macro may name another program. -/
def code : Scanner Fault (Option Text) := do
  if ← accept '@' then
    return some (← readWhile isNameChar)
  else
    return none

/-- `address[@code][#anchor][(text)]` -/
def routine (p : Page) : Scanner MacroError Text := do
  let (written, address) ← address
  let code ← code
  let anchor ← anchor
  let text ← optionalBracketed
  ofLink (p.site.addressLink p.cwd written address code anchor (text.getD []))

/-- `address[(text)]` -/
def referrers (p : Page) : Scanner MacroError Text := do
  let (written, address) ← address
  let text ← optionalBracketed
  let refs ← ofLink (p.site.referrers written address)
  if refs = [] then
    return Wording.noRoutines
  else
    return Text.trimFront Text.isBlank (text.getD [] ++ " " ++ Wording.routines refs)

/-- `address` -/
def entryPointReferrers (p : Page) : Scanner MacroError Text := do
  let (written, address) ← address
  let refs ← ofLink (p.site.entryPointReferrers written address)
  return Wording.routines refs

/-- `address` -/
def description (p : Page) : Scanner MacroError Text := do
  let (written, address) ← address
  ofLink (p.site.description written address)

/-! ## Characters, registers and calls -/

/-- The digits of a number, or a text in brackets without the blanks at its ends. -/
def numberText : Scanner Fault Text := do
  if charAt? (← read) (← place) = some '(' then
    return TableText.trimmed (← bracketed)
  else
    number

/-- A number, or a number in brackets, if there is one. -/
def numberArgument : Scanner Fault (Option UInt32) := do
  let raw ← numberText
  if raw = [] then
    return none
  match Numeral.parse? raw with
  | some n => return some n
  | none => throw (.badNumber raw)

/-- `number` -/
def character : Scanner MacroError Text := do
  match ← numberArgument with
  | some n => return Wording.entity n
  | none => throw (.fault .noNumber)

/-- `[number]` -/
def spaces : Scanner MacroError Text := do
  let n := (← numberArgument).getD 1
  return (List.replicate n.toNat (Wording.entity 160)).flatten

/-- `(text)` -/
def html : Scanner MacroError Text :=
  bracketed

/-- `register` -/
def register (p : Page) : Scanner MacroError Text := do
  let name ← readWhile Wording.registerChars.contains
  if name = [] then
    throw (.fault .noRegister)
  if !Wording.registers.contains name then
    throw (.fault (.badRegister name))
  return Site.Markup.register (if p.site.settings.lowerCase then name else name.map Char.toUpper)

/-- `:function(arguments)` -/
def call (p : Page) : Scanner MacroError Text := do
  if !(← accept ':') then
    throw (.fault .noFunction)
  let name ← readWhile isWordChar
  match ← optionalBracketed with
  | none => throw (.fault (.noArguments name))
  | some args =>
    match p.functions.find? name with
    | none => throw (.fault (.unknownFunction name))
    | some f => return f p.cwd (if args = [] then [] else args.splitOn ',')

/-! ## They follow the handlers -/

section

variable {t rest : Text} {n : Nat}

/-- A reader that goes on in a reader may be used in a handler as one or as two. -/
theorem lift_bind_bind {α β γ : Type} (r : Reader α) (f : α → Reader β) (k : β → Handler γ) :
    ((monadLift r : Handler α) >>= fun a => (monadLift (f a) : Handler β) >>= k) =
      ((monadLift (r >>= f) : Handler β) >>= k) := by
  funext t
  show (Reader.mapFault MacroError.fault r t >>=
      fun p => Reader.mapFault MacroError.fault (f p.1) p.2 >>= _) =
    (Reader.mapFault MacroError.fault (r >>= f) t >>= _)
  have hbind : (r >>= f) t = (r t >>= fun p => f p.1 p.2) := rfl
  unfold Reader.mapFault
  rw [hbind]
  cases r t <;> rfl

theorem lift_map_bind {α β γ : Type} (r : Reader α) (f : α → β) (k : β → Handler γ) :
    ((monadLift (do return f (← r) : Reader β) : Handler β) >>= k) =
      ((monadLift r : Handler α) >>= fun a => k (f a)) := by
  rw [← lift_bind_bind]
  rfl

/-- What an anchor is, and what is left behind it. -/
theorem anchor_eq (t : Text) :
    Wording.anchor t =
      if t.head? = some '#' then
        .ok ('#' :: t.tail.takeWhile isNameChar, t.tail.dropWhile isNameChar)
      else .ok ([], t) := by
  cases t with
  | nil => rfl
  | cons c t =>
    show (Reader.accept '#' (c :: t) >>= _) = _
    rw [Reader.accept]
    by_cases hc : c = '#'
    · subst hc
      rfl
    · rw [if_neg hc, if_neg (by simpa using hc)]
      rfl

theorem follows_itemName :
    Follows itemName (do return (← Wording.anchor).tail : Reader Text) := by
  intro t n rest hn
  show Lands t n _ (Wording.anchor rest >>= fun p => .ok (p.1.tail, p.2))
  unfold itemName
  rw [accept_bind hn, anchor_eq]
  split
  · next hhead =>
    obtain ⟨behind, rfl⟩ := List.head?_eq_some_iff.1 hhead
    simp only [if_true]
    exact (follows_readWhile isNameChar (Text.dropBytes?_cons hn)).of_le (Nat.le_add_right _ _)
  · exact .ok (Nat.le_refl n) hn

/-- A link to an item is scanned by the name and not by the anchor. -/
theorem follows_item (p : Page) (kind : Site.ItemKind) :
    Follows (item p kind) (Wording.item p kind) := by
  have hreader : Wording.item p kind = (do
      let name ← (do return (← Wording.anchor).tail : Reader Text)
      let text ← Reader.optionalBracketed
      Handler.ofLink (p.site.itemLink p.cwd kind name (text.getD [])) : Handler Text) := by
    rw [lift_map_bind]
    rfl
  rw [hreader]
  refine (follows_lift follows_itemName).bind fun name => ?_
  refine (follows_lift follows_optionalBracketed).bind fun text => ?_
  exact follows_ofLink _

theorem follows_anchor : Follows anchor Wording.anchor := by
  intro t n rest hn
  unfold anchor
  rw [place_bind, accept_bind hn, anchor_eq]
  split
  · next hhead =>
    obtain ⟨behind, rfl⟩ := List.head?_eq_some_iff.1 hhead
    have hnext := Text.dropBytes?_cons hn
    have hstop := dropBytes?_readWhile isNameChar hnext
    have hle : n ≤ n + '#'.utf8Size + byteSize (behind.takeWhile isNameChar) := by omega
    have hread := Text.consumed_dropWhile isNameChar ['#'] behind
    rw [List.singleton_append, List.singleton_append] at hread
    simp only [if_true, List.tail_cons]
    rw [readWhile_bind hnext, place_bind, slice_apply hle hn hstop, hread]
    exact .ok hle hstop
  · have hread := Text.consumed_append_left [] rest
    simp only [Bool.false_eq_true, if_false]
    rw [place_bind, slice_apply (Nat.le_refl n) hn hn]
    rw [List.nil_append] at hread
    rw [hread]
    exact .ok (Nat.le_refl n) hn

theorem follows_pageName :
    Follows pageName (do
      let colon ← Reader.accept ':'
      Reader.readWhile fun c => colon && Wording.isPageChar c : Reader Text) := by
  refine (follows_accept ':').bind fun found => ?_
  cases found with
  | true =>
    simp only [if_true, Bool.true_and]
    exact follows_readWhile _
  | false =>
    intro t n rest hn
    have hnone :
        Reader.readWhile (fun c => false && Wording.isPageChar c) rest = .ok ([], rest) := by
      cases rest <;> rfl
    rw [hnone]
    exact .ok (Nat.le_refl n) hn

/-- A link to a page is scanned up to the place behind its text. -/
theorem follows_page (p : Page) : Follows (page p) (Wording.page p) := by
  intro t n rest hn
  have hreader : Wording.page p rest = (do
      let page ← (do
        let colon ← Reader.accept ':'
        Reader.readWhile fun c => colon && Wording.isPageChar c : Reader Text)
      if page = [] then
        throw (.fault (.noPage (Text.consumed rest (← Reader.rest))))
      let anchor ← Wording.anchor
      match ← Reader.optionalBracketed with
      | none => throw (.fault (.noLinkText (Text.consumed rest (← Reader.rest))))
      | some text =>
        Handler.ofLink (p.site.pageLink p.cwd page anchor text) : Handler Text) rest := by
    rw [← lift_bind_bind]
    rfl
  rw [hreader]
  unfold page
  rw [place_bind]
  refine (follows_lift follows_pageName hn).bind fun name k left hle hk => ?_
  split
  · next hname =>
    rw [place_bind, slice_bind hle hn hk]
    exact .error _
  · next hname =>
    refine (follows_lift follows_anchor hk).bind fun anchor k' left' hle' hk' => ?_
    refine (follows_lift follows_optionalBracketed hk').bind fun text k'' left'' hle'' hk'' => ?_
    cases text with
    | none =>
      simp only
      rw [place_bind, slice_bind (by omega) hn hk'']
      exact .error _
    | some text => exact follows_ofLink _ hk''

theorem follows_code : Follows code Wording.code :=
  (follows_accept '@').bind fun _ => follows_ite
    ((follows_readWhile _).bind fun name => follows_pure (some name)) (follows_pure none)

theorem follows_routine (p : Page) : Follows (routine p) (Wording.routine p) := by
  refine (follows_lift follows_address).bind fun (written, address) => ?_
  refine (follows_lift follows_code).bind fun code => ?_
  refine (follows_lift follows_anchor).bind fun anchor => ?_
  refine (follows_lift follows_optionalBracketed).bind fun text => ?_
  exact follows_ofLink _

/-- The text in front of a list of referrers is scanned even if there are none. -/
theorem follows_referrers (p : Page) : Follows (referrers p) (Wording.referrers p) := by
  refine (follows_lift follows_address).bind fun (written, address) => ?_
  refine (follows_lift follows_optionalBracketed).bind fun text => ?_
  refine (follows_ofLink _).bind fun refs => ?_
  exact follows_ite (follows_pure _) (follows_pure _)

theorem follows_entryPointReferrers (p : Page) :
    Follows (entryPointReferrers p) (Wording.entryPointReferrers p) := by
  refine (follows_lift follows_address).bind fun (written, address) => ?_
  exact (follows_ofLink _).bind fun refs => follows_pure _

theorem follows_description (p : Page) : Follows (description p) (Wording.description p) :=
  (follows_lift follows_address).bind fun _ => follows_ofLink _

theorem follows_numberText : Follows numberText Wording.numberText := by
  intro t n rest hn
  unfold numberText
  rw [read_bind, place_bind, charAt?_eq hn]
  split
  · next hhead =>
    obtain ⟨behind, rfl⟩ := List.head?_eq_some_iff.1 hhead
    exact (follows_bracketed hn).bind fun raw _ _ _ hk => follows_pure (TableText.trimmed raw) hk
  · next hhead =>
    have hreader : Wording.numberText rest = Reader.number rest := by
      unfold Wording.numberText
      simp only [bind, StateT.bind, Reader.rest, Except.bind]
      split
      · exact absurd rfl hhead
      · rfl
    rw [hreader]
    exact follows_number hn

/-- A number is scanned as its text is. -/
theorem follows_numberArgument : Follows numberArgument Wording.numberArgument := by
  refine follows_numberText.bind fun raw => follows_ite (follows_pure none) ?_
  cases Numeral.parse? raw with
  | some n => exact follows_pure (some n)
  | none => exact follows_throw _

theorem follows_character : Follows character Wording.character := by
  refine (follows_lift follows_numberArgument).bind fun n => ?_
  cases n with
  | some n => exact follows_pure _
  | none => exact follows_throw _

theorem follows_spaces : Follows spaces Wording.spaces :=
  (follows_lift follows_numberArgument).bind fun _ => follows_pure _

theorem follows_html : Follows html Wording.html :=
  follows_lift follows_bracketed

theorem follows_register (p : Page) : Follows (register p) (Wording.register p) := by
  refine (follows_lift (follows_readWhile _)).bind fun name => ?_
  refine follows_ite (follows_throw _) (follows_ite (follows_throw _) (follows_pure _))

theorem follows_call (p : Page) : Follows (call p) (Wording.call p) := by
  refine (follows_lift (follows_accept ':')).bind fun found => ?_
  refine follows_ite (follows_throw _) ?_
  refine (follows_lift (follows_readWhile _)).bind fun name => ?_
  refine (follows_lift follows_optionalBracketed).bind fun arguments => ?_
  cases arguments with
  | none => exact follows_throw _
  | some arguments =>
    simp only
    cases p.functions.find? name with
    | none => exact follows_throw _
    | some f => exact follows_pure _

end

end Scanner

end MemoryDoc
