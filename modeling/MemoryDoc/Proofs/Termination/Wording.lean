/-
# Sharps in what macros turn into

On a site whose own texts have no `#`, what a macro turns into and what it leaves have no more open
`#`s than the text that it was given.  This is so of all macros that turn into text but four: a
description may have any macros in it, so may what a function gives, and both kinds of tables write
the class of a column in each of its cells.

The macro that links to an address may put that address behind a `#`; its text has no more `#`s of
any class.

Main statements: links (`count_routine_le`) and all other macros that turn into text
(`TextMacro.count_isOpen_handler_le`).
-/
import MemoryDoc.Macro.Advance
import MemoryDoc.Proofs.Termination.Sharps

namespace MemoryDoc

/-- The texts of a site that macros may write have no `#`: its paths, titles and link texts, the
titles of its items, the directories of other programs, and how listings write the addresses and
labels of instructions. -/
structure Site.Sharpless (s : Site) : Prop where
  paths : ∀ p ∈ s.settings.paths, '#' ∉ p.2
  titles : ∀ p ∈ s.settings.titles, '#' ∉ p.2
  links : ∀ p ∈ s.settings.links, '#' ∉ p.2
  items : ∀ kind, ∀ i ∈ s.settings.items kind, '#' ∉ i.title
  otherCode : ∀ p ∈ s.settings.otherCode, '#' ∉ p.2
  written : ∀ code entries, s.listing.code? code = some entries →
    ∀ e ∈ entries, ∀ i ∈ e.instructions, '#' ∉ i.written
  labels : ∀ e ∈ s.listing.entries, ∀ i ∈ e.instructions, ∀ label,
    i.label = some label → '#' ∉ label

open Reader Handler Sharp

/-! ## Texts of a site -/

namespace Site.Sharpless

variable {s : Site} {cwd page path written text : Text} {code : Option Text}

/-- The text of a link to a page has no sharp. -/
theorem linkText (h : s.Sharpless) (hpage : '#' ∉ page) : '#' ∉ s.settings.linkText page := by
  unfold Settings.linkText
  split
  · next hl =>
    obtain ⟨hl, -⟩ := Option.filter_eq_some_iff.1 hl
    exact h.links _ (Dictionary.mem_of_find?_eq_some hl)
  · next ht => exact h.titles _ (Dictionary.mem_of_find?_eq_some ht)
  · exact hpage

/-- A path of a page has no sharp. -/
theorem pagePath (h : s.Sharpless) (hp : s.pagePath cwd page = .ok path) : '#' ∉ path := by
  unfold Site.pagePath at hp
  split at hp
  · next target ht =>
    cases hp
    exact Path.not_mem_relative (by decide) (by decide) cwd
      (h.paths _ (Dictionary.mem_of_find?_eq_some ht))
  · cases hp

theorem codePath (h : s.Sharpless) (hp : s.codePath code = .ok path) : '#' ∉ path := by
  unfold Site.codePath at hp
  cases hc : s.settings.codePath? code with
  | none =>
    cases code <;> rw [hc] at hp <;> cases hp
    exact List.not_mem_nil
  | some directory =>
    rw [hc] at hp
    cases hp
    cases code with
    | none => exact h.paths _ (Dictionary.mem_of_find?_eq_some hc)
    | some name => exact h.otherCode _ (Dictionary.mem_of_find?_eq_some hc)

theorem label (h : s.Sharpless) {address : UInt16} {label : Text}
    (hl : s.listing.label? address = some label) : '#' ∉ label := by
  obtain ⟨i, hi, hlabel⟩ := Option.bind_eq_some_iff.1 hl
  obtain ⟨e, he, hei⟩ := List.exists_of_findSome?_eq_some hi
  exact h.labels e he i (List.mem_of_find?_eq_some hei) label hlabel

/-- An address is written without a sharp. -/
theorem writtenAddress (h : s.Sharpless) {address : UInt16} {writing : Text}
    (hw : s.listing.written? address code = some writing) : '#' ∉ writing := by
  obtain ⟨entries, hes, hw⟩ := Option.bind_eq_some_iff.1 hw
  obtain ⟨i, hi, rfl⟩ := Option.map_eq_some_iff.1 hw
  obtain ⟨e, he, hei⟩ := List.exists_of_findSome?_eq_some hi
  exact h.written code entries hes e he i (List.mem_of_find?_eq_some hei)

/-- The text of an address has no sharp. -/
theorem addressText (h : s.Sharpless) (hw : '#' ∉ written) (address : UInt16) (code : Option Text) :
    '#' ∉ s.addressText written address code := by
  unfold Site.addressText
  simp only
  split
  · next hl =>
    split at hl
    · exact h.label hl
    · cases hl
  · next hn => exact h.writtenAddress hn
  · exact hw

end Site.Sharpless

/-! ## Links -/

namespace Sharp

variable {p : Text → Bool}

/-- No `#` of a class stands before a number. -/
theorem count_decimal (hp : IsClass p) (n : Nat) (t : Text) :
    count p ('#' :: (Numeral.decimal n ++ t)) = count p t := by
  obtain ⟨c, cs, hcs⟩ := List.exists_cons_of_ne_nil (Numeral.decimal_ne_nil n)
  have hc : c.isDigit = true := Numeral.isDigit_of_mem_decimal (n := n) (hcs ▸ List.mem_cons_self)
  have hnot : p (Numeral.decimal n ++ t) = false := by
    rw [hcs]
    exact hp.digit c _ hc
  rw [count, hnot, if_neg (by simp), Nat.zero_add,
    count_append_of_not_mem (Numeral.not_mem_decimal (by decide) n)]

/-- The `#`s of a link and of the text behind it are those of its target and its text, and those
behind. -/
theorem count_link (hp : IsClass p) (href text rest : Text) :
    count p (Site.Markup.link href text ++ rest) = count p href + count p text + count p rest := by
  have hparts : Site.Markup.link href text ++ rest
      = "<a href=\"".toList ++
        (href ++ (['"', '>'] ++ (text ++ (['<', '/', 'a', '>'] ++ rest)))) := by
    simp [Site.Markup.link, Site.Markup.attr]
  rw [hparts, count_append_of_not_mem (by decide), count_around hp _ _ (by decide) (by decide),
    count_around hp _ _ (by decide) (by decide), Nat.add_assoc]

/-- The `#`s of an entity and of the text behind it are those behind. -/
theorem count_entity (hp : IsClass p) (n : UInt32) (t : Text) :
    count p (Wording.entity n ++ t) = count p t := by
  have hparts : Wording.entity n ++ t
      = ['&'] ++ '#' :: (Numeral.decimal n.toNat ++ ([';'] ++ t)) := by
    simp [Wording.entity]
  rw [hparts, count_append_of_not_mem (by decide), count_decimal hp,
    count_append_of_not_mem (by decide)]

/-- A default without sharps adds nothing. -/
theorem count_orElse_le {default : Text} (h : '#' ∉ default) (text : Text) :
    count p (Site.orElse text default) ≤ count p text := by
  unfold Site.orElse
  split
  · rw [count_eq_zero h]
    exact Nat.zero_le _
  · exact Nat.le_refl _

/-! ## What is read -/

/-- An anchor is told by its `#`, and what is left does not tell another. -/
theorem count_anchor (hp : IsClass p) {t anchor rest : Text}
    (ha : Wording.anchor t = .ok (anchor, rest)) :
    (anchor = [] ∨ ∃ name, anchor = '#' :: name) ∧ count p anchor + count p rest = count p t := by
  obtain ⟨found, left, haccept, hname⟩ := bind_eq_ok.1 ha
  rcases accept_eq_ok.1 haccept with ⟨rfl, rfl⟩ | ⟨rfl, -, rfl⟩
  · obtain ⟨name, left', hread, hpure⟩ := bind_eq_ok.1 (show (readWhile Text.isNameChar >>=
      fun name => pure ('#' :: name) : Reader Text) left = .ok (anchor, rest) from hname)
    cases hread
    cases hpure
    refine ⟨Or.inr ⟨_, rfl⟩, ?_⟩
    have hbreaks : Breaks (left.dropWhile Text.isNameChar) := by
      intro c hc
      have hnot := List.head?_dropWhile_not Text.isNameChar left
      rw [hc] at hnot
      constructor
      · cases hdigit : c.isDigit with
        | false => rfl
        | true => simp [Text.isNameChar, Text.isLetterOrDigit, Char.isAlphanum, hdigit] at hnot
      · rintro rfl
        exact absurd hnot (by decide)
    rw [← count_append hp _ hbreaks, List.cons_append, List.takeWhile_append_dropWhile]
  · cases hname
    exact ⟨Or.inl rfl, Nat.zero_add _⟩

/-- The text in brackets and what is left have no more `#`s than what was given. -/
theorem count_bracketed_le (hp : IsClass p) {t inside rest : Text}
    (h : bracketed t = .ok (inside, rest)) : count p inside + count p rest ≤ count p t := by
  unfold bracketed at h
  split at h
  · next t =>
    split at h
    · next hc =>
      cases h
      rw [eq_of_closing hc]
      refine Nat.le_trans (Nat.le_of_eq ?_) (count_append_right_le ['('] _)
      exact (count_around hp inside rest (c := ')') (w := []) (by decide) (by decide)).symm
    · cases h
  · cases h

/-- A text in brackets counts no more inside and behind them than all of it. -/
theorem count_optionalBracketed_le (hp : IsClass p) {t rest : Text} {inside : Option Text}
    (h : optionalBracketed t = .ok (inside, rest)) :
    count p (inside.getD []) + count p rest ≤ count p t := by
  unfold optionalBracketed at h
  split at h
  · split at h
    · next hb =>
      cases h
      exact count_bracketed_le hp hb
    · cases h
  · cases h
    exact Nat.le_of_eq (Nat.zero_add _)

/-- The digits of an address have no `#`. -/
theorem not_mem_of_address {t rest written : Text} {address : UInt16}
    (h : Reader.address t = .ok ((written, address), rest)) : '#' ∉ written := by
  have hnot {q : Char → Bool} {u v : Text} (hq : q '#' = false)
      (hread : readWhile q u = .ok (v, rest)) : '#' ∉ v := by
    intro hm
    have hclass := (readWhile_eq_ok.1 hread).2.1 '#' hm
    rw [hq] at hclass
    cases hclass
  obtain ⟨hnumber, -⟩ := address_eq_ok.1 h
  rcases number_eq_ok.1 hnumber with ⟨u, v, -, rfl, hread⟩ | ⟨-, hread⟩
  · rw [List.mem_cons, not_or]
    exact ⟨by decide, hnot (by decide) hread⟩
  · exact hnot (by decide) hread

/-! ## Links -/

section Links

variable {s : Site} {cwd text markup : Text}

/-- A link to a page counts no more than its anchor and its text. -/
theorem count_pageLink_le (hp : IsClass p) (h : s.Sharpless) {page anchor : Text}
    (hpage : '#' ∉ page) (hl : s.pageLink cwd page anchor text = .ok markup) (rest : Text) :
    count p (markup ++ rest) ≤ count p anchor + count p text + count p rest := by
  obtain ⟨path, hpath, hl⟩ := outcome_bind_eq_ok.1 hl
  cases hl
  have htext := count_orElse_le (p := p) (h.linkText hpage) text
  rw [count_link hp, count_append_of_not_mem (h.pagePath hpath)]
  omega

/-- The text of an item counts no more than the one that is given. -/
theorem count_itemText_le (h : s.Sharpless) {kind : Site.ItemKind} {item given : Text}
    (ht : s.itemText kind item given = .ok text) : count p text ≤ count p given := by
  have hzero : '#' ∉ text → count p text ≤ count p given := by
    intro hnot
    rw [count_eq_zero hnot]
    exact Nat.zero_le _
  unfold Site.itemText at ht
  split at ht
  · cases ht
    exact Nat.le_refl _
  · split at ht
    · cases ht
      exact hzero (h.linkText (by cases kind <;> decide))
    · split at ht
      · next hi =>
        cases ht
        exact hzero (h.items kind _ (List.mem_of_find?_eq_some hi))
      · cases ht

/-- A link to an item counts no more than its anchor and its text. -/
theorem count_itemLink_le (hp : IsClass p) (h : s.Sharpless) {kind : Site.ItemKind} {anchor : Text}
    (hanchor : anchor = [] ∨ ∃ name, anchor = '#' :: name)
    (hl : s.itemLink cwd kind anchor.tail text = .ok markup) (rest : Text) :
    count p (markup ++ rest) ≤ count p anchor + count p text + count p rest := by
  obtain ⟨title, htext, hl⟩ := outcome_bind_eq_ok.1 hl
  obtain ⟨path, hpath, hl⟩ := outcome_bind_eq_ok.1 hl
  cases hl
  have htitle := count_itemText_le (p := p) h htext
  have hitem : count p (if anchor.tail = [] then [] else '#' :: anchor.tail) ≤ count p anchor := by
    split
    · exact Nat.zero_le _
    · rcases hanchor with rfl | ⟨name, rfl⟩
      · contradiction
      · exact Nat.le_refl _
  rw [count_link hp, count_append_of_not_mem (h.pagePath hpath)]
  omega

theorem count_addressLink_le (hp : IsClass p) (h : s.Sharpless) {written anchor : Text}
    {address : UInt16} {code : Option Text} (hw : '#' ∉ written)
    (hl : s.addressLink cwd written address code anchor text = .ok markup) (rest : Text) :
    count p (markup ++ rest) ≤ count p anchor + count p text + count p rest := by
  obtain ⟨directory, hdirectory, hl⟩ := outcome_bind_eq_ok.1 hl
  obtain ⟨entry, -, hl⟩ := outcome_bind_eq_ok.1 hl
  cases hl
  have htext := count_orElse_le (p := p) (h.addressText hw address code) text
  have hanchor : count p (if address = entry then anchor
      else '#' :: Numeral.decimal address.toNat) ≤ count p anchor := by
    split
    · exact Nat.le_refl _
    · have hzero := count_decimal hp address.toNat []
      rw [List.append_nil] at hzero
      rw [hzero]
      exact Nat.zero_le _
  have hpath : '#' ∉ Site.Path.relative cwd (Site.Path.entryPage entry directory) :=
    Site.Path.not_mem_relative (by decide) (by decide) _
      (Site.Path.not_mem_entryPage (by decide) (by decide) (by decide) _ (h.codePath hdirectory))
  rw [count_link hp, count_append_of_not_mem hpath]
  omega

end Links

/-! ## Macros that turn into links -/

section Handlers

variable {page : Page} {t rest markup : Text}

/-- A link to an item counts no more than its macro. -/
theorem count_item_le (hp : IsClass p) (h : page.site.Sharpless) {kind : Site.ItemKind}
    (hm : Wording.item page kind t = .ok (markup, rest)) :
    count p (markup ++ rest) ≤ count p t := by
  obtain ⟨anchor, left, hanchor, hm⟩ := bind_eq_ok.1 hm
  obtain ⟨hform, hcount⟩ := count_anchor hp (lift_eq_ok.1 hanchor)
  obtain ⟨text, left', htext, hm⟩ := bind_eq_ok.1 hm
  obtain ⟨hlink, rfl⟩ := ofLink_eq_ok.1 hm
  have hbracketed := count_optionalBracketed_le hp (lift_eq_ok.1 htext)
  have hl := count_itemLink_le hp h hform hlink rest
  omega

theorem count_page_le (hp : IsClass p) (h : page.site.Sharpless)
    (hm : Wording.page page t = .ok (markup, rest)) : count p (markup ++ rest) ≤ count p t := by
  obtain ⟨start, left, hstart, hm⟩ := bind_eq_ok.1 hm
  obtain ⟨colon, left₁, hcolon, hm⟩ := bind_eq_ok.1 hm
  obtain ⟨name, left₂, hname, hm⟩ := bind_eq_ok.1 hm
  split at hm
  · obtain ⟨_, _, _, hm⟩ := bind_eq_ok.1 hm
    cases hm
  · obtain ⟨anchor, left₃, hanchor, hm⟩ := bind_eq_ok.1 hm
    obtain ⟨text, left₄, htext, hm⟩ := bind_eq_ok.1 hm
    cases text with
    | none =>
      obtain ⟨_, _, _, hm⟩ := bind_eq_ok.1 hm
      cases hm
    | some text =>
      obtain ⟨hlink, rfl⟩ := ofLink_eq_ok.1 hm
      -- The anchor starts where the name of the page ends.
      have hnot : '#' ∉ name := by
        have hread := lift_eq_ok.1 hname
        cases hread
        intro hc
        have := (List.all_eq_true.1 List.all_takeWhile) '#' hc
        simp [Wording.isPageChar] at this
      have h₁ := count_le_of_suffix (p := p) (advances_rest (lift_eq_ok.1 hstart))
      have h₂ := count_le_of_suffix (p := p) (advances_accept _ (lift_eq_ok.1 hcolon))
      have h₃ := count_le_of_suffix (p := p) (advances_readWhile _ (lift_eq_ok.1 hname))
      obtain ⟨-, hcount⟩ := count_anchor hp (lift_eq_ok.1 hanchor)
      have hbracketed := count_optionalBracketed_le hp (lift_eq_ok.1 htext)
      have hl := count_pageLink_le hp h hnot hlink rest
      rw [Option.getD_some] at hbracketed
      omega

theorem count_routine_le (hp : IsClass p) (h : page.site.Sharpless)
    (hm : Wording.routine page t = .ok (markup, rest)) : count p (markup ++ rest) ≤ count p t := by
  obtain ⟨⟨written, address⟩, left, haddress, hm⟩ := bind_eq_ok.1 hm
  obtain ⟨code, left₁, hcode, hm⟩ := bind_eq_ok.1 hm
  obtain ⟨anchor, left₂, hanchor, hm⟩ := bind_eq_ok.1 hm
  obtain ⟨text, left₃, htext, hm⟩ := bind_eq_ok.1 hm
  obtain ⟨hlink, rfl⟩ := ofLink_eq_ok.1 hm
  have h₁ := count_le_of_suffix (p := p) (advances_address (lift_eq_ok.1 haddress))
  have h₂ := count_le_of_suffix (p := p) (Wording.advances_code (lift_eq_ok.1 hcode))
  obtain ⟨-, hcount⟩ := count_anchor hp (lift_eq_ok.1 hanchor)
  have hbracketed := count_optionalBracketed_le hp (lift_eq_ok.1 htext)
  have hl := count_addressLink_le hp h (not_mem_of_address (lift_eq_ok.1 haddress)) hlink rest
  omega

/-! ## Other macros -/

/-- Routines in words have no open `#`. -/
theorem count_isOpen_routines (refs : List UInt16) : count isOpen (Wording.routines refs) = 0 := by
  have hmarker (address : UInt16) : count isOpen (Wording.routineMarker address) = 0 := by
    have hsharp : '#' ∉ 'R' :: Numeral.decimal address.toNat := by
      rw [List.mem_cons, not_or]
      exact ⟨by decide, Numeral.not_mem_decimal (by decide) _⟩
    obtain ⟨c, cs, hcs⟩ := List.exists_cons_of_ne_nil (Numeral.decimal_ne_nil address.toNat)
    have hc : c.isDigit = true := Numeral.isDigit_of_mem_decimal (hcs ▸ List.mem_cons_self)
    -- A sharp with an R and a digit behind it is one of a routine, and so not open.
    have hopen : isOpen ('R' :: Numeral.decimal address.toNat) = false := by
      have hroutine : isRoutine ('R' :: c :: cs) = c.isDigit := rfl
      rw [isOpen, hcs, hroutine, hc, Bool.not_true, Bool.and_false]
    show count isOpen ('#' :: 'R' :: Numeral.decimal address.toNat) = 0
    rw [count, hopen, if_neg (by simp), count_eq_zero hsharp]
  have hall : ∀ m ∈ (refs.map Wording.routineMarker).reverse, count isOpen m = 0 := by
    intro m hm
    obtain ⟨address, -, rfl⟩ := List.mem_map.1 (List.mem_reverse.1 hm)
    exact hmarker address
  unfold Wording.routines
  split
  · rfl
  · next only hrefs =>
    rw [hrefs] at hall
    rw [count_append_of_not_mem (by decide)]
    exact hall only (by simp)
  · next last before _ hrefs =>
    rw [hrefs] at hall
    have hlast := hall last (by simp)
    have hbefore : count isOpen (Text.join ", ".toList before.reverse) = 0 := by
      refine Nat.le_zero.1 (Nat.le_trans (count_isOpen_join_le (by decide) _) ?_)
      refine Nat.le_of_eq (List.sum_eq_zero_iff_forall_eq_nat.2 fun n hn => ?_)
      obtain ⟨m, hm, rfl⟩ := List.mem_map.1 hn
      exact hall m (List.mem_cons_of_mem _ (List.mem_reverse.1 hm))
    -- Commas and the word between the last two hold no sharp.
    have hjoin := count_isOpen_append_le (Text.join ", ".toList before.reverse)
      (" and ".toList ++ last)
    rw [List.append_assoc, List.append_assoc, count_append_of_not_mem (by decide)]
    rw [count_append_of_not_mem (a := " and ".toList) (by decide)] at hjoin
    omega

/-- A list of referrers opens markers of routines only, which do not count here. -/
theorem count_referrers_le (hm : Wording.referrers page t = .ok (markup, rest)) :
    count isOpen (markup ++ rest) ≤ count isOpen t := by
  obtain ⟨⟨written, address⟩, left, haddress, hm⟩ := bind_eq_ok.1 hm
  obtain ⟨text, left₁, htext, hm⟩ := bind_eq_ok.1 hm
  obtain ⟨refs, left₂, hrefs, hwording⟩ := bind_eq_ok.1 hm
  obtain ⟨-, rfl⟩ := ofLink_eq_ok.1 hrefs
  have h₁ := count_le_of_suffix (p := isOpen) (advances_address (lift_eq_ok.1 haddress))
  have hbracketed := count_optionalBracketed_le isClass_isOpen (lift_eq_ok.1 htext)
  split at hwording
  · cases hwording
    rw [count_append_of_not_mem (by decide)]
    omega
  · cases hwording
    have hsuffix := count_le_of_suffix (p := isOpen) (List.dropWhile_suffix Text.isBlank
      (l := text.getD [] ++ " ".toList ++ Wording.routines refs))
    have hparts := count_isOpen_append_le (text.getD []) (" ".toList ++ Wording.routines refs)
    rw [count_append_of_not_mem (a := " ".toList) (by decide), count_isOpen_routines,
      ← List.append_assoc] at hparts
    have hall := count_isOpen_append_le (Text.trimFront Text.isBlank
      (text.getD [] ++ " ".toList ++ Wording.routines refs)) rest
    unfold Text.trimFront at hall ⊢
    omega

/-- A list of referrers of an entry point opens markers of routines only. -/
theorem count_entryPointReferrers_le
    (hm : Wording.entryPointReferrers page t = .ok (markup, rest)) :
    count isOpen (markup ++ rest) ≤ count isOpen t := by
  obtain ⟨⟨written, address⟩, left, haddress, hm⟩ := bind_eq_ok.1 hm
  obtain ⟨refs, left₁, hrefs, hwording⟩ := bind_eq_ok.1 hm
  obtain ⟨-, rfl⟩ := ofLink_eq_ok.1 hrefs
  cases hwording
  have h₁ := count_le_of_suffix (p := isOpen) (advances_address (lift_eq_ok.1 haddress))
  have hall := count_isOpen_append_le (Wording.routines refs) rest
  rw [count_isOpen_routines] at hall
  omega

/-- A character opens nothing, though it is written with a sharp. -/
theorem count_character_le (hm : Wording.character t = .ok (markup, rest)) :
    count isOpen (markup ++ rest) ≤ count isOpen t := by
  have hrest := count_le_of_suffix (p := isOpen) (Wording.advances_character hm)
  obtain ⟨n, left, hn, hm⟩ := bind_eq_ok.1 hm
  cases n with
  | none => cases hm
  | some n =>
    cases hm
    rw [count_entity isClass_isOpen]
    exact hrest

/-- Blanks open nothing, though they are written with sharps. -/
theorem count_spaces_le (hm : Wording.spaces t = .ok (markup, rest)) :
    count isOpen (markup ++ rest) ≤ count isOpen t := by
  have hrest := count_le_of_suffix (p := isOpen) (Wording.advances_spaces hm)
  obtain ⟨n, left, hn, hm⟩ := bind_eq_ok.1 hm
  cases hm
  have hspaces (k : Nat) (u : Text) :
      count isOpen ((List.replicate k (Wording.entity 160)).flatten ++ u) = count isOpen u := by
    induction k with
    | zero => rfl
    | succ k ih =>
      rw [List.replicate_succ, List.flatten_cons, List.append_assoc,
        count_entity isClass_isOpen, ih]
  rw [hspaces]
  exact hrest

/-- Markup that is written out opens what it opened in its brackets. -/
theorem count_html_le (hm : Wording.html t = .ok (markup, rest)) :
    count isOpen (markup ++ rest) ≤ count isOpen t :=
  Nat.le_trans (count_isOpen_append_le markup rest)
    (count_bracketed_le isClass_isOpen (lift_eq_ok.1 hm))

/-- The name of a register opens nothing. -/
theorem count_register_le (hm : Wording.register page t = .ok (markup, rest)) :
    count isOpen (markup ++ rest) ≤ count isOpen t := by
  have hrest := count_le_of_suffix (p := isOpen) (Wording.advances_register page hm)
  have hnot : ∀ name ∈ Wording.registers, '#' ∉ Site.Markup.register name
      ∧ '#' ∉ Site.Markup.register (name.map Char.toUpper) := by decide +kernel
  obtain ⟨name, left, hname, hm⟩ := bind_eq_ok.1 hm
  split at hm
  · cases hm
  · cases hmem : Wording.registers.contains name with
    | false =>
      rw [hmem] at hm
      cases hm
    | true =>
      rw [hmem] at hm
      cases hm
      have hmem : name ∈ Wording.registers := by simpa using hmem
      rw [count_append_of_not_mem]
      · exact hrest
      · split
        · exact (hnot name hmem).1
        · exact (hnot name hmem).2

/-- A list has no more open `#`s than the text of its class and of its items. -/
theorem count_isOpen_list_le (cls : Text) (items : List Text) :
    count isOpen (Site.Markup.list cls items)
      ≤ count isOpen cls + (items.map (count isOpen)).sum := by
  have hcls : count isOpen ("<ul".toList ++ Site.Markup.classAttr cls ++ ">".toList)
      ≤ count isOpen cls := by
    refine Nat.le_trans (count_isOpen_between_le (by decide) (by decide) _) ?_
    unfold Site.Markup.classAttr
    split
    · exact Nat.zero_le _
    · exact count_isOpen_between_le (by decide) (by decide) _
  have hitems : ((items.map fun item : Text => "<li>".toList ++ item ++ "</li>".toList).map
      (count isOpen)).sum ≤ (items.map (count isOpen)).sum := by
    induction items with
    | nil => exact Nat.le_refl _
    | cons item items ih =>
      have hitem := count_isOpen_between_le (a := "<li>".toList) (b := "</li>".toList)
        (by decide) (by decide) item
      simp only [List.map_cons, List.sum_cons] at ih ⊢
      omega
  have hend : count isOpen "</ul>".toList = 0 := count_eq_zero (by decide)
  refine Nat.le_trans (count_isOpen_join_le (by decide) _) ?_
  simp only [List.map_append, List.sum_append, List.map_cons, List.map_nil, List.sum_cons,
    List.sum_nil]
  omega

/-- A list opens what its items opened. -/
theorem count_list_le
    (hm : Wording.block "LIST#" "list" Wording.listMarkup t = .ok (markup, rest)) :
    count isOpen (markup ++ rest) ≤ count isOpen t := by
  unfold Wording.block at hm
  split at hm
  · cases hm
  · next body left hcut =>
    split at hm
    · next hmarkup =>
      cases hm
      obtain ⟨⟨cls, items⟩, hcls, hmarkup⟩ := outcome_bind_eq_ok.1 hmarkup
      cases hmarkup
      have hbracketed := count_optionalBracketed_le isClass_isOpen hcls
      have hlist := count_isOpen_list_le (TableText.trimmed (cls.getD [])) (TableText.blocks items)
      have htrim := count_trimmed_le isClass_isOpen (cls.getD [])
      have hblocks := sum_count_blocks_le isClass_isOpen items
      have hall := count_isOpen_append_le
        (Site.Markup.list (TableText.trimmed (cls.getD [])) (TableText.blocks items)) rest
      have hword := count_append isClass_isOpen body (b := "LIST#".toList ++ rest)
        (breaks_cons (by decide))
      have hrest := count_append_right_le (p := isOpen) "LIST#".toList rest
      rw [Text.eq_of_cutWord hcut, hword]
      omega
    · cases hm

end Handlers

end Sharp

/-- The macro may turn into more macros than it was given: those of a description, of what a function
gives, or of the class of a column in each of its cells. -/
def TextMacro.mayRecur : TextMacro → Bool
  | .d | .call | .table | .udgtable => true
  | _ => false

/-- **A macro that turns into text, but for four, makes no `#` open.** -/
theorem TextMacro.count_isOpen_handler_le {page : Page} (h : page.site.Sharpless) {m : TextMacro}
    (hrecur : m.mayRecur = false) {t rest markup : Text}
    (hm : m.handler page t = .ok (markup, rest)) :
    count isOpen (markup ++ rest) ≤ count isOpen t := by
  cases m with
  | bug => exact count_item_le isClass_isOpen h hm
  | fact => exact count_item_le isClass_isOpen h hm
  | poke => exact count_item_le isClass_isOpen h hm
  | link => exact count_page_le isClass_isOpen h hm
  | r => exact count_routine_le isClass_isOpen h hm
  | refs => exact count_referrers_le hm
  | erefs => exact count_entryPointReferrers_le hm
  | chr => exact count_character_le hm
  | space => exact count_spaces_le hm
  | html => exact count_html_le hm
  | reg => exact count_register_le hm
  | list => exact count_list_le hm
  | d => cases hrecur
  | call => cases hrecur
  | table => cases hrecur
  | udgtable => cases hrecur

end MemoryDoc
