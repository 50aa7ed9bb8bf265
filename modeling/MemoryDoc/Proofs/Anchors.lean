/-
# Anchors

A link may lead to an anchor.  The link that a macro turns into is gone through for macros too, and
its anchor stands behind a `#`.  So it is taken for a macro if its name begins with a letter that
names of macros are written with, and stays as it is if it does not.

Main statement: macros for pages, items and addresses turn into the links that they are written for
exactly if the anchor does not begin with such a letter (`expand_anchor`).
-/
import MemoryDoc.Expansion
import MemoryDoc.Macro.Address
import MemoryDoc.Proofs.Calls
import MemoryDoc.Store.Listed
import MemoryDoc.Text.Bracket

namespace MemoryDoc

open Reader Handler

/-! ## What is read of an anchor -/

namespace Wording

variable {name text : Text}

/-- An anchor is read up to the first character that a name cannot have. -/
theorem anchor_append (h : ∀ c ∈ name, Text.isNameChar c = true) {c : Char}
    (hc : Text.isNameChar c = false) (rest : Text) :
    anchor ('#' :: (name ++ c :: rest)) = .ok ('#' :: name, c :: rest) := by
  refine bind_eq_ok.2 ⟨true, _, accept_eq_ok.2 (.inl ⟨rfl, rfl⟩), ?_⟩
  exact bind_eq_ok.2 ⟨name, _, readWhile_append h hc rest, rfl⟩

variable {p : Page} {path : Text}

/-- An item with an anchor and a text of its own is linked to. -/
theorem item_append {kind : Site.ItemKind} (hname : name ≠ [])
    (hchars : ∀ c ∈ name, Text.isNameChar c = true) (htext : text ≠ [])
    (hbalanced : Text.Balanced text) (hpath : p.site.settings.path? kind.page = some path) :
    item p kind ('#' :: (name ++ '(' :: (text ++ [')']))) =
      .ok (Site.Markup.link (Site.Path.relative p.cwd path ++ '#' :: name) text, []) := by
  refine bind_eq_ok.2 ⟨_, _, lift_eq_ok.2 (anchor_append hchars (by decide +kernel) _), ?_⟩
  refine bind_eq_ok.2 ⟨_, _, lift_eq_ok.2 (optionalBracketed_append hbalanced []), ?_⟩
  refine ofLink_eq_ok.2 ⟨?_, rfl⟩
  refine outcome_bind_eq_ok.2 ⟨text, if_pos htext, ?_⟩
  refine outcome_bind_eq_ok.2 ⟨_, by rw [Site.pagePath, hpath], ?_⟩
  simp [hname]
  rfl

/-- A page with an anchor is linked to. -/
theorem page_append {page : Text} (hpage : page ≠ [])
    (hpageChars : ∀ c ∈ page, isPageChar c = true)
    (hchars : ∀ c ∈ name, Text.isNameChar c = true) (htext : text ≠ [])
    (hbalanced : Text.Balanced text) (hpath : p.site.settings.path? page = some path) :
    Wording.page p (':' :: (page ++ '#' :: (name ++ '(' :: (text ++ [')'])))) =
      .ok (Site.Markup.link (Site.Path.relative p.cwd path ++ '#' :: name) text, []) := by
  refine bind_eq_ok.2 ⟨_, _, lift_eq_ok.2 rfl, ?_⟩
  refine bind_eq_ok.2 ⟨true, _, lift_eq_ok.2 (accept_eq_ok.2 (.inl ⟨rfl, rfl⟩)), ?_⟩
  refine bind_eq_ok.2 ⟨page, _, lift_eq_ok.2 (readWhile_append hpageChars (by decide) _), ?_⟩
  rw [if_neg hpage]
  refine bind_eq_ok.2 ⟨_, _, lift_eq_ok.2 (anchor_append hchars (by decide +kernel) _), ?_⟩
  refine bind_eq_ok.2 ⟨_, _, lift_eq_ok.2 (optionalBracketed_append hbalanced []), ?_⟩
  refine ofLink_eq_ok.2 ⟨?_, rfl⟩
  refine outcome_bind_eq_ok.2 ⟨_, by rw [Site.pagePath, hpath], ?_⟩
  simp [Site.orElse, htext]
  rfl

/-- An address at which an entry starts is linked to with the anchor that is given. -/
theorem routine_append {written directory : Text} {address : UInt16} {entry : Site.Entry}
    (hwritten : Reader.address written = .ok ((written, address), []))
    (hchars : ∀ c ∈ name, Text.isNameChar c = true) (htext : text ≠ [])
    (hbalanced : Text.Balanced text) (hdirectory : p.site.codePath none = .ok directory)
    (hentry : p.site.listing.container? address none = some entry)
    (hstart : entry.address = address) :
    routine p (written ++ '#' :: (name ++ '(' :: (text ++ [')']))) =
      .ok (Site.Markup.link (Site.Path.relative p.cwd (Site.Path.entryPage address directory) ++
        '#' :: name) text, []) := by
  have hends : Text.EndsDigits ('#' :: (name ++ '(' :: (text ++ [')']))) := by
    intro c hc
    cases hc
    decide
  refine bind_eq_ok.2 ⟨_, _, lift_eq_ok.2 (address_append hwritten hends), ?_⟩
  refine bind_eq_ok.2 ⟨none, _, lift_eq_ok.2 rfl, ?_⟩
  refine bind_eq_ok.2 ⟨_, _, lift_eq_ok.2 (anchor_append hchars (by decide +kernel) _), ?_⟩
  refine bind_eq_ok.2 ⟨_, _, lift_eq_ok.2 (optionalBracketed_append hbalanced []), ?_⟩
  refine ofLink_eq_ok.2 ⟨?_, rfl⟩
  refine outcome_bind_eq_ok.2 ⟨directory, hdirectory, ?_⟩
  refine outcome_bind_eq_ok.2 ⟨address, by simp only [Site.containerAddress, hentry, hstart], ?_⟩
  simp [Site.orElse, htext]
  rfl

end Wording

/-! ## Links behind which macros are looked for -/

namespace Site.Markup

variable {path text : Text} {first : Char} {name : Text}

/-- A link has its path in front of its anchor, and its text behind. -/
theorem link_eq (path text : Text) (first : Char) (name : Text) :
    link (path ++ '#' :: first :: name) text =
      ("<a href=\"" ++ path) ++ '#' :: first :: (name ++ ("\">" ++ text ++ "</a>")) := by
  simp [link, attr]

/-- There is a macro in a link exactly if its anchor begins with a letter of names. -/
theorem find?_link_eq_none_iff (hpath : '#' ∉ path) (htext : '#' ∉ text)
    (hchars : ∀ c ∈ first :: name, Text.isNameChar c = true) :
    Marker.find? (link (path ++ '#' :: first :: name) text) = none ↔
      Marker.isNameLetter first = false := by
  have hsharp : Text.isNameChar '#' = false := by decide +kernel
  have hfront : '#' ∉ "<a href=\"".toList ++ path := by
    rw [List.mem_append, not_or]
    exact ⟨by decide, hpath⟩
  have hbehind : '#' ∉ first :: (name ++ ("\">" ++ text ++ "</a>")) := by
    have hname : '#' ∉ first :: name := by
      intro h
      have := hchars '#' h
      rw [hsharp] at this
      cases this
    rw [← List.cons_append, List.mem_append, not_or]
    refine ⟨hname, ?_⟩
    simp [htext]
  rw [link_eq, Marker.find?_append_hash hfront, Marker.find?_of_not_mem hbehind]
  cases hfirst : Marker.isNameLetter first <;> simp [hfirst]

end Site.Markup

/-- The macro that links to an item of a kind. -/
def Site.ItemKind.textMacro : Site.ItemKind → TextMacro
  | bug => .bug
  | fact => .fact
  | poke => .poke

/-- The macros of the three kinds of items have one handler. -/
theorem Site.ItemKind.handler_textMacro (p : Page) (kind : Site.ItemKind) :
    kind.textMacro.handler p = Wording.item p kind := by
  cases kind <;> rfl

namespace Session

variable {σ : Type} {env : Environment σ} {cwd text : Text} {first : Char} {name : Text}

/-- A text turns into a link in one step, and nothing else happens.  The link is the answer unless
`taken`, and then it never is. -/
structure LinksUnless (env : Environment σ) (cwd t link : Text) (taken : Bool) (s : Session σ) :
    Prop where
  step_eq : step env cwd t s = .replaced [] link s
  links : taken = false → ∃ fuel, expand env cwd fuel t s = some (.ok link, s)
  never : taken = true → ∀ fuel s', expand env cwd fuel t s ≠ some (.ok link, s')

/-- A macro that turns into a link stays a link unless the anchor begins with a letter of names. -/
theorem linksUnless_of_handler {m : TextMacro} {arguments path : Text}
    (harguments : arguments.takeWhile Marker.isNameLetter = [])
    (hhandler : m.handler (page env cwd) arguments =
      .ok (Site.Markup.link (path ++ '#' :: first :: name) text, []))
    (hpath : '#' ∉ path) (htext : '#' ∉ text)
    (hchars : ∀ c ∈ first :: name, Text.isNameChar c = true) (s : Session σ) :
    LinksUnless env cwd ('#' :: ((MacroName.text m).name ++ arguments))
      (Site.Markup.link (path ++ '#' :: first :: name) text) (Marker.isNameLetter first) s := by
  have hlink := Site.Markup.find?_link_eq_none_iff hpath htext hchars
  have hrun : run env cwd (.text m) arguments s =
      (.ok (Site.Markup.link (path ++ '#' :: first :: name) text, []), s) := by
    rw [run, runText, hhandler]
  have hstep := step_name_append harguments hrun
  rw [List.append_nil] at hstep
  refine ⟨hstep, ?_, ?_⟩
  · intro hfirst
    refine ⟨2, ?_⟩
    rw [expand, hstep]
    simp only [List.nil_append]
    rw [expand, step, hlink.2 hfirst]
  · intro hfirst fuel s' hrun
    rw [hlink.1 (find?_of_expand_eq_ok hrun)] at hfirst
    cases hfirst

/-- **A link keeps its anchor unless the anchor looks like a macro.**  A macro for a page, an item,
or an address at which an entry starts, with an anchor and a text of its own, turns into the link to
the anchor on that page.  That link is what the expansion gives if the anchor does not begin with a
letter that names of macros are written with.  If it does, the anchor is taken for a macro, and the
expansion never gives the link. -/
theorem expand_anchor (env : Environment σ) (cwd : Text) (first : Char) (name text : Text)
    (s : Session σ) (hchars : ∀ c ∈ first :: name, Text.isNameChar c = true) (htext : text ≠ [])
    (hbalanced : Text.Balanced text) (hsharp : '#' ∉ text) :
    (∀ page path, page ≠ [] → (∀ c ∈ page, Wording.isPageChar c = true) →
      env.site.settings.path? page = some path → '#' ∉ path →
      LinksUnless env cwd
        ("#" ++ (MacroName.text .link).name ++ ":" ++ page ++ "#" ++ first :: name ++ "(" ++ text ++
          ")")
        (Site.Markup.link (Site.Path.relative cwd path ++ '#' :: first :: name) text)
        (Marker.isNameLetter first) s) ∧
    (∀ (kind : Site.ItemKind) path,
      env.site.settings.path? kind.page = some path → '#' ∉ path →
      LinksUnless env cwd
        ("#" ++ (MacroName.text kind.textMacro).name ++ "#" ++ first :: name ++ "(" ++ text ++ ")")
        (Site.Markup.link (Site.Path.relative cwd path ++ '#' :: first :: name) text)
        (Marker.isNameLetter first) s) ∧
    (∀ written address entry directory, Reader.address written = .ok ((written, address), []) →
      env.site.listing.container? address none = some entry → entry.address = address →
      env.site.codePath none = .ok directory → '#' ∉ directory →
      LinksUnless env cwd
        ("#" ++ (MacroName.text .r).name ++ written ++ "#" ++ first :: name ++ "(" ++ text ++ ")")
        (Site.Markup.link (Site.Path.relative cwd (Site.Path.entryPage address directory) ++
          '#' :: first :: name) text)
        (Marker.isNameLetter first) s) := by
  refine ⟨fun page path hpage hpageChars hpath hclean => ?_, fun kind path hpath hclean => ?_,
    fun written address entry directory hwritten hentry hstart hdirectory hclean => ?_⟩
  · have hrelative : '#' ∉ Site.Path.relative cwd path :=
      Site.Path.not_mem_relative (by decide) (by decide) cwd hclean
    -- What follows the name of the macro, as its handler takes it apart.
    have ht : "#" ++ (MacroName.text .link).name ++ ":" ++ page ++ "#" ++ first :: name ++ "(" ++
        text ++ ")" = '#' :: ((MacroName.text .link).name ++
          ':' :: (page ++ '#' :: ((first :: name) ++ '(' :: (text ++ [')'])))) := by
      simp
    have hhandler := Wording.page_append (p := Session.page env cwd) hpage hpageChars hchars htext
      hbalanced hpath
    rw [ht]
    exact linksUnless_of_handler (m := .link) (by rfl) hhandler hrelative hsharp hchars s
  · have hrelative : '#' ∉ Site.Path.relative cwd path :=
      Site.Path.not_mem_relative (by decide) (by decide) cwd hclean
    have ht : "#" ++ (MacroName.text kind.textMacro).name ++ "#" ++ first :: name ++ "(" ++ text ++
        ")" = '#' :: ((MacroName.text kind.textMacro).name ++
          '#' :: ((first :: name) ++ '(' :: (text ++ [')']))) := by
      simp
    have hhandler := Wording.item_append (p := page env cwd) (List.cons_ne_nil first name) hchars
      htext hbalanced hpath
    rw [← Site.ItemKind.handler_textMacro] at hhandler
    rw [ht]
    exact linksUnless_of_handler (by rfl) hhandler hrelative hsharp hchars s
  · have hrelative : '#' ∉ Site.Path.relative cwd (Site.Path.entryPage address directory) :=
      Site.Path.not_mem_relative (by decide) (by decide) _
        (Site.Path.not_mem_entryPage (by decide) (by decide) (by decide) _ hclean)
    have ht : "#" ++ (MacroName.text .r).name ++ written ++ "#" ++ first :: name ++ "(" ++ text ++
        ")" = '#' :: ((MacroName.text .r).name ++
          (written ++ '#' :: ((first :: name) ++ '(' :: (text ++ [')'])))) := by
      simp
    have hhandler := Wording.routine_append (p := page env cwd) hwritten hchars htext hbalanced
      hdirectory hentry hstart
    rw [ht]
    exact linksUnless_of_handler (m := .r) (takeWhile_of_address hwritten _) hhandler hrelative
      hsharp hchars s

/-- A name in lower case survives the second reading of its link. -/
theorem expand_anchor_bug1 :
    (∀ c ∈ "bug1".toList, Text.isNameChar c = true) ∧ "this bug".toList ≠ [] ∧
      Text.Balanced "this bug" ∧ '#' ∉ "this bug".toList ∧
      ∃ fuel, expand (.usual ({} : Store.Listed).store) [] fuel "#BUG#bug1(this bug)"
          (start .zeros [])
        = some (.ok "<a href=\"reference/bugs.html#bug1\">this bug</a>".toList, start .zeros []) := by
  have hchars : ∀ c ∈ "bug1".toList, Text.isNameChar c = true :=
    List.all_eq_true.1 (by decide +kernel)
  have hbalanced : Text.Balanced "this bug" :=
    Text.balanced_of_not_mem (by decide) (by decide)
  have hlinks := (expand_anchor (.usual ({} : Store.Listed).store) [] 'b' "ug1" "this bug"
    (start .zeros []) hchars (by decide) hbalanced (by decide)).2.1 .bug "reference/bugs.html"
    (by decide +kernel) (by decide)
  exact ⟨hchars, by decide, hbalanced, by decide, hlinks.links (by decide)⟩

/-- An anchor that begins with a capital letter is taken for a macro of that name. -/
theorem expand_capitalAnchor :
    (∀ c ∈ "Bug1".toList, Text.isNameChar c = true) ∧ Text.Balanced "this bug" ∧
      (Environment.usual ({} : Store.Listed).store).site.settings.path? Site.ItemKind.bug.page
        = some "reference/bugs.html".toList ∧
      expand (.usual ({} : Store.Listed).store) [] 2 "#BUG#Bug1(this bug)" (start .zeros [])
        = some (.error (.unknown "#B"), start .zeros []) :=
  ⟨List.all_eq_true.1 (by decide +kernel), Text.balanced_of_not_mem (by decide) (by decide),
    by decide +kernel, by rfl⟩

end Session

end MemoryDoc
