/-
# Where links lead

Links and pictures have paths relative to the directory of their page.  Followed from there, the path
of a link leads to the page that the macro is written for, and the path of a picture to the file that
is opened for it, unless the page lies outside of the root.

Main statement: what macros turn into leads to the targets that they are written for
(`links_leadToTargets`).
-/
import MemoryDoc.Proofs.Anchors
import MemoryDoc.Proofs.Writing
import MemoryDoc.Site.Follow

namespace MemoryDoc

open Reader Handler

namespace Site

/-- Markup that is a link from a page in the directory `cwd` to a target, or to an anchor there. -/
def Markup.LinksTo (cwd target markup : Text) : Prop :=
  ∃ href anchor text, markup = link (href ++ anchor) text ∧
    (anchor = [] ∨ anchor.head? = some '#') ∧ Path.LeadsTo cwd href target

variable {s : Site} {cwd markup anchor text : Text}

/-- A relative path leads to the target, with an anchor or without. -/
theorem linksTo_relative (hcwd : Path.Inside cwd) (target : Text)
    (hanchor : anchor = [] ∨ anchor.head? = some '#') :
    Markup.LinksTo cwd target (Markup.link (Path.relative cwd target ++ anchor) text) :=
  ⟨_, anchor, text, rfl, hanchor, Path.leadsTo_relative hcwd target⟩

/-- The path of a page is relative to the one that it is linked from. -/
theorem pagePath_eq_ok {page path : Text} (h : s.pagePath cwd page = .ok path) :
    ∃ target, s.settings.path? page = some target ∧ path = Path.relative cwd target := by
  rw [pagePath] at h
  split at h
  · next target htarget =>
    cases h
    exact ⟨target, htarget, rfl⟩
  · cases h

/-- A link to a page leads there. -/
theorem linksTo_of_pageLink (hcwd : Path.Inside cwd) {page : Text}
    (hanchor : anchor = [] ∨ anchor.head? = some '#')
    (h : s.pageLink cwd page anchor text = .ok markup) :
    ∃ target, s.settings.path? page = some target ∧ Markup.LinksTo cwd target markup := by
  obtain ⟨path, hpath, h⟩ := outcome_bind_eq_ok.1 h
  obtain ⟨target, htarget, rfl⟩ := pagePath_eq_ok hpath
  cases h
  exact ⟨target, htarget, linksTo_relative hcwd target hanchor⟩

/-- A link to an item leads to the page of the items of its kind. -/
theorem linksTo_of_itemLink (hcwd : Path.Inside cwd) {kind : ItemKind} {item : Text}
    (h : s.itemLink cwd kind item text = .ok markup) :
    ∃ target, s.settings.path? kind.page = some target ∧ Markup.LinksTo cwd target markup := by
  obtain ⟨shown, -, h⟩ := outcome_bind_eq_ok.1 h
  obtain ⟨path, hpath, h⟩ := outcome_bind_eq_ok.1 h
  obtain ⟨target, htarget, rfl⟩ := pagePath_eq_ok hpath
  cases h
  refine ⟨target, htarget, linksTo_relative hcwd target ?_⟩
  split
  · exact .inl rfl
  · exact .inr rfl

/-- A link to an address leads to the page of the entry that has an instruction there. -/
theorem linksTo_of_addressLink (hcwd : Path.Inside cwd) {written : Text} {address : UInt16}
    {code : Option Text} (hanchor : anchor = [] ∨ anchor.head? = some '#')
    (h : s.addressLink cwd written address code anchor text = .ok markup) :
    ∃ directory entry, s.codePath code = .ok directory ∧
      s.containerAddress written address code = .ok entry ∧
      Markup.LinksTo cwd (Path.entryPage entry directory) markup := by
  obtain ⟨directory, hdirectory, h⟩ := outcome_bind_eq_ok.1 h
  obtain ⟨entry, hentry, h⟩ := outcome_bind_eq_ok.1 h
  cases h
  refine ⟨directory, entry, hdirectory, hentry, linksTo_relative hcwd _ ?_⟩
  split
  · exact hanchor
  · exact .inr rfl

end Site

/-! ## Macros -/

/-- The page that a macro is written for: the page of a name, the page of the items of a kind, or the
page of the entry that has an instruction at an address. -/
inductive TextMacro.Targets (s : Site) : (m : TextMacro) → (arguments target : Text) → Prop where
  | page {arguments target : Text}
      (htarget : s.settings.path? (arguments.tail.takeWhile Wording.isPageChar) = some target) :
      Targets s .link arguments target
  | items {kind : Site.ItemKind} {arguments target : Text}
      (htarget : s.settings.path? kind.page = some target) :
      Targets s kind.textMacro arguments target
  | entry {arguments written left left' directory : Text} {address entry : UInt16}
      {code : Option Text} (haddress : Reader.address arguments = .ok ((written, address), left))
      (hcode : Wording.code left = .ok (code, left')) (hdirectory : s.codePath code = .ok directory)
      (hentry : s.containerAddress written address code = .ok entry) :
      Targets s .r arguments (Site.Path.entryPage entry directory)

namespace Wording

variable {p : Page} {arguments markup rest : Text}

/-- An anchor is read with its `#`. -/
theorem anchor_eq_ok {t left found : Text} (h : anchor t = .ok (found, left)) :
    found = [] ∨ found.head? = some '#' := by
  obtain ⟨accepted, behind, -, h⟩ := bind_eq_ok.1 h
  split at h
  · obtain ⟨name, _, -, h⟩ := bind_eq_ok.1 h
    cases h
    exact .inr rfl
  · cases h
    exact .inl rfl

/-- A link to a page leads to the path that the page is told to have. -/
theorem targets_of_page (hcwd : Site.Path.Inside p.cwd)
    (h : page p arguments = .ok (markup, rest)) :
    ∃ target, TextMacro.Targets p.site .link arguments target ∧
      Site.Markup.LinksTo p.cwd target markup := by
  obtain ⟨_, _, hstart, h⟩ := bind_eq_ok.1 h
  cases lift_eq_ok.1 hstart
  obtain ⟨colon, behind, hcolon, h⟩ := bind_eq_ok.1 h
  obtain ⟨name, _, hname, h⟩ := bind_eq_ok.1 h
  obtain ⟨rfl, -⟩ := Prod.mk.inj (Except.ok.inj (lift_eq_ok.1 hname))
  split at h
  · cases h
  next hnamed =>
  obtain ⟨found, _, hfound, h⟩ := bind_eq_ok.1 h
  obtain ⟨text, _, -, h⟩ := bind_eq_ok.1 h
  cases text with
  | none => cases h
  | some text =>
    obtain ⟨hlink, -⟩ := ofLink_eq_ok.1 h
    obtain ⟨target, htarget, hlinks⟩ :=
      Site.linksTo_of_pageLink hcwd (anchor_eq_ok (lift_eq_ok.1 hfound)) hlink
    rcases accept_eq_ok.1 (lift_eq_ok.1 hcolon) with ⟨rfl, rfl⟩ | ⟨rfl, -, rfl⟩
    · exact ⟨target, .page htarget, hlinks⟩
    · -- Without a colon no name is read.
      exact absurd (by cases behind <;> rfl) hnamed

/-- A link to an item leads to the page of its kind. -/
theorem targets_of_item (hcwd : Site.Path.Inside p.cwd) (kind : Site.ItemKind)
    (h : item p kind arguments = .ok (markup, rest)) :
    ∃ target, TextMacro.Targets p.site kind.textMacro arguments target ∧
      Site.Markup.LinksTo p.cwd target markup := by
  obtain ⟨found, _, -, h⟩ := bind_eq_ok.1 h
  obtain ⟨text, _, -, h⟩ := bind_eq_ok.1 h
  obtain ⟨target, htarget, hlinks⟩ := Site.linksTo_of_itemLink hcwd (ofLink_eq_ok.1 h).1
  exact ⟨target, .items htarget, hlinks⟩

/-- A link to a routine leads to the page of its entry. -/
theorem targets_of_routine (hcwd : Site.Path.Inside p.cwd)
    (h : routine p arguments = .ok (markup, rest)) :
    ∃ target, TextMacro.Targets p.site .r arguments target ∧
      Site.Markup.LinksTo p.cwd target markup := by
  obtain ⟨⟨written, address⟩, left, haddress, h⟩ := bind_eq_ok.1 h
  obtain ⟨code, left', hcode, h⟩ := bind_eq_ok.1 h
  obtain ⟨found, _, hfound, h⟩ := bind_eq_ok.1 h
  obtain ⟨text, _, -, h⟩ := bind_eq_ok.1 h
  obtain ⟨directory, entry, hdirectory, hentry, hlinks⟩ :=
    Site.linksTo_of_addressLink hcwd (anchor_eq_ok (lift_eq_ok.1 hfound)) (ofLink_eq_ok.1 h).1
  exact ⟨_, .entry (lift_eq_ok.1 haddress) (lift_eq_ok.1 hcode) hdirectory hentry, hlinks⟩

end Wording

/-- The macros that turn into links. -/
def TextMacro.links : List TextMacro :=
  [.link, .bug, .fact, .poke, .r]

/-- **A macro that turns into a link leads to the page that it is written for.** -/
theorem TextMacro.targets_of_handler {p : Page} (hcwd : Site.Path.Inside p.cwd) {m : TextMacro}
    (hm : m ∈ links) {arguments markup rest : Text}
    (h : m.handler p arguments = .ok (markup, rest)) :
    ∃ target, m.Targets p.site arguments target ∧ Site.Markup.LinksTo p.cwd target markup := by
  simp only [links, List.mem_cons, List.not_mem_nil, or_false] at hm
  rcases hm with rfl | rfl | rfl | rfl | rfl
  · exact Wording.targets_of_page hcwd h
  · exact Wording.targets_of_item hcwd .bug h
  · exact Wording.targets_of_item hcwd .fact h
  · exact Wording.targets_of_item hcwd .poke h
  · exact Wording.targets_of_routine hcwd h

namespace Session

variable {σ : Type} {env : Environment σ} {cwd : Text}

/-- **An element that shows a picture leads to the path that is opened for it,** if one is. -/
theorem leadsTo_of_run_picture (hcwd : Site.Path.Inside cwd) {m : PictureMacro}
    {arguments markup rest : Text} {s t : Session σ}
    (h : run env cwd (.picture m) arguments s = (.ok (markup, rest), t)) :
    markup = [] ∧ t.events = s.events ∨
      ∃ path source, markup = Site.Markup.picture (Site.pictureName path) source ∧
        Site.Path.LeadsTo cwd source path ∧ (t.events = s.events ∨
          ∃ format frames outcome,
            t.events = s.events ++ [.opened path, .encoded path format frames outcome]) := by
  rcases run_picture_eq h with ⟨-, ⟨e, he⟩, -⟩ | ⟨job, left, answer, -, -, hjob, hresult⟩
  · cases he
  obtain rfl : markup = job.markup cwd := by
    cases answer with
    | error e => cases hresult
    | ok _ =>
      cases hresult
      rfl
  cases hpath : job.path? with
  | none =>
    refine .inl ⟨by simp only [PictureJob.markup, hpath], ?_⟩
    rcases hjob.events with ⟨hevents, -⟩ | ⟨path, -, -, -, hopened, -⟩
    · exact hevents
    · rw [hpath] at hopened
      cases hopened
  | some path =>
    refine .inr ⟨path, Site.Path.relative cwd path, by simp only [PictureJob.markup, hpath]; rfl,
      Site.Path.leadsTo_relative hcwd path, ?_⟩
    rcases hjob.events with ⟨hevents, -⟩ | ⟨path', format, frames, outcome, hopened, -, hevents, -⟩
    · exact .inl hevents
    · rw [hpath] at hopened
      cases hopened
      exact .inr ⟨format, frames, outcome, hevents⟩

open Site (Path.normal Path.join Path.relative)

/-- **Relative paths lead back to their targets.**  The shortest path to a place cannot be made shorter,
and neither can the path of a target from a directory, which is told by the shortest paths of both.
Followed from a directory inside of the root it leads to the target, wherever that lies.  So every link
that a macro of such a page turns into leads to the page that the macro is written for, and every
element that shows a picture to the path of the picture, which is the one that is opened if one is. -/
theorem links_leadToTargets (env : Environment σ) (cwd : Text) (hcwd : Site.Path.Inside cwd) :
    (∀ path, Path.normal (Path.normal path) = Path.normal path) ∧
    (∀ from_ target, Path.normal (Path.relative from_ target) = Path.relative from_ target) ∧
    (∀ from₁ from₂ target₁ target₂, Path.normal from₁ = Path.normal from₂ →
      Path.normal target₁ = Path.normal target₂ →
      Path.relative from₁ target₁ = Path.relative from₂ target₂) ∧
    (∀ target, Path.normal (Path.join [cwd, Path.relative cwd target]) = Path.normal target) ∧
    (∀ m ∈ TextMacro.links, ∀ arguments markup rest (s t : Session σ),
      run env cwd (.text m) arguments s = (.ok (markup, rest), t) →
      ∃ target, m.Targets env.site arguments target ∧
        Site.Markup.LinksTo cwd target markup) ∧
    (∀ m arguments markup rest (s t : Session σ),
      run env cwd (.picture m) arguments s = (.ok (markup, rest), t) →
      markup = [] ∧ t.events = s.events ∨
        ∃ path source, markup = Site.Markup.picture (Site.pictureName path) source ∧
          Site.Path.LeadsTo cwd source path ∧ (t.events = s.events ∨
            ∃ format frames outcome,
              t.events = s.events ++ [.opened path, .encoded path format frames outcome])) := by
  refine ⟨Site.Path.normal_normal, Site.Path.normal_relative,
    fun _ _ _ _ => Site.Path.relative_congr, Site.Path.leadsTo_relative hcwd,
    fun m hm arguments markup rest s t h => ?_, fun _ _ _ _ _ _ => leadsTo_of_run_picture hcwd⟩
  exact TextMacro.targets_of_handler (p := page env cwd) hcwd hm (Prod.mk.inj h).1

/-- A directory that is written with parts that mean nothing or are taken back. -/
def deep : Text := "./maps/x/..//deep/"

/-- A page in it, with a link out of the root, to an anchor and to a picture. -/
theorem links_leadToTargets_deep :
    Site.Path.Inside deep ∧ Path.normal deep = Path.normal "maps/deep" ∧
      Path.normal "a/../../b" = Path.normal "../b/." ∧
      Path.relative deep "a/../../b" = Path.relative "maps/deep" "../b/." ∧
      Path.normal (Path.join [deep, "../../../b"]) = "../b".toList ∧
      TextMacro.link ∈ TextMacro.links ∧
      (∃ target, TextMacro.link.Targets (Environment.usual ({} : Store.Listed).store).site
          ":Bugs#b1(x)" target ∧
        Site.Markup.LinksTo deep target "<a href=\"../../reference/bugs.html#b1\">x</a>") ∧
      ∃ path source, "<img alt=\"a\" src=\"../../images/udgs/a.png\" />".toList =
          Site.Markup.picture (Site.pictureName path) source ∧
        Site.Path.LeadsTo deep source path := by
  have hinside : Site.Path.Inside deep := by decide +kernel
  have hcwd : Path.normal deep = Path.normal "maps/deep" := by decide +kernel
  have htarget : Path.normal "a/../../b" = Path.normal "../b/." := by decide +kernel
  have houtside : Path.relative deep "../b" = "../../../b".toList := by decide +kernel
  have hnormal : Path.normal "../b" = "../b".toList := by decide +kernel
  have hshown :
      (run (.usual ({} : Store.Listed).store) deep (.picture .udg) "0(a)"
          (start .zeros [])).1.toOption =
        some ("<img alt=\"a\" src=\"../../images/udgs/a.png\" />".toList, []) := by decide +kernel
  obtain ⟨-, -, hsame, hback, hlinks, hpictures⟩ :=
    links_leadToTargets (.usual ({} : Store.Listed).store) deep hinside
  refine ⟨hinside, hcwd, htarget, hsame _ _ _ _ hcwd htarget, ?_, List.mem_cons_self,
    hlinks .link List.mem_cons_self ":Bugs#b1(x)" _ [] (start .zeros []) _ rfl, ?_⟩
  · have hleads := hback "../b"
    rwa [houtside, hnormal] at hleads
  · rcases hpictures .udg "0(a)" _ [] (start .zeros []) _
      (Prod.ext (eq_ok_of_toOption hshown) rfl) with ⟨hnone, -⟩ | ⟨path, source, hmarkup, hleads, -⟩
    · cases hnone
    · exact ⟨path, source, hmarkup, hleads⟩

end Session

end MemoryDoc
