/-
# Links into other programs

A link may lead to an address of another program.  Its path is told by what is known of that program.
Its text, where none is given, is the address as that program writes it, but a label that this
program has at the same address stands before it.

Main statement: two sites that know the same of another program have the same links into it, unless
no text is given and labels of their own are shown instead (`addressLink_other`).
-/
import MemoryDoc.Site.Link

namespace MemoryDoc

namespace Site

/-- The text of a link is told by the link. -/
theorem Markup.link_inj {href text text' : Text} :
    Markup.link href text = Markup.link href text' ↔ text = text' := by
  unfold Markup.link
  rw [List.append_cancel_right_eq, List.append_right_inj]

/-- The label of this program at an address, if labels are shown. -/
def ownLabel? (s : Site) (address : UInt16) : Option Text :=
  if s.settings.labels then s.listing.label? address else none

/-- An address as another program writes it, or else as it is written in the macro. -/
def otherWritten (s : Site) (written : Text) (address : UInt16) (name : Text) : Text :=
  (s.listing.written? address (some name)).getD written

/-- The path of a link to an address of another program.  Its entry there is where an entry with an
instruction at the address starts, and the address itself if there is none. -/
def otherPath (s : Site) (cwd directory : Text) (address : UInt16) (name anchor : Text) : Text :=
  let entry := ((s.listing.container? address (some name)).map (·.address)).getD address
  Path.relative cwd (Path.entryPage entry directory) ++
    if address = entry then anchor else '#' :: Numeral.decimal address.toNat

variable {s s' : Site} {cwd written name anchor text : Text} {address : UInt16}

/-- The text of an address in another program is that of an own label, if there is one. -/
theorem addressText_some (s : Site) (written : Text) (address : UInt16) (name : Text) :
    s.addressText written address (some name) =
      (s.ownLabel? address).getD (s.otherWritten written address name) := by
  have hlabel : (if s.settings.labels then s.listing.label? address else none) =
      s.ownLabel? address := rfl
  unfold addressText otherWritten
  simp only [hlabel]
  cases s.ownLabel? address <;> cases s.listing.written? address (some name) <;> rfl

/-- An address in another program leads to the entry there that has it. -/
theorem containerAddress_some (s : Site) (written : Text) (address : UInt16) (name : Text) :
    s.containerAddress written address (some name) =
      .ok (((s.listing.container? address (some name)).map (·.address)).getD address) := by
  unfold containerAddress
  cases s.listing.container? address (some name) <;> rfl

/-- A link into another program is made if its directory is set. -/
theorem addressLink_some (s : Site) (cwd written : Text) (address : UInt16)
    (name anchor text : Text) :
    s.addressLink cwd written address (some name) anchor text =
      match s.settings.otherCode.find? name with
      | none => .error (.unknownCode name)
      | some directory =>
        .ok (Markup.link (s.otherPath cwd directory address name anchor)
          (orElse text ((s.ownLabel? address).getD (s.otherWritten written address name)))) := by
  have hcode : s.codePath (some name) =
      match s.settings.otherCode.find? name with
      | none => .error (.unknownCode name)
      | some directory => .ok directory := by
    have hpath : s.settings.codePath? (some name) = s.settings.otherCode.find? name := rfl
    unfold codePath
    rw [hpath]
    cases s.settings.otherCode.find? name <;> rfl
  unfold addressLink
  rw [hcode, containerAddress_some, addressText_some]
  cases s.settings.otherCode.find? name <;> rfl

section

variable (hother : s'.listing.others.find? name = s.listing.others.find? name)

include hother

/-- What is known of another program tells the path of links into it. -/
theorem otherPath_congr (cwd directory : Text) (address : UInt16) (anchor : Text) :
    s'.otherPath cwd directory address name anchor = s.otherPath cwd directory address name anchor := by
  have hcode : s'.listing.code? (some name) = s.listing.code? (some name) := hother
  unfold otherPath Listing.container?
  rw [hcode]

/-- How another program writes an address is not told by this one. -/
theorem otherWritten_congr (written : Text) (address : UInt16) :
    s'.otherWritten written address name = s.otherWritten written address name := by
  have hcode : s'.listing.code? (some name) = s.listing.code? (some name) := hother
  unfold otherWritten Listing.written?
  rw [hcode]

/-- **Links into another program are told by what is known of it, and by the label at the same
address.**  Two sites of the same settings that know the same of another program have the same link to
an address there exactly if the directory of the program is not set, a text is given, or what stands
for the text is the same: the label that the site itself has at the address, if labels are shown and
there is one, and else the address as the other program writes it, or as it is given.  That is the
text of every such link for which none is given. -/
theorem addressLink_other (hsettings : s'.settings = s.settings) (cwd written : Text)
    (address : UInt16) (anchor text : Text) :
    (s'.addressLink cwd written address (some name) anchor text =
        s.addressLink cwd written address (some name) anchor text ↔
      s.settings.otherCode.find? name = none ∨ text ≠ [] ∨
        (s'.ownLabel? address).getD (s.otherWritten written address name) =
          (s.ownLabel? address).getD (s.otherWritten written address name)) ∧
    ∀ link, s.addressLink cwd written address (some name) anchor [] = .ok link →
      ∃ href, link =
        Markup.link href ((s.ownLabel? address).getD (s.otherWritten written address name)) := by
  constructor
  · rw [addressLink_some, addressLink_some, hsettings, otherWritten_congr hother]
    cases s.settings.otherCode.find? name with
    | none => simp
    | some directory =>
      simp only [otherPath_congr hother, Except.ok.injEq, Markup.link_inj]
      cases text with
      | nil => simp [orElse]
      | cons c text => simp [orElse]
  · intro link hlink
    rw [addressLink_some] at hlink
    cases hdirectory : s.settings.otherCode.find? name with
    | none =>
      rw [hdirectory] at hlink
      cases hlink
    | some directory =>
      rw [hdirectory] at hlink
      cases hlink
      exact ⟨_, rfl⟩

end

/-- A site that shows labels and knows of another program an instruction at 56. -/
def showingLabels (entries : Entries) : Site where
  settings := { labels := true, otherCode := [("rom".toList, "rom".toList)] }
  listing := {
    memory := .zeros
    entries
    others := [("rom".toList, [{
      address := 56
      kind := .code
      instructions := [{ address := 56, written := "$0038" }] }])] }

/-- An entry that has one instruction, with a label. -/
def labelledEntry (address : UInt16) : Entry where
  address
  kind := .code
  instructions := [{ address, written := Numeral.decimal address.toNat, label := some "START" }]

/-- An entry with a label elsewhere changes nothing. -/
theorem addressLink_other_elsewhere :
    (showingLabels [labelledEntry 32768]).listing.others.find? "rom" =
        (showingLabels []).listing.others.find? "rom" ∧
      (showingLabels [labelledEntry 32768]).settings = (showingLabels []).settings ∧
      (showingLabels [labelledEntry 32768]).addressLink [] "56" 56 (some "rom") [] [] =
        (showingLabels []).addressLink [] "56" 56 (some "rom") [] [] ∧
      (showingLabels []).addressLink [] "56" 56 (some "rom") [] [] =
        .ok "<a href=\"rom/56.html\">$0038</a>".toList ∧
      ∃ href, "<a href=\"rom/56.html\">$0038</a>".toList = Markup.link href "$0038" := by
  have hlink : (showingLabels []).addressLink [] "56" 56 (some "rom") [] [] =
      .ok "<a href=\"rom/56.html\">$0038</a>".toList := by rfl
  have hother : (showingLabels [labelledEntry 32768]).listing.others.find? "rom" =
      (showingLabels []).listing.others.find? "rom" := rfl
  obtain ⟨hsame, htext⟩ := addressLink_other hother rfl [] "56" 56 [] []
  exact ⟨hother, rfl, hsame.2 (.inr (.inr (by decide))), hlink, htext _ hlink⟩

/-- A label of the site itself at the address takes the place of what the other program writes there. -/
theorem addressLink_ownLabel :
    (showingLabels [labelledEntry 56]).listing.others.find? "rom" =
        (showingLabels []).listing.others.find? "rom" ∧
      (showingLabels [labelledEntry 56]).settings = (showingLabels []).settings ∧
      (showingLabels [labelledEntry 56]).otherWritten "56" 56 "rom" = "$0038".toList ∧
      (showingLabels [labelledEntry 56]).addressLink [] "56" 56 (some "rom") [] [] =
        .ok "<a href=\"rom/56.html\">START</a>".toList ∧
      (showingLabels []).addressLink [] "56" 56 (some "rom") [] [] =
        .ok "<a href=\"rom/56.html\">$0038</a>".toList :=
  ⟨rfl, rfl, by decide, by rfl, by rfl⟩

end Site

end MemoryDoc
