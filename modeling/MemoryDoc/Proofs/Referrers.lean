/-
# Routines that refer to a routine

A list of referrers is written in two stages: first it turns into macros for the addresses of the
routines, and then every one of these turns into a link, in a text that grows.  The macros are kept
apart by the words between them, and no link is taken for a macro.

Main statement: a list of referrers names exactly the routines that refer to an entry or an entry
point, each once, in the order of their addresses (`expand_referrers`).
-/
import MemoryDoc.Macro.Address
import MemoryDoc.Proofs.Front
import MemoryDoc.Site.Apart
import MemoryDoc.Text.Bracket

namespace MemoryDoc

open Reader Handler

/-! ## Routines in words -/

namespace Wording

/-- One or more routines in words. -/
def inWords (names : List Text) : Text :=
  match names.reverse with
  | [] => []
  | [only] => "routine at " ++ only
  | last :: before => "routines at " ++ Text.join ", " before.reverse ++ " and " ++ last

/-- A list of routines is one of their markers, in words. -/
theorem routines_eq (addresses : List UInt16) :
    routines addresses = inWords (addresses.map routineMarker) := rfl

/-- What follows the first of several routines in words. -/
def furtherWords : (names : List Text) → Text
  | [] => []
  | [last] => " and " ++ last
  | next :: names => ", " ++ next ++ furtherWords names

/-- A further name that is not the last follows a comma. -/
theorem furtherWords_cons_cons (first next : Text) (names : List Text) :
    furtherWords (first :: next :: names) = ", " ++ first ++ furtherWords (next :: names) := rfl

/-- Names that are joined with commas, and with a last one, are in words. -/
theorem join_append_last (first last : Text) (between : List Text) :
    Text.join ", " (first :: between) ++ " and " ++ last =
      first ++ furtherWords (between ++ [last]) := by
  induction between generalizing first with
  | nil =>
    rw [Text.join, List.intercalate_singleton, List.append_assoc]
    rfl
  | cons next between ih =>
    have hjoin : Text.join ", " (first :: next :: between) =
        first ++ ", " ++ Text.join ", " (next :: between) := by
      rw [Text.join, List.intercalate_cons_cons, Text.join]
    have hfurther : furtherWords (next :: between ++ [last]) =
        ", " ++ next ++ furtherWords (between ++ [last]) := by
      cases between <;> rfl
    have hrest := ih next
    rw [hjoin, hfurther]
    simp only [List.append_assoc] at hrest ⊢
    rw [hrest]

/-- Several routines in words are told one after the other. -/
theorem inWords_cons_cons (first next : Text) (names : List Text) :
    inWords (first :: next :: names) = "routines at " ++ first ++ furtherWords (next :: names) := by
  rcases List.eq_nil_or_concat (next :: names) with h | ⟨between, last, h⟩
  · cases h
  · have hreverse :
        (first :: (between ++ [last])).reverse = last :: (first :: between).reverse := by
      simp
    obtain ⟨c, cs, hcs⟩ : ∃ c cs, (first :: between).reverse = c :: cs :=
      List.exists_cons_of_ne_nil (by simp)
    have hwords := join_append_last first last between
    rw [List.concat_eq_append] at h
    rw [h, inWords, hreverse, hcs]
    simp only
    rw [← hcs, List.reverse_reverse]
    simp only [List.append_assoc] at hwords ⊢
    rw [hwords]

/-- Routines in words begin with a word. -/
theorem exists_inWords_eq_cons {names : List Text} (h : names ≠ []) :
    ∃ t, inWords names = 'r' :: t := by
  cases names with
  | nil => exact absurd rfl h
  | cons first names =>
    cases names with
    | nil => exact ⟨_, rfl⟩
    | cons next names => exact ⟨_, inWords_cons_cons first next names⟩

/-- Blanks are left out in front of routines in words, but none of the words. -/
theorem trimFront_append_inWords {names : List Text} (h : names ≠ []) (lead : Text) :
    Text.trimFront Text.isBlank (lead ++ inWords names) =
      Text.trimFront Text.isBlank lead ++ inWords names := by
  obtain ⟨t, ht⟩ := exists_inWords_eq_cons h
  have hword : Text.isBlank 'r' = false := by decide
  rw [ht, Text.trimFront, Text.trimFront, List.dropWhile_append]
  split
  · next hempty =>
    rw [List.isEmpty_iff.1 hempty, List.dropWhile_cons_of_neg (by simp [hword])]
    rfl
  · rfl

end Wording

/-! ## Links to entries -/

/-- What follows an address in a text is not taken for a part of it: it begins with no digit, and
with no mark of another program, of an anchor or of a text in brackets. -/
structure Wording.EndsAddress (t : Text) : Prop where
  digits : t.EndsDigits
  code : t.head? ≠ some '@'
  anchor : t.head? ≠ some '#'
  text : t.head? ≠ some '('

/-- A character that goes on with nothing ends an address. -/
theorem Wording.endsAddress_cons {c : Char} (hdigit : Numeral.isHexDigit c = false)
    (hcode : c ≠ '@') (hanchor : c ≠ '#') (htext : c ≠ '(') (t : Text) : EndsAddress (c :: t) where
  digits d hd := by
    cases hd
    exact hdigit
  code h := hcode (Option.some.inj h)
  anchor h := hanchor (Option.some.inj h)
  text h := htext (Option.some.inj h)

/-- No address goes on behind the first of several routines in words. -/
theorem Wording.endsAddress_furtherWords (next : Text) (names : List Text) (behind : Text) :
    EndsAddress (furtherWords (next :: names) ++ behind) := by
  cases names with
  | nil => exact endsAddress_cons (c := ' ') (by decide) (by decide) (by decide) (by decide) _
  | cons => exact endsAddress_cons (c := ',') (by decide) (by decide) (by decide) (by decide) _

/-- The entries of a site are linked to at their addresses by what is written there: they are apart,
labels are not shown, and there is no `#` in the directory of their pages or in what is written. -/
structure Site.LinksEntries (site : Site) (directory : Text) : Prop where
  apart : site.listing.entries.Apart
  labels : site.settings.labels = false
  codePath : site.codePath none = .ok directory
  not_mem_directory : '#' ∉ directory
  not_mem_written : ∀ e ∈ site.listing.entries, ∀ i ∈ e.instructions, '#' ∉ i.written

/-- A link has no `#` in it if its path and its text have none. -/
theorem Site.Markup.not_mem_link {path text : Text} (hpath : '#' ∉ path) (htext : '#' ∉ text) :
    '#' ∉ link path text := by
  intro h
  change '#' ∈ "<a".toList ++
    (" ".toList ++ "href".toList ++ "=\"".toList ++ path ++ "\"".toList) ++ ">".toList ++ text ++
    "</a>".toList at h
  simp only [List.mem_append] at h
  rcases h with (((h | ((((h | h) | h) | h) | h)) | h) | h) | h
  · exact absurd h (by decide)
  · exact absurd h (by decide)
  · exact absurd h (by decide)
  · exact absurd h (by decide)
  · exact hpath h
  · exact absurd h (by decide)
  · exact absurd h (by decide)
  · exact htext h
  · exact absurd h (by decide)

/-- The link to the page of an entry, from a page in the directory `cwd`. -/
def Site.entryLink (cwd directory : Text) (e : Entry) : Text :=
  Markup.link (Path.relative cwd (Path.entryPage e.address directory)) e.written

namespace Site.LinksEntries

variable {site : Site} {directory : Text} {e : Entry}

/-- What is written at the address of an entry is found. -/
theorem written?_eq (h : site.LinksEntries directory) (he : e ∈ site.listing.entries) :
    site.listing.written? e.address none = some e.written := by
  have hc := h.apart.starts e he
  obtain ⟨i, hi⟩ : ∃ i, e.instruction? e.address = some i :=
    Option.isSome_iff_exists.1 ((e.isSome_instruction? e.address).trans hc)
  show (site.listing.entries.instruction? e.address).map _ = _
  rw [h.apart.instruction?_eq he hc, Entry.written, hi]
  rfl

/-- A link to the address of an entry is the link to the entry. -/
theorem addressLink_eq (h : site.LinksEntries directory) (he : e ∈ site.listing.entries)
    (cwd written : Text) :
    site.addressLink cwd written e.address none [] [] = .ok (entryLink cwd directory e) := by
  have hcontainer : site.listing.container? e.address none = some e :=
    h.apart.container?_eq_some he (h.apart.starts e he)
  have hentry : site.containerAddress written e.address none = .ok e.address := by
    simp only [containerAddress, hcontainer]
  have htext : site.addressText written e.address none = e.written := by
    simp [addressText, h.labels, h.written?_eq he]
  refine outcome_bind_eq_ok.2 ⟨directory, h.codePath, ?_⟩
  refine outcome_bind_eq_ok.2 ⟨e.address, hentry, ?_⟩
  simp only [if_true, List.append_nil, htext]
  rfl

/-- A link to an entry has no `#` in it. -/
theorem not_mem_entryLink (h : site.LinksEntries directory) (he : e ∈ site.listing.entries)
    (cwd : Text) : '#' ∉ entryLink cwd directory e := by
  have hpath : '#' ∉ Path.relative cwd (Path.entryPage e.address directory) :=
    Path.not_mem_relative (by decide) (by decide) _
      (Path.not_mem_entryPage (by decide) (by decide) (by decide) _ h.not_mem_directory)
  have hwritten : '#' ∉ e.written := by
    unfold Entry.written
    cases hi : e.instruction? e.address with
    | none => simp
    | some i => exact h.not_mem_written e he i (List.mem_of_find?_eq_some hi)
  exact Markup.not_mem_link hpath hwritten

end Site.LinksEntries

/-- The macro for the address of an entry turns into the link to it, and leaves what follows. -/
theorem Wording.routine_decimal {p : Page} {directory rest : Text} {e : Site.Entry}
    (hsite : p.site.LinksEntries directory) (he : e ∈ p.site.listing.entries)
    (hrest : EndsAddress rest) :
    routine p (Numeral.decimal e.address.toNat ++ rest) =
      .ok (Site.entryLink p.cwd directory e, rest) := by
  have haddress := address_append (address_decimal e.address) hrest.digits
  have hcode : code rest = .ok (none, rest) :=
    bind_eq_ok.2 ⟨false, rest, accept_eq_ok.2 (.inr ⟨rfl, hrest.code, rfl⟩), rfl⟩
  have hanchor : anchor rest = .ok ([], rest) :=
    bind_eq_ok.2 ⟨false, rest, accept_eq_ok.2 (.inr ⟨rfl, hrest.anchor, rfl⟩), rfl⟩
  have htext : optionalBracketed rest = .ok (none, rest) :=
    optionalBracketed_eq_ok.2 (.inr ⟨rfl, hrest.text, rfl⟩)
  refine bind_eq_ok.2 ⟨_, _, lift_eq_ok.2 haddress, ?_⟩
  refine bind_eq_ok.2 ⟨_, _, lift_eq_ok.2 hcode, ?_⟩
  refine bind_eq_ok.2 ⟨_, _, lift_eq_ok.2 hanchor, ?_⟩
  refine bind_eq_ok.2 ⟨_, _, lift_eq_ok.2 htext, ?_⟩
  exact ofLink_eq_ok.2 ⟨hsite.addressLink_eq he _ _, rfl⟩

/-! ## What refers to an entry -/

namespace Site.LinksEntries

variable {site : Site} {directory : Text}

/-- The other entries that refer to an entry are told in the order of their addresses. -/
theorem exists_referrers (h : site.LinksEntries directory) {entry : Entry}
    (hentry : entry ∈ site.listing.entries) (written : Text) :
    ∃ refs, site.listing.entries.Lists
        (fun e => e ≠ entry ∧ e.refersTo entry.contains = true) refs ∧
      site.referrers written entry.address = .ok (refs.map (·.address)) := by
  obtain ⟨refs, hrefs, hsort⟩ := h.apart.exists_lists fun e =>
    e.address ≠ entry.address && e.refersTo entry.contains
  refine ⟨refs, hrefs.congr fun e he => ?_, ?_⟩
  · have hother : e.address ≠ entry.address ↔ e ≠ entry :=
      ⟨fun hne heq => hne (heq ▸ rfl), fun hne heq => hne (h.apart.eq_of_address he hentry heq)⟩
    rw [Bool.and_eq_true, decide_eq_true_eq, hother]
  · simp only [referrers, Entries.referrers, h.apart.at?_eq_some hentry]
    rw [hsort]

/-- The entries that refer to an address are told in the order of their addresses, if there are
any. -/
theorem exists_entryPointReferrers (h : site.LinksEntries directory) (written : Text)
    {address : UInt16} (hany : ∃ e ∈ site.listing.entries, e.refersTo (· = address) = true) :
    ∃ refs, site.listing.entries.Lists (fun e => e.refersTo (· = address) = true) refs ∧
      site.entryPointReferrers written address = .ok (refs.map (·.address)) := by
  obtain ⟨refs, hrefs, hsort⟩ := h.apart.exists_lists fun e => e.refersTo (· = address)
  refine ⟨refs, hrefs, ?_⟩
  rw [entryPointReferrers, Entries.refersTo]
  split
  · next hnone =>
    rw [hnone] at hsort
    have hempty : refs = [] := by simpa using hsort.symm
    exact absurd hempty (hrefs.ne_nil hany)
  · rw [hsort]

end Site.LinksEntries

namespace Wording

variable {p : Page} {written behind : Text} {address : UInt16} {refs : List UInt16}

/-- The referrers of an address stand in words behind the text in front of them. -/
theorem referrers_append {lead : Text}
    (haddress : Reader.address written = .ok ((written, address), []))
    (hbalanced : Text.Balanced lead) (hrefs : p.site.referrers written address = .ok refs)
    (hne : refs ≠ []) :
    referrers p (written ++ '(' :: (lead ++ ')' :: behind)) =
      .ok (Text.trimFront Text.isBlank (lead ++ " " ++ routines refs), behind) := by
  have hends : Text.EndsDigits ('(' :: (lead ++ ')' :: behind)) := by
    intro c hc
    cases hc
    decide
  refine bind_eq_ok.2 ⟨_, _, lift_eq_ok.2 (address_append haddress hends), ?_⟩
  refine bind_eq_ok.2 ⟨_, _, lift_eq_ok.2 (optionalBracketed_append hbalanced behind), ?_⟩
  refine bind_eq_ok.2 ⟨refs, _, ofLink_eq_ok.2 ⟨hrefs, rfl⟩, ?_⟩
  rw [if_neg hne]
  rfl

/-- The referrers of an entry point stand in words. -/
theorem entryPointReferrers_append
    (haddress : Reader.address written = .ok ((written, address), []))
    (hbehind : behind.EndsDigits)
    (hrefs : p.site.entryPointReferrers written address = .ok refs) :
    entryPointReferrers p (written ++ behind) = .ok (routines refs, behind) := by
  refine bind_eq_ok.2 ⟨_, _, lift_eq_ok.2 (address_append haddress hbehind), ?_⟩
  exact bind_eq_ok.2 ⟨refs, _, ofLink_eq_ok.2 ⟨hrefs, rfl⟩, rfl⟩

end Wording

/-! ## One link after the other -/

/-- No macro begins in text without a `#`. -/
theorem Marker.free_of_not_mem {t : Text} (h : '#' ∉ t) : Marker.Free t :=
  Marker.free_iff.2 ⟨Marker.find?_of_not_mem h, fun hlast => h (List.mem_of_getLast? hlast)⟩

namespace Session

variable {σ : Type} {env : Environment σ} {cwd directory behind : Text} {s : Session σ}

/-- Text without a `#` in front is left as it is. -/
theorem expand_front {front : Text} (hfront : '#' ∉ front) (fuel : Nat) (t : Text) :
    expand env cwd fuel (front ++ t) s =
      (expand env cwd fuel t s).map fun (answer, s) => (answer.map (front ++ ·), s) :=
  expand_append_eq env cwd (Marker.free_of_not_mem hfront) fuel t s

/-- What stands in front of what stands in front is in front of both. -/
theorem map_front_map_front (a b : Text)
    (result : Option (Except ExpansionError Text × Session σ)) :
    ((result.map fun (answer, s) => (answer.map (b ++ ·), s)).map fun (answer, s) =>
        (answer.map (a ++ ·), s)) =
      result.map fun (answer, s) => (answer.map (a ++ b ++ ·), s) := by
  cases result with
  | none => rfl
  | some result =>
    obtain ⟨answer, s⟩ := result
    cases answer <;> simp [Except.map]

/-- The first macro for an entry turns into its link in one step. -/
theorem expand_routineMarker {front rest : Text} {e : Site.Entry}
    (hsite : env.site.LinksEntries directory) (he : e ∈ env.site.listing.entries)
    (hfront : '#' ∉ front) (hrest : Wording.EndsAddress rest) (fuel : Nat) :
    expand env cwd (fuel + 1) (front ++ Wording.routineMarker e.address ++ rest) s =
      (expand env cwd fuel rest s).map fun (answer, s) =>
        (answer.map (front ++ Site.entryLink cwd directory e ++ ·), s) := by
  have hrun : run env cwd (.text .r) (Numeral.decimal e.address.toNat ++ rest) s =
      (.ok (Site.entryLink cwd directory e, rest), s) :=
    congrArg (·, s) (Wording.routine_decimal (p := page env cwd) hsite he hrest)
  have hmarker : front ++ Wording.routineMarker e.address ++ rest =
      front ++ '#' :: ((MacroName.text .r).name ++ (Numeral.decimal e.address.toNat ++ rest)) := by
    rw [Wording.routineMarker, List.append_assoc, List.append_assoc]
    rfl
  have hletters := takeWhile_of_address (address_decimal e.address) rest
  rw [hmarker, expand_front hfront, expand, step_name_append hletters hrun]
  simp only [List.nil_append]
  rw [expand_front (hsite.not_mem_entryLink he cwd), map_front_map_front]

/-- The words behind the first of several macros for entries turn into words behind links. -/
theorem expand_furtherWords {refs : List Site.Entry} (cwd : Text) (s : Session σ)
    (hsite : env.site.LinksEntries directory) (hrefs : ∀ e ∈ refs, e ∈ env.site.listing.entries)
    (hbehind : Wording.EndsAddress behind) (fuel : Nat) :
    expand env cwd (refs.length + fuel)
        (Wording.furtherWords (refs.map fun e => Wording.routineMarker e.address) ++ behind) s =
      (expand env cwd fuel behind s).map fun (answer, s) =>
        (answer.map (Wording.furtherWords (refs.map (Site.entryLink cwd directory)) ++ ·), s) := by
  -- On the list of names: each marker is expanded in its turn and takes one round.
  induction refs with
  | nil =>
    rw [List.length_nil, Nat.zero_add]
    exact expand_front List.not_mem_nil fuel behind
  | cons e refs ih =>
    have he := hrefs e List.mem_cons_self
    cases refs with
    | nil =>
      rw [List.length_singleton, Nat.add_comm]
      exact expand_routineMarker hsite he (by decide) hbehind fuel
    | cons next refs =>
      have hrest := ih fun e he => hrefs e (List.mem_cons_of_mem _ he)
      have hends := Wording.endsAddress_furtherWords (Wording.routineMarker next.address)
        (refs.map fun e => Wording.routineMarker e.address) behind
      have hcomma : '#' ∉ ", ".toList := by decide
      have hfuel : (e :: next :: refs).length + fuel = ((next :: refs).length + fuel) + 1 := by
        simp only [List.length_cons]
        omega
      simp only [List.map_cons] at hrest ⊢
      rw [Wording.furtherWords_cons_cons, Wording.furtherWords_cons_cons, List.append_assoc, hfuel,
        expand_routineMarker hsite he hcomma hends, hrest, map_front_map_front]

/-- Macros for entries in words turn into links in words. -/
theorem expand_inWords {refs : List Site.Entry} (cwd : Text) (s : Session σ)
    (hsite : env.site.LinksEntries directory) (hrefs : ∀ e ∈ refs, e ∈ env.site.listing.entries)
    (hne : refs ≠ []) (hbehind : Wording.EndsAddress behind) (fuel : Nat) :
    expand env cwd (refs.length + fuel)
        (Wording.inWords (refs.map fun e => Wording.routineMarker e.address) ++ behind) s =
      (expand env cwd fuel behind s).map fun (answer, s) =>
        (answer.map (Wording.inWords (refs.map (Site.entryLink cwd directory)) ++ ·), s) := by
  cases refs with
  | nil => exact absurd rfl hne
  | cons first refs =>
    have hfirst := hrefs first List.mem_cons_self
    cases refs with
    | nil =>
      have hlead : '#' ∉ "routine at ".toList := by decide
      rw [List.length_singleton, Nat.add_comm]
      exact expand_routineMarker hsite hfirst hlead hbehind fuel
    | cons next refs =>
      have hlead : '#' ∉ "routines at ".toList := by decide
      have hrest := expand_furtherWords cwd s hsite
        (fun e he => hrefs e (List.mem_cons_of_mem first he)) hbehind fuel
      have hends := Wording.endsAddress_furtherWords (Wording.routineMarker next.address)
        (refs.map fun e => Wording.routineMarker e.address) behind
      have hfuel : (first :: next :: refs).length + fuel = ((next :: refs).length + fuel) + 1 := by
        simp only [List.length_cons]
        omega
      simp only [List.map_cons] at hrest ⊢
      rw [Wording.inWords_cons_cons, Wording.inWords_cons_cons, List.append_assoc, hfuel,
        expand_routineMarker hsite hfirst hlead hends, hrest, map_front_map_front]

/-- A macro that turns into routines in words turns into links in words in the end. -/
theorem expand_of_routines {m : TextMacro} {arguments lead : Text} {refs : List Site.Entry}
    (hsite : env.site.LinksEntries directory) (hrefs : ∀ e ∈ refs, e ∈ env.site.listing.entries)
    (hne : refs ≠ []) (hletters : arguments.takeWhile Marker.isNameLetter = [])
    (hhandler : m.handler (page env cwd) arguments =
      .ok (lead ++ Wording.routines (refs.map (·.address)), behind))
    (hlead : '#' ∉ lead) (hsharp : '#' ∉ behind) (hbehind : Wording.EndsAddress behind) :
    expand env cwd (refs.length + 2) ('#' :: ((MacroName.text m).name ++ arguments)) s =
      some (.ok (lead ++ Wording.inWords (refs.map (Site.entryLink cwd directory)) ++ behind),
        s) := by
  have hrun : run env cwd (.text m) arguments s =
      (.ok (lead ++ Wording.routines (refs.map (·.address)), behind), s) := congrArg (·, s) hhandler
  have hend : expand env cwd 1 behind s = some (.ok behind, s) := by
    rw [expand, step, Marker.find?_of_not_mem hsharp]
  have hwords := expand_inWords cwd s hsite hrefs hne hbehind 1
  rw [hend] at hwords
  rw [expand, step_name_append hletters hrun]
  simp only [List.nil_append]
  rw [Wording.routines_eq, List.map_map, List.append_assoc, expand_front hlead]
  change Option.map _ (expand env cwd (refs.length + 1)
    (Wording.inWords (refs.map fun e => Wording.routineMarker e.address) ++ behind) s) = _
  rw [hwords]
  simp [Except.map]

/-- **Referrers are linked to completely, and nothing else is.**  Let entries be apart, let labels not
be shown, and let no `#` be in the directory of their pages or in what is written at their addresses.
Let text without a `#` follow that is not taken for a part of an address.  If other entries refer to
an instruction of an entry, their list turns into the links to exactly these entries, each once, in
the order of their addresses and in words, behind balanced text if it is given.  So does the list of
the entries that refer to an address. -/
theorem expand_referrers (env : Environment σ) (cwd directory written behind : Text)
    (address : UInt16) (s : Session σ) (hsite : env.site.LinksEntries directory)
    (haddress : Reader.address written = .ok ((written, address), []))
    (hsharp : '#' ∉ behind) (hbehind : Wording.EndsAddress behind) :
    (∀ entry ∈ env.site.listing.entries, entry.address = address →
      (∃ e ∈ env.site.listing.entries, e ≠ entry ∧ e.refersTo entry.contains = true) →
      ∃ refs, env.site.listing.entries.Lists
          (fun e => e ≠ entry ∧ e.refersTo entry.contains = true) refs ∧
        ∀ lead, Text.Balanced lead → '#' ∉ lead →
          expand env cwd (refs.length + 2)
              ("#" ++ (MacroName.text .refs).name ++ written ++ "(" ++ lead ++ ")" ++ behind) s =
            some (.ok (Text.trimFront Text.isBlank
              (lead ++ " " ++ Wording.inWords (refs.map (Site.entryLink cwd directory))) ++ behind),
              s)) ∧
    ((∃ e ∈ env.site.listing.entries, e.refersTo (· = address) = true) →
      ∃ refs, env.site.listing.entries.Lists (fun e => e.refersTo (· = address) = true) refs ∧
        expand env cwd (refs.length + 2)
            ("#" ++ (MacroName.text .erefs).name ++ written ++ behind) s =
          some (.ok (Wording.inWords (refs.map (Site.entryLink cwd directory)) ++ behind), s)) := by
  refine ⟨fun entry hentry hstart hany => ?_, fun hany => ?_⟩
  · subst hstart
    obtain ⟨refs, hrefs, hlist⟩ := hsite.exists_referrers hentry written
    refine ⟨refs, hrefs, fun lead hbalanced hlead => ?_⟩
    have hne := hrefs.ne_nil hany
    have haddresses : refs.map (·.address) ≠ [] := by simpa using hne
    have hhandler : TextMacro.refs.handler (page env cwd)
        (written ++ '(' :: (lead ++ ')' :: behind)) = .ok (Text.trimFront Text.isBlank
          (lead ++ " " ++ Wording.routines (refs.map (·.address))), behind) :=
      Wording.referrers_append haddress hbalanced hlist haddresses
    -- The text in front of the list is rescanned with it, so it must not hold a sharp.
    have hfront : '#' ∉ Text.trimFront Text.isBlank (lead ++ " ") := by
      intro hmem
      rcases List.mem_append.1 ((List.dropWhile_sublist _).subset hmem) with hmem | hmem
      · exact hlead hmem
      · exact absurd hmem (by decide)
    rw [Wording.routines_eq, Wording.trimFront_append_inWords (by simpa using hne)] at hhandler
    rw [Wording.trimFront_append_inWords (by simpa using hne)]
    have htext : "#" ++ (MacroName.text .refs).name ++ written ++ "(" ++ lead ++ ")" ++ behind =
        '#' :: ((MacroName.text .refs).name ++ (written ++ '(' :: (lead ++ ')' :: behind))) := by
      simp only [List.append_assoc]
      rfl
    rw [htext]
    exact expand_of_routines (m := .refs) hsite (fun e he => ((hrefs.mem_iff e).1 he).1) hne
      (takeWhile_of_address haddress _) hhandler hfront hsharp hbehind
  · obtain ⟨refs, hrefs, hlist⟩ := hsite.exists_entryPointReferrers written hany
    refine ⟨refs, hrefs, ?_⟩
    have hhandler : TextMacro.erefs.handler (page env cwd) (written ++ behind) =
        .ok ([] ++ Wording.routines (refs.map (·.address)), behind) :=
      Wording.entryPointReferrers_append haddress hbehind.digits hlist
    have htext : "#" ++ (MacroName.text .erefs).name ++ written ++ behind =
        '#' :: ((MacroName.text .erefs).name ++ (written ++ behind)) := by
      simp only [List.append_assoc]
      rfl
    rw [htext]
    exact expand_of_routines hsite (fun e he => ((hrefs.mem_iff e).1 he).1) (hrefs.ne_nil hany)
      (takeWhile_of_address haddress _) hhandler List.not_mem_nil hsharp hbehind

/-- A routine that refers to address one. -/
def caller (address : UInt16) : Site.Entry where
  address := address
  kind := .code
  instructions := [{ Site.Instruction.ofAddress address with reference := some 1 }]

/-- The environment of a site with a routine at address one and two routines that refer to it. -/
def referring : Environment (List Text) :=
  { Environment.usual ({} : Store.Listed).store with
    site := ⟨{}, { memory := .zeros, entries := [caller 9, .ofAddress 1 .code, caller 5] }⟩ }

theorem linksEntries_referring : referring.site.LinksEntries "asm" where
  apart := ⟨by decide +kernel, by
    simp [referring, caller, Site.Entry.contains, Site.Entry.ofAddress, Site.Instruction.ofAddress]⟩
  labels := rfl
  codePath := rfl
  not_mem_directory := by decide
  not_mem_written := by decide +kernel

/-- Two routines refer to an entry, and the text names them with an and between. -/
theorem expand_referrers_two :
    referring.site.LinksEntries "asm" ∧ Reader.address "1" = .ok (("1".toList, 1), []) ∧
      Wording.EndsAddress "." ∧
      expand referring [] 4 "#REFS1(Used by the)." (start .zeros []) =
        some
          (.ok
            "Used by the routines at <a href=\"asm/5.html\">5</a> and <a href=\"asm/9.html\">9</a>.",
          start .zeros []) := by
  have hends : Wording.EndsAddress "." :=
    Wording.endsAddress_cons (by decide) (by decide) (by decide) (by decide) []
  have hcallers : referring.site.listing.entries.Lists
      (fun e => e ≠ .ofAddress 1 .code ∧
        e.refersTo (Site.Entry.ofAddress 1 .code).contains = true) [caller 5, caller 9] := by
    refine ⟨by decide, fun e => ?_⟩
    have hfilter : referring.site.listing.entries.filter (fun e => e ≠ .ofAddress 1 .code ∧
        e.refersTo (Site.Entry.ofAddress 1 .code).contains = true) = [caller 9, caller 5] := by
      decide +kernel
    have hmem : e ∈ [caller 9, caller 5] ↔ _ := hfilter ▸ List.mem_filter
    rw [decide_eq_true_iff] at hmem
    rw [← hmem]
    simp [or_comm]
  obtain ⟨hrefs, -⟩ := expand_referrers referring [] "asm" "1" "." 1 (start .zeros [])
    linksEntries_referring rfl (by decide) hends
  obtain ⟨refs, hlists, hexpand⟩ := hrefs (.ofAddress 1 .code) (by decide +kernel) rfl
    ⟨caller 5, by decide +kernel, by decide, by decide⟩
  obtain rfl := hlists.unique hcallers
  have hbalanced : Text.Balanced "Used by the" := Text.balanced_of_not_mem (by decide) (by decide)
  have hlinks := hexpand "Used by the" hbalanced (by decide)
  refine ⟨linksEntries_referring, rfl, hends, hlinks.trans ?_⟩
  exact congrArg (fun t => some (Except.ok t, start .zeros [])) (by decide +kernel)

end Session

end MemoryDoc
