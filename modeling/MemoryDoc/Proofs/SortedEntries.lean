/-
# Entries that are added in any order

Entries are kept in the order of their addresses.  A further entry is put in front of all that do not
start before it, so that of the entries of one address the latest comes first.  Its place can be found
by halving, as long as the entries are in order.

Main statements: what is kept when one more entry is added (`Holds.add`), that halving finds the place
at which an entry is added (`insert_eq_add`), and what is found in entries that were added in any order
(`entries_inOrder`).
-/
import Mathlib.Data.List.Nodup
import MemoryDoc.Site.Link

namespace MemoryDoc.Site

namespace Entries

/-- The entries are those that were added, in ascending order of their addresses.  Those of one
address are in the order in which they were added, the latest first. -/
structure Holds (added : List Entry) (es : Entries) : Prop where
  perm : es.Perm added
  ascending : es.Pairwise fun e e' => e.address ≤ e'.address
  latest_first : ∀ address,
    es.filter (·.address = address) = (added.filter (·.address = address)).reverse

/-! ## One more entry -/

section

variable {α : Type} {p : α → Bool} {l : List α} (h : l.Pairwise fun a b => p b = true → p a = true)

include h

/-- Where a class comes before all else, nothing of it is behind its end. -/
theorem not_of_mem_dropWhile : ∀ a ∈ l.dropWhile p, p a = false := by
  induction l with
  | nil => nofun
  | cons first l ih =>
    obtain ⟨hfirst, hrest⟩ := List.pairwise_cons.1 h
    cases hp : p first with
    | true =>
      rw [List.dropWhile_cons_of_pos hp]
      exact ih hrest
    | false =>
      rw [List.dropWhile_cons_of_neg (by simp [hp])]
      intro a ha
      rcases List.mem_cons.1 ha with rfl | ha
      · exact hp
      · cases hpa : p a with
        | false => rfl
        | true =>
          rw [hfirst a ha hpa] at hp
          cases hp

end

variable {added added' : List Entry} {es : Entries} {address : UInt16}

/-- Entries in order that start before an address come before all others. -/
theorem pairwise_startsBefore (h : es.Pairwise fun e e' => e.address ≤ e'.address)
    (address : UInt16) : es.Pairwise fun e e' =>
      decide (e'.address < address) = true → decide (e.address < address) = true :=
  h.imp fun hle hlt => decide_eq_true (UInt16.lt_of_le_of_lt hle (of_decide_eq_true hlt))

/-- **One more entry is held with all others,** before those of its address. -/
theorem Holds.add (h : Holds added es) (e : Entry) : Holds (added ++ [e]) (es.add e) := by
  have hfront : ∀ e' ∈ es.takeWhile (·.address < e.address), e'.address < e.address := by
    intro e' he'
    exact of_decide_eq_true (List.all_eq_true.1 List.all_takeWhile e' he')
  have hbehind : ∀ e' ∈ es.dropWhile (·.address < e.address), e.address ≤ e'.address := by
    intro e' he'
    have hnot := not_of_mem_dropWhile (pairwise_startsBefore h.ascending e.address) e' he'
    exact UInt16.not_lt.1 (of_decide_eq_false hnot)
  have hparts := List.takeWhile_append_dropWhile (p := (·.address < e.address)) (l := es)
  constructor
  · refine List.perm_middle.trans ?_
    rw [hparts]
    exact (h.perm.cons e).trans (List.perm_append_singleton e added).symm
  · have hascending := h.ascending
    rw [← hparts] at hascending
    obtain ⟨hascending, hascending', -⟩ := List.pairwise_append.1 hascending
    refine List.pairwise_append.2 ⟨hascending, List.pairwise_cons.2 ⟨hbehind, hascending'⟩, ?_⟩
    intro e₁ he₁ e₂ he₂
    have hlt := hfront e₁ he₁
    rcases List.mem_cons.1 he₂ with rfl | he₂
    · exact UInt16.le_of_lt hlt
    · exact UInt16.le_trans (UInt16.le_of_lt hlt) (hbehind e₂ he₂)
  · intro address
    have hsame := h.latest_first address
    rw [← hparts, List.filter_append] at hsame
    rw [Entries.add, List.filter_append, List.filter_append, List.reverse_append, ← hsame]
    by_cases haddress : e.address = address
    · subst haddress
      -- No entry in front has the address.
      have hnone : (es.takeWhile (·.address < e.address)).filter (·.address = e.address) = [] := by
        refine List.filter_eq_nil_iff.2 fun e' he' => ?_
        have hlt := hfront e' he'
        rintro heq
        rw [of_decide_eq_true heq] at hlt
        exact UInt16.lt_irrefl _ hlt
      simp [hnone]
    · simp [haddress]

/-- Entries hold all that have been added, one after the other. -/
theorem holds_foldl (h : Holds added es) (more : List Entry) :
    Holds (added ++ more) (more.foldl Entries.add es) := by
  induction more generalizing added es with
  | nil => rwa [List.append_nil]
  | cons e more ih =>
    have hrest := ih (h.add e)
    rwa [List.append_assoc] at hrest

/-- **Entries hold what was added,** in whatever order. -/
theorem holds_ofList (added : List Entry) : Holds added (ofList added) := by
  have hempty : Holds [] [] := ⟨.refl [], .nil, fun _ => rfl⟩
  exact holds_foldl hempty added

/-! ## Halving -/

/-- The place where class `p` ends in a list that has it in front.  The element in the middle tells
which half it is in. -/
def partitionPoint {α : Type} (p : α → Bool) (l : List α) : Nat :=
  match _h : l[l.length / 2]? with
  | none => 0
  | some middle =>
    if p middle then l.length / 2 + 1 + partitionPoint p (l.drop (l.length / 2 + 1))
    else partitionPoint p (l.take (l.length / 2))
termination_by l.length
decreasing_by
  all_goals
    have := (List.getElem?_eq_some_iff.1 _h).1
    simp only [List.length_drop, List.length_take]
    omega

/-- Add an entry at the place that is found by halving. -/
def insert (es : Entries) (e : Entry) : Entries :=
  let place := partitionPoint (·.address < e.address) es
  es.take place ++ e :: es.drop place

/-- Halving finds the end of a class that comes before all else. -/
theorem partitionPoint_eq {α : Type} {p : α → Bool} {l : List α}
    (h : l.Pairwise fun a b => p b = true → p a = true) :
    partitionPoint p l = (l.takeWhile p).length := by
  fun_induction partitionPoint p l with
  | case1 l hnone =>
    have hlength : l.length = 0 := by
      have := List.getElem?_eq_none_iff.1 hnone
      omega
    rw [List.length_eq_zero_iff.1 hlength]
    rfl
  | case2 l middle hmiddle hp ih =>
    obtain ⟨hlt, rfl⟩ := List.getElem?_eq_some_iff.1 hmiddle
    have hparts : l = l.take (l.length / 2) ++ l[l.length / 2] :: l.drop (l.length / 2 + 1) := by
      rw [List.getElem_cons_drop, List.take_append_drop]
    have hall := h
    rw [hparts] at hall
    obtain ⟨-, hbehind, hfront⟩ := List.pairwise_append.1 hall
    -- The test holds in the middle, so it holds of all in front of it.
    have htake : ∀ a ∈ l.take (l.length / 2), p a = true :=
      fun a ha => hfront a ha _ List.mem_cons_self hp
    rw [ih (List.pairwise_cons.1 hbehind).2]
    conv => rhs; rw [hparts, List.takeWhile_append_of_pos htake, List.takeWhile_cons_of_pos hp]
    simp
    omega
  | case3 l middle hmiddle hp ih =>
    obtain ⟨hlt, rfl⟩ := List.getElem?_eq_some_iff.1 hmiddle
    have hparts : l = l.take (l.length / 2) ++ l[l.length / 2] :: l.drop (l.length / 2 + 1) := by
      rw [List.getElem_cons_drop, List.take_append_drop]
    -- The test fails in the middle, so nothing behind it is taken.
    rw [ih (h.sublist (List.take_sublist _ _))]
    conv => rhs; rw [hparts, List.takeWhile_append, List.takeWhile_cons_of_neg hp]
    split
    · next hall => simp [hall]
    · rfl

/-- **Halving adds an entry at its place,** where the entries are in order. -/
theorem insert_eq_add (h : es.Pairwise fun e e' => e.address ≤ e'.address) (e : Entry) :
    es.insert e = es.add e := by
  have hparts := List.takeWhile_append_dropWhile (p := (·.address < e.address)) (l := es)
  have htake := @List.take_left _ (es.takeWhile (·.address < e.address))
    (es.dropWhile (·.address < e.address))
  have hdrop := @List.drop_left _ (es.takeWhile (·.address < e.address))
    (es.dropWhile (·.address < e.address))
  rw [hparts] at htake hdrop
  rw [insert, partitionPoint_eq (pairwise_startsBefore h e.address)]
  simp only [htake, hdrop, Entries.add]

/-- Halving finds the same places for all entries that are added. -/
theorem Holds.foldl_insert (h : Holds added es) (more : List Entry) :
    more.foldl insert es = more.foldl Entries.add es := by
  induction more generalizing added es with
  | nil => rfl
  | cons e more ih =>
    rw [List.foldl_cons, List.foldl_cons, insert_eq_add h.ascending]
    exact ih (h.add e)

/-! ## What is found -/

variable {es' : Entries}

/-- The entry at an address is the latest of those that were added there. -/
theorem Holds.at?_eq (h : Holds added es) (address : UInt16) :
    es.at? address = (added.filter (·.address = address)).getLast? := by
  rw [at?, ← List.head?_filter, h.latest_first, List.head?_reverse]

/-- **The order in which entries were added does not matter,** where they have different addresses. -/
theorem Holds.eq_of_perm (h : Holds added es) (h' : Holds added' es') (hperm : added'.Perm added)
    (hnodup : (added.map (·.address)).Nodup) : es' = es := by
  have hsame : es'.Perm es := h'.perm.trans (hperm.trans h.perm.symm)
  refine hsame.eq_of_pairwise (fun e e' he he' hle hge => ?_) h'.ascending h.ascending
  have hadded := h.perm.subset (hsame.subset he)
  exact List.inj_on_of_nodup_map hnodup hadded (h.perm.subset he') (UInt16.le_antisymm hle hge)

/-- The addresses of the entries of class `p` among those that were added, one for each entry, in
ascending order. -/
structure ListsAddresses (added : List Entry) (p : Entry → Prop) [DecidablePred p]
    (refs : List UInt16) : Prop where
  ascending : refs.Pairwise (· ≤ ·)
  perm : refs.Perm ((added.filter p).map (·.address))

/-- The addresses of some of the entries are listed in order, each once. -/
theorem Holds.listsAddresses (h : Holds added es) {p : Entry → Prop} [DecidablePred p]
    {q : Entry → Bool} (hq : ∀ e, q e = true ↔ p e) :
    ListsAddresses added p ((es.filter q).map (·.address)) := by
  have hsame : es.filter q = es.filter p :=
    List.filter_congr fun e _ => by rw [Bool.eq_iff_iff, hq, decide_eq_true_iff]
  rw [hsame]
  exact ⟨List.pairwise_map.2 (h.ascending.filter _), (h.perm.filter _).map _⟩

/-- Sorting changes nothing. -/
theorem ListsAddresses.mergeSort_eq {p : Entry → Prop} [DecidablePred p] {refs : List UInt16}
    (h : ListsAddresses added p refs) : refs.mergeSort (· ≤ ·) = refs :=
  List.mergeSort_of_pairwise (h.ascending.imp decide_eq_true)

end Entries

namespace Entry

/-- An entry contains the addresses of its instructions. -/
theorem contains_iff {e : Entry} {address : UInt16} :
    e.contains address = true ↔ ∃ i ∈ e.instructions, i.address = address := by
  simp [contains]

theorem refersTo_address_iff {e : Entry} {address : UInt16} :
    e.refersTo (· = address) = true ↔ ∃ i ∈ e.instructions, i.reference = some address := by
  simp [refersTo, Option.any_eq_true]

/-- An entry refers to another by an instruction that points to one of its instructions. -/
theorem refersTo_contains_iff {e entry : Entry} :
    e.refersTo entry.contains = true ↔
      ∃ i ∈ e.instructions, ∃ j ∈ entry.instructions, i.reference = some j.address := by
  simp only [refersTo, List.any_eq_true, Option.any_eq_true, contains_iff]
  constructor
  · rintro ⟨i, hi, _, hreference, j, hj, rfl⟩
    exact ⟨i, hi, j, hj, hreference⟩
  · rintro ⟨i, hi, j, hj, hreference⟩
    exact ⟨i, hi, _, hreference, j, hj, rfl⟩

end Entry

namespace Entries

variable {added : List Entry} {es : Entries}

/-- The entries that refer to an address are listed in order. -/
theorem Holds.refersTo (h : Holds added es) (address : UInt16) :
    ListsAddresses added (fun e => ∃ i ∈ e.instructions, i.reference = some address)
      (es.refersTo address) :=
  h.listsAddresses fun _ => Entry.refersTo_address_iff

/-- The entries that refer to another one are listed in order, and the other one is left out. -/
theorem Holds.referrers (h : Holds added es) {address : UInt16} {entry : Entry}
    (hentry : es.at? address = some entry) :
    ListsAddresses added (fun e => e.address ≠ address ∧
        ∃ i ∈ e.instructions, ∃ j ∈ entry.instructions, i.reference = some j.address)
      (es.referrers address) := by
  simp only [Entries.referrers, hentry]
  refine h.listsAddresses fun e => ?_
  rw [Bool.and_eq_true, decide_eq_true_eq, Entry.refersTo_contains_iff]

/-- The first entry that has an instruction at an address. -/
theorem container?_eq_some_iff {address : UInt16} {e : Entry} :
    es.container? address = some e ↔
      (∃ i ∈ e.instructions, i.address = address) ∧ ∃ before behind, es = before ++ e :: behind ∧
        ∀ e' ∈ before, ∀ i ∈ e'.instructions, i.address ≠ address := by
  rw [container?, List.find?_eq_some_iff_append, Entry.contains_iff]
  simp [Entry.contains]

end Entries

/-- **Entries are kept in order, whatever the order in which they are added.**  They are those that
were added, by ascending addresses and, at one address, the latest first, and halving finds the place
of every further entry.  The entry at an address is the latest that was added there, if one was, and
the entry that has an instruction at an address is the first in this order.  What refers to an address,
or to another entry, is listed by ascending addresses, each as often as there are such entries, so that
sorting the lists changes nothing.  Where no two entries have the same address, all is the same if they
are added in another order. -/
theorem entries_inOrder (site : Site) (added : List Entry)
    (hsite : site.listing.entries = Entries.ofList added) :
    Entries.Holds added site.listing.entries ∧
    added.foldl Entries.insert [] = site.listing.entries ∧
    (∀ address, site.listing.entries.at? address =
      (added.filter (·.address = address)).getLast?) ∧
    (∀ address e, site.listing.container? address none = some e ↔
      (∃ i ∈ e.instructions, i.address = address) ∧
      ∃ before behind, site.listing.entries = before ++ e :: behind ∧
        ∀ e' ∈ before, ∀ i ∈ e'.instructions, i.address ≠ address) ∧
    (∀ address, Entries.ListsAddresses added
      (fun e => ∃ i ∈ e.instructions, i.reference = some address)
      (site.listing.entries.refersTo address)) ∧
    (∀ address, match site.listing.entries.at? address with
      | none => site.listing.entries.referrers address = []
      | some entry => Entries.ListsAddresses added (fun e => e.address ≠ address ∧
          ∃ i ∈ e.instructions, ∃ j ∈ entry.instructions, i.reference = some j.address)
        (site.listing.entries.referrers address)) ∧
    (∀ written address, site.entryPointReferrers written address =
      if site.listing.entries.refersTo address = [] then .error (.noReferrers written)
      else .ok (site.listing.entries.refersTo address)) ∧
    (∀ written address, site.referrers written address =
      if site.listing.entries.at? address = none then .error (.noEntry written)
      else .ok (site.listing.entries.referrers address)) ∧
    (∀ added', added'.Perm added → (added.map (·.address)).Nodup →
      Entries.ofList added' = site.listing.entries) := by
  have hholds : Entries.Holds added site.listing.entries := hsite ▸ Entries.holds_ofList added
  refine ⟨hholds, ?_, hholds.at?_eq, fun _ _ => Entries.container?_eq_some_iff, hholds.refersTo,
    fun address => ?_, fun written address => ?_, fun written address => ?_,
    fun added' hperm hnodup => hholds.eq_of_perm (Entries.holds_ofList added') hperm hnodup⟩
  · rw [hsite]
    exact (Entries.holds_ofList []).foldl_insert added
  · split
    · next hnone => simp only [Entries.referrers, hnone]
    · next hentry => exact hholds.referrers hentry
  · rw [entryPointReferrers]
    split
    · next hnone => rw [if_pos hnone]
    · next hsome => rw [if_neg hsome, (hholds.refersTo address).mergeSort_eq]
  · rw [Site.referrers]
    split
    · next hnone => rw [if_pos hnone]
    · next hentry => rw [if_neg (by simp [hentry]), (hholds.referrers hentry).mergeSort_eq]

/-- An entry whose only instruction refers to an address. -/
def jump (address target : UInt16) : Entry where
  address
  kind := .code
  instructions := [{ Instruction.ofAddress address with reference := some target }]

/-- Two entries of one address stand in the reverse of the order in which they were added. -/
example : Entries.ofList [jump 7 1, jump 5 1, jump 7 2] = [jump 5 1, jump 7 2, jump 7 1] := by
  decide

/-- A site with three entries that were not added in order. -/
def jumping : Site where
  settings := {}
  listing := { memory := .zeros, entries := Entries.ofList [jump 7 5, jump 9 7, jump 5 7] }

/-- Three entries are in one order whether they are added forwards or backwards. -/
theorem entries_inOrder_reversed :
    jumping.listing.entries = Entries.ofList [jump 7 5, jump 9 7, jump 5 7] ∧
      [jump 5 7, jump 9 7, jump 7 5].Perm [jump 7 5, jump 9 7, jump 5 7] ∧
      ([jump 7 5, jump 9 7, jump 5 7].map (·.address)).Nodup ∧
      jumping.listing.entries = [jump 5 7, jump 7 5, jump 9 7] ∧
      Entries.ofList [jump 5 7, jump 9 7, jump 7 5] = jumping.listing.entries ∧
      jumping.entryPointReferrers "7" 7 = .ok [5, 9] := by
  have hperm : [jump 5 7, jump 9 7, jump 7 5].Perm [jump 7 5, jump 9 7, jump 5 7] :=
    List.reverse_perm [jump 7 5, jump 9 7, jump 5 7]
  have hnodup : ([jump 7 5, jump 9 7, jump 5 7].map (·.address)).Nodup := by decide
  have hentries : jumping.listing.entries = [jump 5 7, jump 7 5, jump 9 7] := by decide
  obtain ⟨-, -, -, -, -, -, hresolved, -, hsame⟩ := entries_inOrder jumping _ rfl
  refine ⟨rfl, hperm, hnodup, hentries, hsame _ hperm hnodup, ?_⟩
  rw [hresolved, hentries]
  decide

end MemoryDoc.Site
