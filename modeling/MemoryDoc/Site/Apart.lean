/-
# Entries that are apart

In the listing of one program every entry has an instruction at its own address, and no address
belongs to two entries.  Then an address tells its entry, and entries can be listed by their
addresses.

Main statements: an address finds the entry that has an instruction there (`container?_eq_some`) and
what is written of it (`instruction?_eq`), and the entries of a class have one list in the order of
their addresses (`exists_lists`, `Lists.unique`).
-/
import MemoryDoc.Site.Listing

namespace MemoryDoc.Site

/-- The address of an entry, as the listing writes it at the first instruction there. -/
def Entry.written (e : Entry) : Text :=
  ((e.instruction? e.address).map (·.written)).getD []

/-- An entry has an instruction at an address if it contains it. -/
theorem Entry.isSome_instruction? (e : Entry) (address : UInt16) :
    (e.instruction? address).isSome = e.contains address := by
  rw [instruction?, contains, List.isSome_find?]

/-- An entry starts at the address of another or before. -/
def Entry.startsUpTo (e e' : Entry) : Bool :=
  e.address ≤ e'.address

theorem Entry.startsUpTo_trans (e₁ e₂ e₃ : Entry) (h₁ : e₁.startsUpTo e₂ = true)
    (h₂ : e₂.startsUpTo e₃ = true) : e₁.startsUpTo e₃ = true :=
  decide_eq_true (UInt16.le_trans (of_decide_eq_true h₁) (of_decide_eq_true h₂))

/-- Of two entries, one starts up to where the other does. -/
theorem Entry.startsUpTo_total (e e' : Entry) : (e.startsUpTo e' || e'.startsUpTo e) = true := by
  simpa [startsUpTo] using UInt16.le_total e.address e'.address

namespace Entries

/-- Every entry has an instruction at its own address, and no address belongs to two entries. -/
structure Apart (es : Entries) : Prop where
  starts : ∀ e ∈ es, e.contains e.address = true
  disjoint : es.Pairwise fun e e' => ∀ address,
    e.contains address = true → e'.contains address = false

variable {es : Entries} {e e' : Entry} {address : UInt16}

/-! ## What an address finds -/

/-- Entries that are apart share no address. -/
theorem Apart.eq_of_contains (h : es.Apart) (he : e ∈ es) (he' : e' ∈ es)
    (hc : e.contains address = true) (hc' : e'.contains address = true) : e = e' := by
  have hdisjoint := h.disjoint
  clear h
  induction es with
  | nil => cases he
  | cons first es ih =>
    obtain ⟨hfirst, hrest⟩ := List.pairwise_cons.1 hdisjoint
    rcases List.mem_cons.1 he with rfl | hmem
    · rcases List.mem_cons.1 he' with rfl | hmem'
      · rfl
      · rw [hfirst e' hmem' address hc] at hc'
        cases hc'
    · rcases List.mem_cons.1 he' with rfl | hmem'
      · rw [hfirst e hmem address hc'] at hc
        cases hc
      · exact ih hmem hmem' hrest

/-- Entries of one address are the same. -/
theorem Apart.eq_of_address (h : es.Apart) (he : e ∈ es) (he' : e' ∈ es)
    (haddress : e.address = e'.address) : e = e' :=
  h.eq_of_contains he he' (haddress ▸ h.starts e he) (h.starts e' he')

/-- What is the only one of its class is found. -/
theorem find?_eq_some {p : Entry → Bool} (he : e ∈ es) (hp : p e = true)
    (honly : ∀ e' ∈ es, p e' = true → e' = e) : es.find? p = some e := by
  cases hfind : es.find? p with
  | none => exact absurd hp (List.find?_eq_none.1 hfind e he)
  | some e' => rw [honly e' (List.mem_of_find?_eq_some hfind) (List.find?_some hfind)]

/-- An entry is found at its address. -/
theorem Apart.at?_eq_some (h : es.Apart) (he : e ∈ es) : es.at? e.address = some e :=
  find?_eq_some he (by simp) fun _ he' haddress =>
    h.eq_of_address he' he (of_decide_eq_true haddress)

/-- **An address finds the entry that has an instruction there.** -/
theorem Apart.container?_eq_some (h : es.Apart) (he : e ∈ es) (hc : e.contains address = true) :
    es.container? address = some e :=
  find?_eq_some he hc fun _ he' hc' => h.eq_of_contains he' he hc' hc

/-- **An address finds the first instruction there in its entry.** -/
theorem Apart.instruction?_eq (h : es.Apart) (he : e ∈ es) (hc : e.contains address = true) :
    es.instruction? address = e.instruction? address := by
  obtain ⟨i, hi⟩ : ∃ i, e.instruction? address = some i :=
    Option.isSome_iff_exists.1 ((e.isSome_instruction? address).trans hc)
  rw [instruction?, hi]
  cases hfind : es.findSome? (·.instruction? address) with
  | none =>
    rw [List.findSome?_eq_none_iff.1 hfind e he] at hi
    cases hi
  | some i' =>
    obtain ⟨e', he', hi'⟩ := List.exists_of_findSome?_eq_some hfind
    have hc' : e'.contains address = true := by
      rw [← e'.isSome_instruction?, hi']
      rfl
    obtain rfl := h.eq_of_contains he' he hc' hc
    rw [← hi', hi]

/-! ## Entries in the order of their addresses -/

/-- The entries of class `p` are listed, each once, in ascending order of their addresses. -/
structure Lists (es : Entries) (p : Entry → Prop) (refs : List Entry) : Prop where
  ascending : refs.Pairwise fun e e' => e.address < e'.address
  mem_iff : ∀ e, e ∈ refs ↔ e ∈ es ∧ p e

/-- A condition may be put in other words for the entries that are there. -/
theorem Lists.congr {p p' : Entry → Prop} {refs : List Entry} (h : es.Lists p refs)
    (hp : ∀ e ∈ es, p e ↔ p' e) : es.Lists p' refs where
  ascending := h.ascending
  mem_iff e := (h.mem_iff e).trans (and_congr_right (hp e))

/-- The list is not empty if there is an entry of the class. -/
theorem Lists.ne_nil {p : Entry → Prop} {refs : List Entry} (h : es.Lists p refs)
    (hp : ∃ e ∈ es, p e) : refs ≠ [] := by
  rintro rfl
  obtain ⟨e, he⟩ := hp
  cases (h.mem_iff e).2 he

/-- No entry is listed twice. -/
theorem Lists.nodup {p : Entry → Prop} {refs : List Entry} (h : es.Lists p refs) : refs.Nodup :=
  h.ascending.imp fun hlt => by
    rintro rfl
    exact UInt16.lt_irrefl _ hlt

/-- There is one such list. -/
theorem Lists.unique {p : Entry → Prop} {refs refs' : List Entry} (h : es.Lists p refs)
    (h' : es.Lists p refs') : refs = refs' := by
  have hperm : refs.Perm refs' := (List.perm_ext_iff_of_nodup h.nodup h'.nodup).2 fun e =>
    (h.mem_iff e).trans (h'.mem_iff e).symm
  exact hperm.eq_of_pairwise (fun _ _ _ _ hlt hlt' => absurd hlt' (UInt16.lt_asymm hlt))
    h.ascending h'.ascending

/-- Entries that are apart have different addresses. -/
theorem Apart.pairwise_address_ne (h : es.Apart) :
    es.Pairwise fun e e' => e.address ≠ e'.address := by
  refine h.disjoint.imp_of_mem fun {e e'} he he' hdisjoint haddress => ?_
  have hc := h.starts e' he'
  rw [hdisjoint _ (haddress ▸ h.starts e he)] at hc
  cases hc

/-- **The addresses of the entries of a class, sorted, are those of their list.** -/
theorem Apart.exists_lists (h : es.Apart) (p : Entry → Bool) :
    ∃ refs, es.Lists (p · = true) refs ∧
      ((es.filter p).map (·.address)).mergeSort (· ≤ ·) = refs.map (·.address) := by
  have hsort : ((es.filter p).mergeSort Entry.startsUpTo).map (·.address) =
      ((es.filter p).map (·.address)).mergeSort (· ≤ ·) :=
    List.map_mergeSort fun _ _ _ _ => rfl
  have hle := List.pairwise_mergeSort Entry.startsUpTo_trans Entry.startsUpTo_total (es.filter p)
  have hne := (h.pairwise_address_ne.filter p).perm
    (List.mergeSort_perm (es.filter p) Entry.startsUpTo).symm Ne.symm
  refine ⟨(es.filter p).mergeSort Entry.startsUpTo, ⟨?_, fun e => ?_⟩, hsort.symm⟩
  · refine (hle.and hne).imp fun hboth => ?_
    exact UInt16.lt_of_le_of_ne (of_decide_eq_true hboth.1) hboth.2
  · rw [List.mem_mergeSort, List.mem_filter]

end Entries

end MemoryDoc.Site
