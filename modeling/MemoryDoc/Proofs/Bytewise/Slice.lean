/-
# Places in a text

A place in a text is told in bytes from its start.  Not every number of bytes is a place where a
character begins or the text ends, and only between two such places is there a part of the text.

Main statements: the part of a text between two boundaries is what was read on the way from the one
to the other (`slice?_eq_consumed`), and a character of ASCII is told by the byte at its place
(`ToldBy.map_getElem?`).
-/
import MemoryDoc.Text.Basic

namespace MemoryDoc.Text

/-- A character of the text begins at a place, or the text ends there. -/
def IsBoundary (t : Text) (n : Nat) : Prop :=
  ∃ before after, t = before ++ after ∧ byteSize before = n

/-- The part of a text between two places. -/
def slice? (t : Text) (i j : Nat) : Option Text :=
  if i ≤ j then
    match dropBytes? i t, dropBytes? j t with
    | some after, some rest => some (consumed after rest)
    | _, _ => none
  else none

/-- The text with the part between two places replaced. -/
def splice? (t : Text) (i j : Nat) (part : Text) : Option Text :=
  match slice? t 0 i, slice? t i j, slice? t j (byteSize t) with
  | some before, some _, some after => some (before ++ part ++ after)
  | _, _, _ => none

/-- The bytes of a text in UTF-8. -/
def bytes (t : Text) : List UInt8 :=
  t.flatMap String.utf8EncodeChar

/-! ## What is behind a place -/

@[simp] theorem byteSize_nil : byteSize [] = 0 :=
  rfl

theorem byteSize_cons (c : Char) (t : Text) : byteSize (c :: t) = c.utf8Size + byteSize t :=
  rfl

theorem byteSize_concat (t : Text) (c : Char) : byteSize (t ++ [c]) = byteSize t + c.utf8Size := by
  rw [byteSize_append, byteSize_cons, byteSize_nil, Nat.add_zero]

theorem byteSize_reverse (t : Text) : byteSize t.reverse = byteSize t := by
  induction t with
  | nil => rfl
  | cons c t ih => rw [List.reverse_cons, byteSize_concat, ih, byteSize_cons, Nat.add_comm]

@[simp] theorem dropBytes?_zero (t : Text) : dropBytes? 0 t = some t := by
  cases t <;> rfl

/-- A text has as many bytes as characters at least. -/
theorem length_le_byteSize (t : Text) : t.length ≤ byteSize t := by
  induction t with
  | nil => exact Nat.le_refl 0
  | cons c t ih =>
    have := c.utf8Size_pos
    rw [byteSize_cons, List.length_cons]
    omega

/-- Only the empty text has no bytes. -/
theorem eq_nil_of_byteSize_eq_zero {t : Text} (h : byteSize t = 0) : t = [] := by
  have := length_le_byteSize t
  exact List.eq_nil_of_length_eq_zero (by omega)

/-- The bytes that are dropped are those of whole characters at the front. -/
theorem dropBytes?_eq_some_iff {t rest : Text} {n : Nat} :
    dropBytes? n t = some rest ↔ ∃ before, t = before ++ rest ∧ byteSize before = n := by
  constructor
  · intro h
    induction t generalizing n with
    | nil =>
      cases n with
      | zero =>
        cases h
        exact ⟨[], rfl, rfl⟩
      | succ n => cases h
    | cons c t ih =>
      -- No byte is dropped, or the whole first character is.
      cases n with
      | zero =>
        cases h
        exact ⟨[], rfl, rfl⟩
      | succ n =>
        rw [dropBytes?] at h
        split at h
        · next hc =>
          obtain ⟨before, rfl, hsize⟩ := ih h
          refine ⟨c :: before, rfl, ?_⟩
          rw [byteSize_cons, hsize]
          omega
        · cases h
  · rintro ⟨before, rfl, rfl⟩
    exact dropBytes?_byteSize before rest

/-- **The boundaries of a text are the places behind which something is left of it.** -/
theorem isBoundary_iff {t : Text} {n : Nat} :
    IsBoundary t n ↔ ∃ rest, dropBytes? n t = some rest := by
  constructor
  · rintro ⟨before, after, ht, hsize⟩
    exact ⟨after, dropBytes?_eq_some_iff.2 ⟨before, ht, hsize⟩⟩
  · rintro ⟨rest, h⟩
    obtain ⟨before, ht, hsize⟩ := dropBytes?_eq_some_iff.1 h
    exact ⟨before, rest, ht, hsize⟩

section

variable {t a b : Text} {i j : Nat}

/-- Where bytes can be dropped is a boundary. -/
theorem isBoundary_of_dropBytes? (h : dropBytes? i t = some a) : IsBoundary t i :=
  isBoundary_iff.2 ⟨a, h⟩

/-- A place and what is behind it make up the size of the text. -/
theorem add_byteSize (h : dropBytes? i t = some a) : i + byteSize a = byteSize t := by
  obtain ⟨before, rfl, rfl⟩ := dropBytes?_eq_some_iff.1 h
  rw [byteSize_append]

/-- A place moves over what is read at it. -/
theorem dropBytes?_append (h : dropBytes? i t = some (a ++ b)) :
    dropBytes? (i + byteSize a) t = some b := by
  obtain ⟨before, rfl, rfl⟩ := dropBytes?_eq_some_iff.1 h
  refine dropBytes?_eq_some_iff.2 ⟨before ++ a, ?_, byteSize_append before a⟩
  rw [List.append_assoc]

/-- The character behind a boundary ends at a boundary. -/
theorem dropBytes?_cons {c : Char} (h : dropBytes? i t = some (c :: a)) :
    dropBytes? (i + c.utf8Size) t = some a := by
  have := dropBytes?_append (a := [c]) h
  rwa [byteSize_cons, byteSize_nil, Nat.add_zero] at this

/-- What is behind the later of two places is an end of what is behind the earlier. -/
theorem exists_append_of_le (hij : i ≤ j) (hi : dropBytes? i t = some a)
    (hj : dropBytes? j t = some b) : ∃ part, a = part ++ b ∧ i + byteSize part = j := by
  obtain ⟨front, hfront, rfl⟩ := dropBytes?_eq_some_iff.1 hi
  obtain ⟨front', hfront', rfl⟩ := dropBytes?_eq_some_iff.1 hj
  have hab : front ++ a = front' ++ b := by rw [← hfront, hfront']
  rcases List.append_eq_append_iff.1 hab with ⟨part, rfl, ha⟩ | ⟨part, rfl, hb⟩
  · exact ⟨part, ha, (byteSize_append front part).symm⟩
  · have hsize : byteSize part = 0 := by
      rw [byteSize_append] at hij
      omega
    rw [eq_nil_of_byteSize_eq_zero hsize] at hb ⊢
    exact ⟨[], hb.symm, by simp⟩

theorem consumed_append_left (a b : Text) : consumed (a ++ b) b = a := by
  simp [consumed]

/-- What was read with all characters of a class that follow. -/
theorem consumed_dropWhile (p : Char → Bool) (front t : Text) :
    consumed (front ++ t) (t.dropWhile p) = front ++ t.takeWhile p := by
  have := consumed_append_left (front ++ t.takeWhile p) (t.dropWhile p)
  rwa [List.append_assoc, List.takeWhile_append_dropWhile] at this

/-! ## Parts -/

/-- **Between two boundaries in order is what was read on the way.** -/
theorem slice?_eq_consumed (hij : i ≤ j) (hi : dropBytes? i t = some a)
    (hj : dropBytes? j t = some b) : slice? t i j = some (consumed a b) := by
  simp [slice?, hij, hi, hj]

/-- A text that starts at a boundary is sliced up to any of its own boundaries. -/
theorem slice?_append (hi : dropBytes? i t = some (a ++ b)) :
    slice? t i (i + byteSize a) = some a := by
  rw [slice?_eq_consumed (Nat.le_add_right _ _) hi (dropBytes?_append hi), consumed_append_left]

/-- What is left behind a place is a part of the text. -/
theorem slice?_end (h : dropBytes? i t = some a) : slice? t i (byteSize t) = some a := by
  have := slice?_append (b := []) (by rwa [List.append_nil])
  rwa [add_byteSize h] at this

theorem slice?_zero (h : t = a ++ b) : slice? t 0 (byteSize a) = some a := by
  have := slice?_append (t := t) (a := a) (b := b) (i := 0) (by rw [dropBytes?_zero, h])
  rwa [Nat.zero_add] at this

example : slice? "é".toList 0 1 = none := by
  decide

/-- A part between two boundaries is replaced. -/
theorem splice?_eq {before mid after : Text} (part : Text) (h : t = before ++ (mid ++ after)) :
    splice? t (byteSize before) (byteSize before + byteSize mid) part =
      some (before ++ part ++ after) := by
  have hi : dropBytes? (byteSize before) t = some (mid ++ after) :=
    dropBytes?_eq_some_iff.2 ⟨before, h, rfl⟩
  rw [splice?, slice?_zero h, slice?_append hi, slice?_end (dropBytes?_append hi)]

end

/-! ## Bytes -/

theorem bytes_cons (c : Char) (t : Text) : bytes (c :: t) = String.utf8EncodeChar c ++ bytes t := by
  simp [bytes]

theorem bytes_append (s t : Text) : bytes (s ++ t) = bytes s ++ bytes t := by
  simp [bytes]

@[simp] theorem length_bytes (t : Text) : (bytes t).length = byteSize t := by
  induction t with
  | nil => rfl
  | cons c t ih =>
    rw [bytes_cons, List.length_append, ih, String.length_utf8EncodeChar, byteSize_cons]

/-- The bytes behind a place are those of what is behind it. -/
theorem drop_bytes {t a : Text} {i : Nat} (h : dropBytes? i t = some a) :
    (bytes t).drop i = bytes a := by
  obtain ⟨before, rfl, rfl⟩ := dropBytes?_eq_some_iff.1 h
  rw [bytes_append, ← length_bytes before, List.drop_left]

/-- The bytes of a character are bytes of the text. -/
theorem add_lt_length_bytes {t a : Text} {c : Char} {i k : Nat}
    (h : dropBytes? i t = some (c :: a)) (hk : k < c.utf8Size) : i + k < (bytes t).length := by
  have := add_byteSize h
  rw [byteSize_cons] at this
  rw [length_bytes]
  omega

/-- An ASCII character is one byte. -/
theorem utf8Size_of_lt {c : Char} (h : c.toNat < 128) : c.utf8Size = 1 := by
  rw [Char.utf8Size_eq_one_iff, UInt32.le_iff_toNat_le]
  have hc : c.toNat = c.val.toNat := rfl
  have h127 : (127 : UInt32).toNat = 127 := rfl
  omega

/-- A text of ASCII has a byte for each character. -/
theorem byteSize_of_ascii {t : Text} (h : ∀ c ∈ t, c.toNat < 128) : byteSize t = t.length := by
  induction t with
  | nil => rfl
  | cons c t ih =>
    have hrest : ∀ d ∈ t, d.toNat < 128 := fun d hd => h d (List.mem_cons_of_mem c hd)
    rw [byteSize_cons, utf8Size_of_lt (h c List.mem_cons_self), ih hrest, List.length_cons,
      Nat.add_comm]

/-- A character of ASCII is its only byte. -/
theorem utf8EncodeChar_of_lt {c : Char} (h : c.toNat < 128) :
    String.utf8EncodeChar c = [c.toUInt8] := by
  rw [String.utf8EncodeChar_eq_singleton (utf8Size_of_lt h)]
  rfl

/-- No byte of any other character is one of ASCII. -/
theorem le_of_mem_utf8EncodeChar {c : Char} (h : 128 ≤ c.toNat) {b : UInt8}
    (hb : b ∈ String.utf8EncodeChar c) : 128 ≤ b.toNat := by
  have hv : ¬ c.val ≤ 0x7f := by
    rw [UInt32.le_iff_toNat_le]
    have hc : c.toNat = c.val.toNat := rfl
    have h127 : (0x7f : UInt32).toNat = 127 := rfl
    omega
  unfold String.utf8EncodeChar at hb
  simp only at hb
  rw [if_neg (by simpa [UInt32.le_iff_toNat_le] using hv)] at hb
  split at hb
  · simp only [List.mem_cons, List.not_mem_nil, or_false] at hb
    rcases hb with rfl | rfl <;> rw [UInt8.toNat_ofNat'] <;> omega
  · split at hb
    · simp only [List.mem_cons, List.not_mem_nil, or_false] at hb
      rcases hb with rfl | rfl | rfl <;> rw [UInt8.toNat_ofNat'] <;> omega
    · simp only [List.mem_cons, List.not_mem_nil, or_false] at hb
      rcases hb with rfl | rfl | rfl | rfl <;> rw [UInt8.toNat_ofNat'] <;> omega

/-! ## Characters that are told by a byte -/

/-- The bytes of class `q` are those of the characters of class `p`, which are all of ASCII. -/
structure ToldBy (q : UInt8 → Bool) (p : Char → Bool) : Prop where
  ascii : ∀ n < 128, q (Char.ofNat n).toUInt8 = p (Char.ofNat n)
  byte : ∀ b : UInt8, 128 ≤ b.toNat → q b = false
  char : ∀ c : Char, 128 ≤ c.toNat → p c = false

namespace ToldBy

variable {q : UInt8 → Bool} {p : Char → Bool}

/-- A test of bytes is one of characters as long as these are ASCII. -/
theorem of_lt (h : ToldBy q p) {c : Char} (hc : c.toNat < 128) : q c.toUInt8 = p c := by
  have := h.ascii c.toNat hc
  rwa [Char.ofNat_toNat] at this

/-- A character is of the class if its first byte is. -/
theorem map_head? (h : ToldBy q p) (t : Text) : (bytes t).head?.map q = t.head?.map p := by
  cases t with
  | nil => rfl
  | cons c t =>
    rw [bytes_cons]
    by_cases hc : c.toNat < 128
    · rw [utf8EncodeChar_of_lt hc]
      simp [h.of_lt hc]
    · obtain ⟨b, bs, hb⟩ := List.exists_cons_of_ne_nil (String.utf8EncodeChar_ne_nil (c := c))
      have hle := le_of_mem_utf8EncodeChar (c := c) (b := b) (by omega) (by simp [hb])
      simp [hb, h.byte b hle, h.char c (by omega)]

/-- A character is of the class if its last byte is. -/
theorem map_getLast? (h : ToldBy q p) (t : Text) : (bytes t).getLast?.map q = t.getLast?.map p := by
  rcases List.eq_nil_or_concat t with rfl | ⟨t, c, rfl⟩
  · rfl
  · rw [List.concat_eq_append, bytes_append, bytes_cons]
    by_cases hc : c.toNat < 128
    · rw [utf8EncodeChar_of_lt hc]
      simp [bytes, h.of_lt hc]
    · rcases List.eq_nil_or_concat (String.utf8EncodeChar c) with hb | ⟨bs, b, hb⟩
      · exact absurd hb String.utf8EncodeChar_ne_nil
      · rw [List.concat_eq_append] at hb
        have hle := le_of_mem_utf8EncodeChar (c := c) (b := b) (by omega) (by simp [hb])
        simp [hb, bytes, h.byte b hle, h.char c (by omega)]

/-- A character is of the class if the byte at its place is. -/
theorem map_getElem? (h : ToldBy q p) {t a : Text} {i : Nat} (hi : dropBytes? i t = some a) :
    (bytes t)[i]?.map q = a.head?.map p := by
  rw [← h.map_head? a, ← drop_bytes hi, List.head?_drop]

/-- The further bytes of a character are not of the class. -/
theorem inner (h : ToldBy q p) {t a : Text} {c : Char} {i k : Nat}
    (hi : dropBytes? i t = some (c :: a)) (hk : 0 < k) (hc : k < c.utf8Size) :
    (bytes t)[i + k]?.map q = some false := by
  have hbig : ¬ c.toNat < 128 := fun hlt => by
    rw [utf8Size_of_lt hlt] at hc
    omega
  have hlen : k < (String.utf8EncodeChar c).length := by rwa [String.length_utf8EncodeChar]
  rw [← List.getElem?_drop, drop_bytes hi, bytes_cons, List.getElem?_append_left hlen,
    List.getElem?_eq_getElem hlen, Option.map_some]
  rw [h.byte _ (le_of_mem_utf8EncodeChar (c := c) (by omega) (List.getElem_mem hlen))]

/-- As many bytes are of the class as characters at the front of a text. -/
theorem length_takeWhile (h : ToldBy q p) (t : Text) :
    ((bytes t).takeWhile q).length = byteSize (t.takeWhile p) := by
  induction t with
  | nil => rfl
  | cons c t ih =>
    rw [bytes_cons]
    by_cases hc : c.toNat < 128
    · rw [utf8EncodeChar_of_lt hc, List.cons_append, List.nil_append, List.takeWhile_cons,
        List.takeWhile_cons, h.of_lt hc]
      cases p c with
      | false => rfl
      | true =>
        simp only [if_true]
        rw [List.length_cons, ih, byteSize_cons, utf8Size_of_lt hc, Nat.add_comm]
    · obtain ⟨b, bs, hb⟩ := List.exists_cons_of_ne_nil (String.utf8EncodeChar_ne_nil (c := c))
      have hle := le_of_mem_utf8EncodeChar (c := c) (b := b) (by omega) (by simp [hb])
      simp [hb, h.byte b hle, h.char c (by omega)]

end ToldBy

end MemoryDoc.Text
