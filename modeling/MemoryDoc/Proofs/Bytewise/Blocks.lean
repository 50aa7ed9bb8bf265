/-
# Blocks found by their bytes

The braces of rows and items are looked for byte by byte, and so are the spaces around them.  No
byte of a longer character is a brace or a space, so the places of braces are boundaries, and what
stands between them is a part of the text.

Main statement: the blocks that are found by bytes are the blocks of the text (`blocks?_eq`).
-/
import MemoryDoc.Macro.TableText
import MemoryDoc.Proofs.Bytewise.Slice

namespace MemoryDoc.TableText

open Text (bytes byteSize dropBytes? slice? ToldBy)

/-- The byte is a blank character of ASCII. -/
def isSpaceByte (b : UInt8) : Bool :=
  b == 0x20 || b == 0x09 || b == 0x0a || b == 0x0c || b == 0x0d

/-- A space stands at a place, or the text ends before it. -/
def isSpaceAt (bs : List UInt8) (i : Nat) : Bool :=
  (bs[i]?).all isSpaceByte

/-- A block is opened at a place. -/
def opensAt (bs : List UInt8) (i : Nat) : Bool :=
  (bs[i]?).any (· == 0x7b) && (i == 0 || isSpaceAt bs (i - 1)) && isSpaceAt bs (i + 1)

/-- A block is closed at a place.  There has to be a place before a brace. -/
def closesAt? (bs : List UInt8) (i : Nat) : Option Bool :=
  if (bs[i]?).any (· == 0x7d) then
    if i = 0 then none else some (isSpaceAt bs (i - 1) && isSpaceAt bs (i + 1))
  else some false

/-- The place where the block that goes on at a place is closed, or else the end. -/
def blockEnd? (bs : List UInt8) (i : Nat) : Option Nat :=
  if _h : i < bs.length then
    match closesAt? bs i with
    | none => none
    | some true => some i
    | some false => blockEnd? bs (i + 1)
  else some i
termination_by bs.length - i

/-- A block ends behind the place where it is looked for. -/
theorem le_of_blockEnd? {bs : List UInt8} {i j : Nat} (h : blockEnd? bs i = some j) : i ≤ j := by
  fun_induction blockEnd? bs i with
  | case1 => cases h
  | case2 =>
    cases h
    exact Nat.le_refl _
  | case3 i _ _ ih => exact Nat.le_trans (Nat.le_succ i) (ih h)
  | case4 =>
    cases h
    exact Nat.le_refl _

/-- The blocks of a text from a place on. -/
def blocksAt? (body : Text) (i : Nat) : Option (List Text) :=
  if _hi : i < (bytes body).length then
    if opensAt (bytes body) i then
      match _hj : blockEnd? (bytes body) (i + 1) with
      | none => none
      | some j => do
        let block ← slice? body (i + 1) j
        return trimmed block :: (← blocksAt? body (j + 1))
    else blocksAt? body (i + 1)
  else some []
termination_by (bytes body).length - i
decreasing_by
  · have := le_of_blockEnd? _hj
    omega
  · omega

/-- The blocks of a text. -/
def blocks? (body : Text) : Option (List Text) :=
  blocksAt? body 0

/-! ## Braces and spaces -/

/-- A blank is told by its byte. -/
theorem toldBy_space : ToldBy isSpaceByte Text.isAsciiBlank where
  ascii := by decide
  byte b hb := by
    simp only [isSpaceByte, Bool.or_eq_false_iff, beq_eq_false_iff_ne, ne_eq]
    refine ⟨⟨⟨⟨?_, ?_⟩, ?_⟩, ?_⟩, ?_⟩ <;> rintro rfl <;> exact absurd hb (by decide)
  char c hc := by
    simp only [Text.isAsciiBlank, Bool.or_eq_false_iff, beq_eq_false_iff_ne, ne_eq]
    refine ⟨⟨⟨⟨?_, ?_⟩, ?_⟩, ?_⟩, ?_⟩ <;> rintro rfl <;> exact absurd hc (by decide)

/-- A character of ASCII is told by its byte. -/
theorem toldBy_char {d : Char} (hd : d.toNat < 128) (hbyte : d.toUInt8.toNat < 128)
    (h : ∀ n < 128, ((Char.ofNat n).toUInt8 == d.toUInt8) = (Char.ofNat n == d)) :
    ToldBy (· == d.toUInt8) (· == d) where
  ascii := h
  byte b hb := by
    rw [beq_eq_false_iff_ne]
    rintro rfl
    omega
  char c hc := by
    rw [beq_eq_false_iff_ne]
    rintro rfl
    omega

theorem toldBy_open : ToldBy (· == 0x7b) (· == '{') :=
  toldBy_char (d := '{') (by decide) (by decide) (by decide)

theorem toldBy_close : ToldBy (· == 0x7d) (· == '}') :=
  toldBy_char (d := '}') (by decide) (by decide) (by decide)

/-- Tests that agree on what is there agree on whether all of it passes. -/
theorem all_eq_of_map_eq {α β : Type} {q : α → Bool} {p : β → Bool} {a : Option α} {b : Option β}
    (h : a.map q = b.map p) : a.all q = b.all p := by
  cases a <;> cases b <;> simp_all

theorem any_eq_of_map_eq {α β : Type} {q : α → Bool} {p : β → Bool} {a : Option α} {b : Option β}
    (h : a.map q = b.map p) : a.any q = b.any p := by
  cases a <;> cases b <;> simp_all

section

variable {front t : Text} {i : Nat}

/-- What is at a boundary is set off. -/
theorem isSpaceAt_eq {body : Text} (hi : dropBytes? i body = some t) :
    isSpaceAt (bytes body) i = setsOff t.head? :=
  all_eq_of_map_eq (toldBy_space.map_getElem? hi)

/-- What is before a boundary is set off. -/
theorem isSpaceAt_sub_one (hfront : front ≠ []) :
    isSpaceAt (bytes (front ++ t)) (byteSize front - 1) = setsOff front.getLast? := by
  have hpos : byteSize front ≠ 0 := fun h => hfront (Text.eq_nil_of_byteSize_eq_zero h)
  have hlast : (bytes (front ++ t))[byteSize front - 1]? = (bytes front).getLast? := by
    rw [List.getLast?_eq_getElem?, Text.bytes_append, Text.length_bytes,
      List.getElem?_append_left (by rw [Text.length_bytes]; omega)]
  rw [isSpaceAt, hlast]
  exact all_eq_of_map_eq (toldBy_space.map_getLast? front)

/-- The character at a boundary opens a block if its byte does. -/
theorem opensAt_eq (front t : Text) (c : Char) :
    opensAt (bytes (front ++ c :: t)) (byteSize front) =
      decide (c = '{' ∧ setsOff front.getLast? ∧ setsOff t.head?) := by
  have hi : dropBytes? (byteSize front) (front ++ c :: t) = some (c :: t) :=
    Text.dropBytes?_byteSize _ _
  have hbrace := any_eq_of_map_eq (toldBy_open.map_getElem? hi)
  rw [List.head?_cons, Option.any_some] at hbrace
  rw [opensAt, hbrace]
  by_cases hc : c = '{'
  · subst hc
    have hnext : dropBytes? (byteSize front + 1) (front ++ '{' :: t) = some t :=
      Text.dropBytes?_cons hi
    rw [isSpaceAt_eq hnext]
    by_cases hfront : front = []
    · subst hfront
      simp [setsOff]
    · have hpos : (byteSize front == 0) = false :=
        beq_eq_false_iff_ne.2 fun h => hfront (Text.eq_nil_of_byteSize_eq_zero h)
      rw [isSpaceAt_sub_one hfront, hpos]
      simp
  · simp [hc]

/-- The character at a boundary closes a block if its byte does. -/
theorem closesAt?_eq (t : Text) (hfront : front ≠ []) (c : Char) :
    closesAt? (bytes (front ++ c :: t)) (byteSize front) =
      some (decide (c = '}' ∧ setsOff front.getLast? ∧ setsOff t.head?)) := by
  have hi : dropBytes? (byteSize front) (front ++ c :: t) = some (c :: t) :=
    Text.dropBytes?_byteSize _ _
  have hbrace := any_eq_of_map_eq (toldBy_close.map_getElem? hi)
  rw [List.head?_cons, Option.any_some] at hbrace
  rw [closesAt?, hbrace]
  by_cases hc : c = '}'
  · subst hc
    have hnext : dropBytes? (byteSize front + 1) (front ++ '}' :: t) = some t :=
      Text.dropBytes?_cons hi
    have hpos : ¬ byteSize front = 0 := fun h => hfront (Text.eq_nil_of_byteSize_eq_zero h)
    rw [isSpaceAt_eq hnext, isSpaceAt_sub_one hfront]
    simp [hpos]
  · simp [hc]

/-! ## From character to character -/

/-- What stays the same from each place to the next is the same at the end. -/
theorem eq_add_of_forall {α : Type} {f : Nat → α} {i m : Nat}
    (h : ∀ k < m, f (i + k) = f (i + k + 1)) : f i = f (i + m) := by
  induction m with
  | zero => rfl
  | succ m ih =>
    rw [ih fun k hk => h k (by omega), h m (by omega)]
    rfl

/-- No further byte of a character is told by a byte of ASCII. -/
theorem any_inner {q : UInt8 → Bool} {p : Char → Bool} (h : ToldBy q p) {body : Text} {c : Char}
    {k : Nat} (hi : dropBytes? i body = some (c :: t)) (hpos : 0 < k) (hk : k < c.utf8Size) :
    ((bytes body)[i + k]?).any q = false := by
  have := any_eq_of_map_eq (b := some false) (p := id) (h.inner hi hpos hk)
  simpa using this

/-- The bytes of a character that opens no block are passed over. -/
theorem blocksAt?_skip {body : Text} {c : Char} (hi : dropBytes? i body = some (c :: t))
    (hopens : opensAt (bytes body) i = false) :
    blocksAt? body i = blocksAt? body (i + c.utf8Size) := by
  refine eq_add_of_forall fun k hk => ?_
  have hno : opensAt (bytes body) (i + k) = false := by
    cases k with
    | zero => exact hopens
    | succ k =>
      -- A further byte of a character is none of ASCII, and so it is no brace.
      rw [opensAt, any_inner toldBy_open hi (Nat.succ_pos k) hk]
      rfl
  conv => lhs; unfold blocksAt?
  rw [dif_pos (Text.add_lt_length_bytes hi hk), hno]
  simp

/-- The bytes of a character that closes no block are passed over. -/
theorem blockEnd?_skip {body : Text} {c : Char} (hi : dropBytes? i body = some (c :: t))
    (hcloses : closesAt? (bytes body) i = some false) :
    blockEnd? (bytes body) i = blockEnd? (bytes body) (i + c.utf8Size) := by
  refine eq_add_of_forall fun k hk => ?_
  have hno : closesAt? (bytes body) (i + k) = some false := by
    cases k with
    | zero => exact hcloses
    | succ k =>
      rw [closesAt?, any_inner toldBy_close hi (Nat.succ_pos k) hk]
      rfl
  conv => lhs; unfold blockEnd?
  rw [dif_pos (Text.add_lt_length_bytes hi hk), hno]

/-- A block ends where the text does or at a brace. -/
theorem blockEnd?_eq (t front block : Text) (hfront : front ≠ []) :
    ∃ inside after, t = inside ++ after ∧
      blockEnd? (bytes (front ++ t)) (byteSize front) = some (byteSize front + byteSize inside) ∧
      (after = [] ∧ blocksFrom (some block) front.getLast? t = [trimmed (block.reverse ++ inside)] ∨
        ∃ behind, after = '}' :: behind ∧ blocksFrom (some block) front.getLast? t =
          trimmed (block.reverse ++ inside) :: blocksFrom none (some '}') behind) := by
  -- What has been passed moves from the text to the front, and the place with it.
  induction t generalizing front block with
  | nil =>
    refine ⟨[], [], rfl, ?_, .inl ⟨rfl, ?_⟩⟩
    · unfold blockEnd?
      rw [dif_neg (by rw [List.append_nil, Text.length_bytes]; omega)]
      rfl
    · rw [blocksFrom, List.append_nil]
  | cons c t ih =>
    have hi : dropBytes? (byteSize front) (front ++ c :: t) = some (c :: t) :=
      Text.dropBytes?_byteSize _ _
    have hcloses := closesAt?_eq t hfront c
    by_cases hc : c = '}' ∧ setsOff front.getLast? ∧ setsOff t.head?
    · rw [decide_eq_true hc] at hcloses
      refine ⟨[], c :: t, rfl, ?_, .inr ⟨t, by rw [hc.1], ?_⟩⟩
      · have hlen : byteSize front < (bytes (front ++ c :: t)).length := by
          have := c.utf8Size_pos
          rw [Text.length_bytes, Text.byteSize_append, Text.byteSize_cons]
          omega
        unfold blockEnd?
        rw [dif_pos hlen, hcloses]
        rfl
      · rw [blocksFrom, if_pos hc, List.append_nil, hc.1]
    · rw [decide_eq_false hc] at hcloses
      obtain ⟨inside, after, ht, hend, hblocks⟩ := ih (front ++ [c]) (c :: block) (by simp)
      rw [List.append_assoc, List.singleton_append, Text.byteSize_concat] at hend
      rw [List.getLast?_concat, List.reverse_cons, List.append_assoc] at hblocks
      refine ⟨c :: inside, after, by rw [ht]; rfl, ?_, ?_⟩
      · rw [blockEnd?_skip hi hcloses, Text.byteSize_cons, ← Nat.add_assoc]
        exact hend
      · rw [blocksFrom, if_neg hc]
        exact hblocks

/-- There are no blocks behind the end of a text. -/
theorem blocksAt?_of_le {body : Text} (h : byteSize body ≤ i) : blocksAt? body i = some [] := by
  unfold blocksAt?
  rw [dif_neg (by rw [Text.length_bytes]; omega)]

/-- A block that is opened is followed by the blocks behind its end. -/
theorem blocksAt?_of_opensAt {body block : Text} {j : Nat} (hi : i < byteSize body)
    (hopens : opensAt (bytes body) i = true) (hend : blockEnd? (bytes body) (i + 1) = some j)
    (hblock : slice? body (i + 1) j = some block) :
    blocksAt? body i = (blocksAt? body (j + 1)).map (trimmed block :: ·) := by
  rw [blocksAt?, dif_pos (by rwa [Text.length_bytes]), hopens, if_pos rfl]
  split
  · next hnone =>
    rw [hend] at hnone
    cases hnone
  · next k hk =>
    rw [hend, Option.some.injEq] at hk
    subst hk
    rw [hblock]
    cases blocksAt? body (j + 1) <;> rfl

/-- A block is between two braces of one byte each. -/
theorem byteSize_braces (front inside : Text) :
    byteSize (front ++ '{' :: inside ++ ['}']) = byteSize front + 1 + byteSize inside + 1 := by
  have hopen : '{'.utf8Size = 1 := rfl
  have hclose : '}'.utf8Size = 1 := rfl
  rw [Text.byteSize_concat, Text.byteSize_append, Text.byteSize_cons, hopen, hclose,
    ← Nat.add_assoc]

/-- A block that is not closed is the last. -/
theorem blocksAt?_unclosed (front inside : Text) :
    blocksAt? (front ++ '{' :: inside) (byteSize front + 1 + byteSize inside + 1) = some [] := by
  apply blocksAt?_of_le
  have := byteSize_braces front inside
  rw [Text.byteSize_concat] at this
  omega

/-- From any boundary on, the blocks that are found by bytes are those found by characters. -/
theorem blocksAt?_eq (front t : Text) :
    blocksAt? (front ++ t) (byteSize front) = some (blocksFrom none front.getLast? t) := by
  -- By induction on the characters that are left: the search goes on behind a whole block at once.
  induction hlen : t.length using Nat.strongRecOn generalizing front t with
  | ind n ih =>
    subst hlen
    cases t with
    | nil =>
      rw [blocksAt?_of_le (by simp)]
      rfl
    | cons c t =>
      have hi : dropBytes? (byteSize front) (front ++ c :: t) = some (c :: t) :=
        Text.dropBytes?_byteSize _ _
      have hopens := opensAt_eq front t c
      by_cases hc : c = '{' ∧ setsOff front.getLast? ∧ setsOff t.head?
      · obtain ⟨rfl, -⟩ := id hc
        obtain ⟨inside, after, rfl, hend, hblocks⟩ :=
          blockEnd?_eq t (front ++ ['{']) [] (by simp)
        have hbrace : '{'.utf8Size = 1 := rfl
        rw [List.append_assoc, List.singleton_append, Text.byteSize_concat, hbrace] at hend
        rw [List.getLast?_concat, List.reverse_nil, List.nil_append] at hblocks
        have hsize := Text.add_byteSize hi
        rw [Text.byteSize_cons] at hsize
        have hblock := Text.slice?_append (i := byteSize front + 1) (Text.dropBytes?_cons hi)
        rw [decide_eq_true hc] at hopens
        rw [blocksFrom, if_pos hc, blocksAt?_of_opensAt (by omega) hopens hend hblock]
        rcases hblocks with ⟨rfl, hblocks⟩ | ⟨behind, rfl, hblocks⟩
        · rw [hblocks, List.append_nil, blocksAt?_unclosed]
          rfl
        · -- The text goes on behind a front that ends with the closing brace.
          have hmore :=
            ih behind.length (by simp; omega) (front ++ '{' :: inside ++ ['}']) behind rfl
          rw [byteSize_braces, List.getLast?_concat] at hmore
          simp only [List.append_assoc, List.cons_append, List.nil_append] at hmore
          rw [hmore, hblocks]
          rfl
      · rw [decide_eq_false hc] at hopens
        rw [blocksAt?_skip hi hopens, blocksFrom, if_neg hc]
        have hgo := ih t.length (by simp) (front ++ [c]) t rfl
        rw [List.append_assoc, List.singleton_append, Text.byteSize_concat,
          List.getLast?_concat] at hgo
        exact hgo

end

/-- **The blocks that are found by bytes are the blocks of the text.** -/
theorem blocks?_eq (body : Text) : blocks? body = some (blocks body) :=
  blocksAt?_eq [] body

end MemoryDoc.TableText
