/-
# Addresses as integers

Addresses are computed in words, where sums and products go round at the end of a word and differences
go round below zero.  Only then are they taken round at 64K.  Here the same places are computed with
integers, which never go round, and are taken round at 64K once.  Bytes that are loaded one after the
other come round to the same place every 64K, where the last of them stays.

Main statement: memory is read and written at the places that integers say, and a load that does not
count its addresses beyond a word leaves at each place the last byte that came there
(`addressed_byIntegers`).
-/
import Mathlib.Data.List.Forall2
import Mathlib.Data.List.Induction
import Mathlib.Order.Bounds.Defs
import MemoryDoc.Memory.Addresses
import MemoryDoc.Proofs.Words

namespace MemoryDoc.Memory

open Word

variable {n : Nat} {z : Int}

/-! ## Bytes at integers -/

/-- The byte at an integer, which is taken round at 64K. -/
def byteAtInt (m : Memory) (z : Int) : UInt8 :=
  m.byteAt (z % 65536).toNat

/-- A number and an integer that are the same when they are taken round have the same byte. -/
theorem byteAt_eq_byteAtInt (m : Memory) (h : (n : Int) % 65536 = z % 65536) :
    m.byteAt n = m.byteAtInt z := by
  apply m.byteAt_congr
  omega

theorem byteAtInt_natCast (m : Memory) (n : Nat) : m.byteAtInt n = m.byteAt n :=
  (m.byteAt_eq_byteAtInt rfl).symm

/-- A poke changes the byte at the integers of its place and at no others. -/
theorem byteAtInt_poke (m : Memory) (address : UInt32) (byte : UInt8) (z : Int) :
    (m.poke address byte).byteAtInt z =
      if (address.toNat : Int) % 65536 = z % 65536 then byte else m.byteAtInt z := by
  have hplace : address.toNat % 65536 = (z % 65536).toNat % 65536 ↔
      (address.toNat : Int) % 65536 = z % 65536 := by omega
  rw [byteAtInt, byteAt_poke]
  simp only [hplace, byteAtInt]

/-- The glyphs of a font are eight bytes apart, below its address too. -/
theorem toNat_glyphAddress_mod (font : UInt32) (c : Char) :
    ((font + 8 * (c.val - 32)).toNat : Int) % 65536 =
      (font.toNat + 8 * ((c.toNat : Int) - 32)) % 65536 := by
  have hc : c.toNat = c.val.toNat := rfl
  have hspace : (32 : UInt32).toNat = 32 := rfl
  have hsize : (8 : UInt32).toNat = 8 := rfl
  rw [UInt32.toNat_add, UInt32.toNat_mul, UInt32.toNat_sub, hsize, hspace, hc]
  omega

/-- The rows of a glyph follow each other from its place on. -/
theorem get_glyph (m : Memory) (font : UInt32) (attr : UInt8) (c : Char) (k : Fin 8) :
    (m.glyph font attr c).data.bytes.get k =
      m.byteAtInt (font.toNat + 8 * ((c.toNat : Int) - 32) + k) := by
  have hglyph := toNat_glyphAddress_mod font c
  have hone : (1 : UInt32).toNat = 1 := rfl
  show (m.bitmap _ 1).bytes.get k = _
  rw [get_bitmap, hone]
  apply m.byteAt_eq_byteAtInt
  omega

/-! ## Loading -/

/-- Poke bytes at one address after the other, where the next address has to fit in a word. -/
def pokeAll? (m : Memory) (address : UInt32) : List UInt8 → Option Memory
  | [] => some m
  | byte :: bytes => do
    let next ← add? address 1
    pokeAll? (m.poke address byte) next bytes

/-- The memory with bytes loaded from address `start` on, where every address has to fit in a word. -/
def load? (m : Memory) (start : UInt16) (bytes : List UInt8) : Option Memory :=
  m.pokeAll? start.toUInt32 bytes

/-- Bytes are set without overflow as long as the last address is one of 32 bits. -/
theorem pokeAll?_eq (m : Memory) {address : UInt32} {bytes : List UInt8}
    (h : address.toNat + bytes.length < 2 ^ 32) :
    m.pokeAll? address bytes = some (m.pokeAll address bytes) := by
  induction bytes generalizing m address with
  | nil => rfl
  | cons byte bytes ih =>
    rw [List.length_cons] at h
    have hone : (1 : UInt32).toNat = 1 := rfl
    have hnext : (address + 1).toNat = address.toNat + 1 := by
      rw [UInt32.toNat_add, hone]
      exact Nat.mod_eq_of_lt (by omega)
    have hadd : add? address 1 = some (address + 1) := ofNat?_eq_some.2 hnext
    rw [pokeAll?, hadd]
    exact ih _ (by omega)

/-- The addresses of a load fit in words as long as one memory is left of the last. -/
theorem load?_eq (m : Memory) (start : UInt16) {bytes : List UInt8}
    (h : bytes.length < 2 ^ 32 - 65536) : m.load? start bytes = some (m.load start bytes) := by
  have hstart : start.toUInt32.toNat = start.toNat := UInt16.toNat_toUInt32 start
  have hlt := start.toNat_lt
  exact m.pokeAll?_eq (by omega)

/-- The last byte is set at the end of all the others. -/
theorem pokeAll_concat (m : Memory) (address : UInt32) (bytes : List UInt8) (byte : UInt8) :
    m.pokeAll address (bytes ++ [byte]) =
      (m.pokeAll address bytes).poke (address + bytes.length.toUInt32) byte := by
  induction bytes generalizing m address with
  | nil =>
    show m.poke address byte = m.poke (address + 0) byte
    rw [UInt32.add_zero]
  | cons first bytes ih =>
    have hnext : address + (bytes.length + 1).toUInt32 = address + 1 + bytes.length.toUInt32 := by
      rw [UInt32.add_assoc, UInt32.add_comm 1]
      exact congrArg (address + ·) (UInt32.ofNat_add bytes.length 1)
    rw [List.length_cons, hnext]
    exact ih (m.poke address first) (address + 1)

/-- The numbers of the bytes of a load that come to a place. -/
def arrivals (start : UInt16) (bytes : List UInt8) (a : UInt16) : Set Nat :=
  {i | i < bytes.length ∧ (start.toNat + i) % 65536 = a.toNat}

section

variable {start a : UInt16} {bytes : List UInt8} {byte : UInt8}

/-- A byte more comes to its place, whatever came to that place before. -/
theorem byteAt_load_concat (m : Memory) :
    (m.load start (bytes ++ [byte])).byteAt a.toNat =
      if (start.toNat + bytes.length) % 65536 = a.toNat then byte
      else (m.load start bytes).byteAt a.toNat := by
  have hplace := toNat_add_mod start.toUInt32 bytes.length
  have ha : a.toNat % 65536 = a.toNat := Nat.mod_eq_of_lt a.toNat_lt
  rw [UInt16.toNat_toUInt32] at hplace
  rw [load, pokeAll_concat, byteAt_poke, hplace, ha]
  rfl

/-- If the last byte arrives at an address, no byte behind it does. -/
theorem isGreatest_arrivals_concat (h : (start.toNat + bytes.length) % 65536 = a.toNat) :
    IsGreatest (arrivals start (bytes ++ [byte]) a) bytes.length := by
  refine ⟨⟨by simp, h⟩, fun i hi => ?_⟩
  have hlt := hi.1
  rw [List.length_append, List.length_singleton] at hlt
  exact Nat.le_of_lt_succ hlt

/-- A byte that goes elsewhere changes nothing for the address. -/
theorem arrivals_concat_of_ne (h : (start.toNat + bytes.length) % 65536 ≠ a.toNat) :
    arrivals start (bytes ++ [byte]) a = arrivals start bytes a := by
  ext i
  constructor
  · rintro ⟨hlt, hplace⟩
    rw [List.length_append, List.length_singleton] at hlt
    rcases Nat.lt_succ_iff_lt_or_eq.1 hlt with hlt | rfl
    · exact ⟨hlt, hplace⟩
    · exact absurd hplace h
  · rintro ⟨hlt, hplace⟩
    exact ⟨Nat.lt_of_lt_of_le hlt (by simp), hplace⟩

end

/-- **The last byte of a load that came to a place stays there.**  Where none came, nothing changes. -/
theorem byteAt_load (m : Memory) (start : UInt16) (bytes : List UInt8) (a : UInt16) :
    (∃ i, IsGreatest (arrivals start bytes a) i ∧
      bytes[i]? = some ((m.load start bytes).byteAt a.toNat)) ∨
    (∀ i, i ∉ arrivals start bytes a) ∧
      (m.load start bytes).byteAt a.toNat = m.byteAt a.toNat := by
  -- The last byte is the one that stays, so that the bytes are taken from the end.
  induction bytes using List.reverseRecOn with
  | nil => exact .inr ⟨fun i hi => Nat.not_lt_zero i hi.1, rfl⟩
  | append_singleton bytes byte ih =>
    rw [byteAt_load_concat]
    by_cases hplace : (start.toNat + bytes.length) % 65536 = a.toNat
    · refine .inl ⟨bytes.length, isGreatest_arrivals_concat hplace, ?_⟩
      rw [if_pos hplace, List.getElem?_concat_length]
    · rw [if_neg hplace, arrivals_concat_of_ne hplace]
      rcases ih with ⟨i, hi, hbyte⟩ | hnone
      · have hlt : i < bytes.length := hi.1.1
        exact .inl ⟨i, hi, by rw [List.getElem?_append_left hlt, hbyte]⟩
      · exact .inr hnone

/-! ## All places -/

/-- **Memory is addressed by integers that are taken round at 64K.**  A byte is peeked and poked at the
place of its address.  Bytes a step apart are those at the multiples of the step, also where the product
does not fit in a word.  The rows of the glyphs of a message lie where the characters say, also in front
of the font and behind the end of a word.  A load whose addresses fit in words leaves at each place the
last byte that came there, and leaves alone the places where none came. -/
theorem addressed_byIntegers (m : Memory) :
    (∀ address : UInt32, m.peek address = m.byteAtInt address.toNat) ∧
    (∀ (address : UInt32) (byte : UInt8) (z : Int), (m.poke address byte).byteAtInt z =
      if (address.toNat : Int) % 65536 = z % 65536 then byte else m.byteAtInt z) ∧
    (∀ address step count : UInt32, m.strided address step count.toNat =
      (List.range count.toNat).map fun n : Nat => m.byteAtInt (address.toNat + n * step.toNat)) ∧
    (∀ (font : UInt32) (attr : UInt8) (message : Text), ∃ tiles,
      m.glyphs font attr message = [tiles] ∧
      List.Forall₂ (fun c tile => ∀ k : Fin 8, tile.data.bytes.get k =
        m.byteAtInt (font.toNat + 8 * ((c.toNat : Int) - 32) + k)) message tiles) ∧
    ∀ (start : UInt16) (bytes : List UInt8), bytes.length < 2 ^ 32 - 65536 →
      m.load? start bytes = some (m.load start bytes) ∧
      ∀ a : UInt16,
        (∃ i, IsGreatest (arrivals start bytes a) i ∧
          bytes[i]? = some ((m.load start bytes).byteAt a.toNat)) ∨
        (∀ i, i ∉ arrivals start bytes a) ∧
          (m.load start bytes).byteAt a.toNat = m.byteAt a.toNat := by
  refine ⟨fun address => ?_, m.byteAtInt_poke, fun address step count => ?_,
    fun font attr message => ⟨message.map (m.glyph font attr), rfl, ?_⟩,
    fun start bytes h => ⟨m.load?_eq start h, m.byteAt_load start bytes⟩⟩
  · rw [peek_eq_byteAt, byteAtInt_natCast]
  · rw [strided_eq]
    apply List.map_congr_left
    intro n _
    apply m.byteAt_eq_byteAtInt
    rw [Int.natCast_add, Int.natCast_mul]
  · rw [List.forall₂_map_right_iff, List.forall₂_same]
    exact fun c _ => m.get_glyph font attr c

/-- Bytes that come round to their first place, where the last of them differs from the others. -/
def roundTwice : List UInt8 :=
  List.replicate 65536 7 ++ [9]

/-- The bytes go round the memory once and one further. -/
theorem length_roundTwice : roundTwice.length = 65537 := by
  rw [roundTwice, List.length_append, List.length_replicate, List.length_singleton]

theorem getElem?_roundTwice : roundTwice[65536]? = some 9 := by
  have hlast : roundTwice[(List.replicate 65536 (7 : UInt8)).length]? = some 9 :=
    List.getElem?_concat_length
  rwa [List.length_replicate] at hlast

/-- The bytes are loaded at the last address and come round to it after 64K.  The last of them is the
first row of a glyph that lies in front of the font. -/
theorem addressed_byIntegers_roundTwice :
    roundTwice.length < 2 ^ 32 - 65536 ∧
      (Memory.zeros.load 65535 roundTwice).byteAt 65535 = 9 ∧
      ∃ tile, (Memory.zeros.load 65535 roundTwice).glyphs 255 0 [Char.ofNat 0] = [[tile]] ∧
        tile.data.bytes.get 0 = 9 := by
  have hshort : roundTwice.length < 2 ^ 32 - 65536 := by
    rw [length_roundTwice]
    decide
  obtain ⟨-, hload⟩ := (addressed_byIntegers zeros).2.2.2.2 65535 roundTwice hshort
  have hlast : (Memory.zeros.load 65535 roundTwice).byteAt 65535 = 9 := by
    have harrives : 65536 ∈ arrivals 65535 roundTwice 65535 :=
      ⟨by rw [length_roundTwice]; decide, by decide⟩
    rcases hload 65535 with ⟨i, ⟨hi, hgreatest⟩, hbyte⟩ | ⟨hnone, -⟩
    · have hle := hgreatest harrives
      have hlt := hi.1
      rw [length_roundTwice] at hlt
      rw [show i = 65536 by omega, getElem?_roundTwice] at hbyte
      exact (Option.some.inj hbyte).symm
    · exact absurd harrives (hnone 65536)
  obtain ⟨tiles, hglyphs, hrows⟩ :=
    (addressed_byIntegers (Memory.zeros.load 65535 roundTwice)).2.2.2.1 255 0 [Char.ofNat 0]
  cases hrows with
  | cons hrow hrest =>
    cases hrest
    refine ⟨hshort, hlast, _, hglyphs, ?_⟩
    rw [hrow, ← hlast]
    rfl

end MemoryDoc.Memory
