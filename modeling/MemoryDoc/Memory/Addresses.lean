/-
# Addresses beyond 64K

Addresses are counted in words and go round at the end of a word, long behind the end of the memory.
As a word holds a whole number of memories, this is as if they were counted without an end and only
the place in the memory were taken round.

Main statements: bytes a step apart are those at the multiples of the step (`strided_eq`), and a poke
sets the byte at its number (`poke_eq_setByte`).
-/
import Mathlib.Algebra.Group.Nat.Defs
import MemoryDoc.Memory.Tiles

namespace MemoryDoc.Memory

/-- The byte at a number, which is taken round at 64K. -/
def byteAt (m : Memory) (n : Nat) : UInt8 :=
  have := Nat.lt_of_lt_of_eq (Nat.mod_lt n (by decide)) m.size_bytes.symm
  m.bytes[n % 65536]

/-- Places that differ by a multiple of the size of the memory hold the same byte. -/
theorem byteAt_congr (m : Memory) {n n' : Nat} (h : n % 65536 = n' % 65536) :
    m.byteAt n = m.byteAt n' := by
  unfold byteAt
  simp only [h]

/-- A byte that is looked up is the one in the place of its address. -/
theorem peek_eq_byteAt (m : Memory) (address : UInt32) : m.peek address = m.byteAt address.toNat :=
  rfl

/-- Going round at the end of a word is no more than going round at 64K. -/
theorem mod_size_mod (n : Nat) : n % 2 ^ 32 % 65536 = n % 65536 :=
  Nat.mod_mod_of_dvd n (by decide)

/-- **A multiple of a step is counted from an address as if words had no end.** -/
theorem toNat_add_mul_mod (address step : UInt32) (n : Nat) :
    (address + n.toUInt32 * step).toNat % 65536 = (address.toNat + n * step.toNat) % 65536 := by
  have hn : n.toUInt32.toNat % 65536 = n % 65536 := mod_size_mod n
  have hmul : (n.toUInt32 * step).toNat % 65536 = n * step.toNat % 65536 := by
    rw [UInt32.toNat_mul, mod_size_mod, Nat.mul_mod, hn, ← Nat.mul_mod]
  rw [UInt32.toNat_add, mod_size_mod, Nat.add_mod, hmul, ← Nat.add_mod]

/-- A byte some steps on is that in the place so many times the step further. -/
theorem peek_add_mul (m : Memory) (address step : UInt32) (n : Nat) :
    m.peek (address + n.toUInt32 * step) = m.byteAt (address.toNat + n * step.toNat) := by
  rw [peek_eq_byteAt]
  exact m.byteAt_congr (toNat_add_mul_mod address step n)

/-- A distance is counted from an address as if words had no end. -/
theorem toNat_add_mod (address : UInt32) (n : Nat) :
    (address + n.toUInt32).toNat % 65536 = (address.toNat + n) % 65536 := by
  have hone := toNat_add_mul_mod address 1 n
  rw [UInt32.mul_one] at hone
  rw [hone]
  show (address.toNat + n * 1) % 65536 = _
  rw [Nat.mul_one]

/-- **Bytes a step apart are those at the multiples of the step.** -/
theorem strided_eq (m : Memory) (address step : UInt32) (count : Nat) :
    m.strided address step count =
      (List.range count).map fun n => m.byteAt (address.toNat + n * step.toNat) := by
  unfold strided
  simp only [peek_add_mul]

/-- The rows of a bitmap are the bytes at the multiples of its step. -/
theorem get_bitmap (m : Memory) (address step : UInt32) (y : Fin 8) :
    (m.bitmap address step).bytes.get y = m.byteAt (address.toNat + y * step.toNat) := by
  have hrows : (m.bitmap address step).bytes =
      Vector.ofFn fun y => m.byteAt (address.toNat + y * step.toNat) := by
    simp [bitmap, Rows.ofList, strided_eq]
  rw [hrows]
  exact Vector.getElem_ofFn y.isLt

/-! ## Setting bytes -/

/-- The memory with a new value at a number, which is taken round at 64K.  The value is taken round at
256. -/
def setByte (m : Memory) (n value : Nat) : Memory :=
  ⟨m.bytes.set (n % 65536) (UInt8.ofNat (value % 256))
      (Nat.lt_of_lt_of_eq (Nat.mod_lt n (by decide)) m.size_bytes.symm),
    (Array.size_set ..).trans m.size_bytes⟩

/-- A byte is set in its place, and every other place keeps what it holds. -/
theorem byteAt_setByte (m : Memory) (n value k : Nat) :
    (m.setByte n value).byteAt k =
      if n % 65536 = k % 65536 then UInt8.ofNat (value % 256) else m.byteAt k := by
  simp [byteAt, setByte, ByteArray.getElem_eq_getElem_data, ByteArray.set, Array.getElem_set]

/-- A poke changes the byte at the numbers of its place and at no others. -/
theorem byteAt_poke (m : Memory) (address : UInt32) (byte : UInt8) (k : Nat) :
    (m.poke address byte).byteAt k =
      if address.toNat % 65536 = k % 65536 then byte else m.byteAt k := by
  have hlt : k % 65536 < 2 ^ 32 := by omega
  have hk : (k % 65536).toUInt32.toNat = k % 65536 := UInt32.toNat_ofNat_of_lt' hlt
  have hpeek (m : Memory) : m.byteAt k = m.peek (k % 65536).toUInt32 := by
    rw [peek_eq_byteAt, hk]
    exact m.byteAt_congr (Nat.mod_mod k 65536).symm
  rw [hpeek, hpeek, peek_poke, hk, Nat.mod_mod]

/-- Memories with the same bytes at all numbers are the same. -/
theorem ext_byteAt {m m' : Memory} (h : ∀ k, m.byteAt k = m'.byteAt k) : m = m' :=
  ext_peek fun a => h a.toNat

/-- **A poke sets the byte at its number.** -/
theorem poke_eq_setByte (m : Memory) {address : UInt32} {n : Nat} (byte : UInt32)
    (h : address.toNat % 65536 = n % 65536) :
    m.poke address byte.toUInt8 = m.setByte n byte.toNat := by
  have hbyte : byte.toUInt8 = UInt8.ofNat (byte.toNat % 256) :=
    UInt8.toNat_inj.1 (by simp)
  simp only [poke, setByte, place, h, hbyte]

end MemoryDoc.Memory
