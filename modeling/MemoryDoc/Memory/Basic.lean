/-
# Memory

A memory holds 64K bytes.  Every number is an address: addresses go round, so that the byte behind
the last is the first.

Main statements: a byte that was poked is peeked at its address and nowhere else (`peek_poke`).
-/

namespace MemoryDoc

/-- The contents of 64K bytes of memory. -/
structure Memory where
  bytes : ByteArray
  size_bytes : bytes.size = 65536

/-- Memories are equal if their bytes are. -/
instance : DecidableEq Memory := fun m n =>
  decidable_of_iff (m.bytes.data = n.bytes.data) ⟨fun h => by
    obtain ⟨⟨_⟩, _⟩ := m
    obtain ⟨⟨_⟩, _⟩ := n
    cases h
    rfl, fun h => h ▸ rfl⟩

namespace Memory

/-- The number of bytes of a memory. -/
def size : Nat := 65536

/-- The memory that holds zeros. -/
def zeros : Memory :=
  ⟨⟨Array.replicate 65536 0⟩, Array.size_replicate⟩

/-- The place of an address in the memory. -/
def place (address : UInt32) : Fin 65536 :=
  ⟨address.toNat % 65536, Nat.mod_lt _ (by decide)⟩

/-- The byte at an address. -/
def peek (m : Memory) (address : UInt32) : UInt8 :=
  have := Nat.lt_of_lt_of_eq (place address).isLt m.size_bytes.symm
  m.bytes[(place address).val]

/-- The memory with a new byte at an address. -/
def poke (m : Memory) (address : UInt32) (byte : UInt8) : Memory :=
  ⟨m.bytes.set (place address).val byte
      (Nat.lt_of_lt_of_eq (place address).isLt m.size_bytes.symm),
    (Array.size_set ..).trans m.size_bytes⟩

/-- Poke bytes at one address after the other. -/
def pokeAll (m : Memory) (address : UInt32) : List UInt8 → Memory
  | [] => m
  | byte :: bytes => pokeAll (m.poke address byte) (address + 1) bytes

/-- The memory with bytes loaded from address `start` on. -/
def load (m : Memory) (start : UInt16) (bytes : List UInt8) : Memory :=
  m.pokeAll start.toUInt32 bytes

/-- The memory that holds bytes from address `start` on, and zeros elsewhere. -/
def ofBytes (start : UInt16) (bytes : List UInt8) : Memory :=
  zeros.load start bytes

/-- `count` bytes, the first at an address and each `step` further than the one before. -/
def strided (m : Memory) (address step : UInt32) (count : Nat) : List UInt8 :=
  (List.range count).map fun n => m.peek (address + n.toUInt32 * step)

/-- Poke one byte at `count` addresses, each `step` further than the one before. -/
def fill (m : Memory) (address step : UInt32) (byte : UInt8) (count : Nat) : Memory :=
  (List.range count).foldl (fun m n => m.poke (address + n.toUInt32 * step) byte) m

/-- The number of bytes that are not zero. -/
def nonzero (m : Memory) : Nat :=
  m.bytes.foldl (fun n byte => if byte = 0 then n else n + 1) 0

/-- The short description of a memory. -/
def summary (m : Memory) : String :=
  s!"Snapshot({m.nonzero} non-zero bytes)"

/-! ## Peek and poke -/

/-- **A byte that was poked is peeked at its address and nowhere else.** -/
theorem peek_poke (m : Memory) (a b : UInt32) (byte : UInt8) :
    (m.poke a byte).peek b = if a.toNat % 65536 = b.toNat % 65536 then byte else m.peek b := by
  simp [peek, poke, place, ByteArray.getElem_eq_getElem_data, ByteArray.set, Array.getElem_set]

/-- Memories with the same bytes at all addresses are the same. -/
theorem ext_peek {m m' : Memory} (h : ∀ a, m.peek a = m'.peek a) : m = m' := by
  obtain ⟨v, hv⟩ := m
  obtain ⟨v', hv'⟩ := m'
  have hbytes : v = v' := by
    refine ByteArray.ext_getElem (hv.trans hv'.symm) fun i hi hi' => ?_
    have hsize : i < 65536 := hv ▸ hi
    have hlt : i < 2 ^ 32 := Nat.lt_trans hsize (by decide)
    have hplace := h i.toUInt32
    simpa [peek, place, Nat.mod_eq_of_lt hsize, Nat.mod_eq_of_lt hlt] using hplace
  subst hbytes
  rfl

end Memory

end MemoryDoc
