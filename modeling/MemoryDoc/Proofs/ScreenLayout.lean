/-
# The layout of the screen

The bitmap of the screen lies in memory in an order of its own.  Each third of the screen is a block of
2048 bytes.  A block holds the first lines of all its cells, then the second lines, and so on, 256 bytes
for each line.  The attributes of the cells follow each other row by row.  The files may lie anywhere,
also so that they go round at the end of the memory, and a part of the screen may be asked for anywhere
and in any size.

Main statement: a part of the screen is computed without an overflow, is cut out of the whole screen,
and each of its pixels has its bit and its attribute from the place in memory that the layout says
(`screen_followsLayout`).
-/
import MemoryDoc.Memory.Addresses
import MemoryDoc.Proofs.Certain
import MemoryDoc.Proofs.Words

namespace MemoryDoc

/-! ## Words -/

namespace Word

variable {n k : Nat} {α : Type}

/-- The words from one up to another. -/
def range (start stop : UInt32) : List UInt32 :=
  (List.range' start.toNat (stop.toNat - start.toNat)).map Nat.toUInt32

theorem toNat_toUInt32 (h : n < 2 ^ 32) : n.toUInt32.toNat = n :=
  UInt32.toNat_ofNat_of_lt' h

/-- A sum is computed if it fits. -/
theorem add?_toUInt32 (h : n + k < 2 ^ 32) :
    add? n.toUInt32 k.toUInt32 = some (n + k).toUInt32 := by
  rw [add?, toNat_toUInt32 (by omega), toNat_toUInt32 (by omega)]
  exact if_pos h

theorem mul?_toUInt32 (hn : n < 2 ^ 32) (hk : k < 2 ^ 32) (h : n * k < 2 ^ 32) :
    mul? n.toUInt32 k.toUInt32 = some (n * k).toUInt32 := by
  rw [mul?, toNat_toUInt32 hn, toNat_toUInt32 hk]
  exact if_pos h

/-- What comes of all words of a range is what comes of the numbers of the range one by one. -/
theorem mapM_range {start stop : UInt32} {f : UInt32 → Option α} {g : Nat → α}
    (h : ∀ n, start.toNat ≤ n → n < stop.toNat → f n.toUInt32 = some (g n)) :
    (range start stop).mapM f =
      some ((List.range' start.toNat (stop.toNat - start.toNat)).map g) := by
  rw [range, List.mapM_map, mapM_eq_some, List.map_map]
  apply List.map_congr_left
  intro n hn
  rw [List.mem_range'_1] at hn
  exact h n hn.1 (by omega)

/-- The end of a side does not overflow, as nothing is left of a side that begins beyond the screen. -/
theorem exists_end (start wanted size : UInt32) (hsize : size.toNat ≤ 32) :
    ∃ stop, add? start (min wanted (monus size start)) = some stop ∧
      stop.toNat - start.toNat = min wanted.toNat (size.toNat - start.toNat) := by
  have hside : (min wanted (monus size start)).toNat =
      min wanted.toNat (size.toNat - start.toNat) := by
    rw [UInt32.toNat_min, toNat_monus]
  have hstart := start.toNat_lt
  obtain ⟨stop, hstop?, hstop⟩ := exists_ofNat?
    (n := start.toNat + min wanted.toNat (size.toNat - start.toNat)) (by omega)
  refine ⟨stop, ?_, by omega⟩
  rw [add?, hside]
  exact hstop?

end Word

namespace Memory

open Word

namespace ScreenArea

/-- The number of columns of an area that are on the screen. -/
def columns (area : ScreenArea) : Nat :=
  min area.width.toNat (32 - area.x.toNat)

/-- The number of rows of an area that are on the screen. -/
def rows (area : ScreenArea) : Nat :=
  min area.height.toNat (24 - area.y.toNat)

/-- The whole screen, whose bytes are where those of the area are. -/
def whole (area : ScreenArea) : ScreenArea where
  display := area.display
  attributes := area.attributes

end ScreenArea

/-! ## The screen in words -/

/-- The cell in a row and a column of the screen, whose places are computed in words.  Only the addresses
of the files may go round. -/
def screenTile? (m : Memory) (area : ScreenArea) (row column : UInt32) : Option Tile := do
  let colours ← add? (← mul? 32 row) column
  let third ← mul? 2048 (row / 8)
  let line ← mul? 32 (row % 8)
  let lines ← add? (← add? third line) column
  return {
    attr := m.peek (area.attributes + colours)
    data := m.bitmap (area.display + lines) 256
    mask := none }

/-- The cells of a part of the screen, whose ends are computed in words. -/
def screen? (m : Memory) (area : ScreenArea) : Option Grid := do
  let width := min area.width (monus 32 area.x)
  let height := min area.height (monus 24 area.y)
  let bottom ← add? area.y height
  (range area.y bottom).mapM fun row => do
    let right ← add? area.x width
    (range area.x right).mapM fun column => m.screenTile? area row column

variable {area : ScreenArea} {row column : Nat}

/-- A tile of the screen is computed without overflow. -/
theorem screenTile?_eq (m : Memory) (area : ScreenArea) (hrow : row < 24) (hcolumn : column < 32) :
    m.screenTile? area row.toUInt32 column.toUInt32 = some (m.screenTile area row column) := by
  have hrowNat : row.toUInt32.toNat = row := toNat_toUInt32 (by omega)
  have hdiv : row.toUInt32 / 8 = (row / 8).toUInt32 := by
    apply UInt32.toNat_inj.1
    rw [UInt32.toNat_div, hrowNat]
    show row / 8 = _
    exact (toNat_toUInt32 (by omega)).symm
  have hmod : row.toUInt32 % 8 = (row % 8).toUInt32 := by
    apply UInt32.toNat_inj.1
    rw [UInt32.toNat_mod, hrowNat]
    show row % 8 = _
    exact (toNat_toUInt32 (by omega)).symm
  -- On the screen, no offset comes near the end of a word.
  have hcolours : mul? 32 row.toUInt32 = some (32 * row).toUInt32 :=
    mul?_toUInt32 (n := 32) (by omega) (by omega) (by omega)
  have hthird : mul? 2048 (row / 8).toUInt32 = some (2048 * (row / 8)).toUInt32 :=
    mul?_toUInt32 (n := 2048) (by omega) (by omega) (by omega)
  have hline : mul? 32 (row % 8).toUInt32 = some (32 * (row % 8)).toUInt32 :=
    mul?_toUInt32 (n := 32) (by omega) (by omega) (by omega)
  unfold screenTile?
  simp only [Option.bind_eq_bind, Option.pure_def, hdiv, hmod, hcolours, hthird, hline,
    Option.bind_some]
  rw [add?_toUInt32 (by omega), Option.bind_some, add?_toUInt32 (by omega), Option.bind_some,
    add?_toUInt32 (by omega), Option.bind_some]
  rfl

/-- **The screen in words is the screen.** -/
theorem screen?_eq (m : Memory) (area : ScreenArea) : m.screen? area = some (m.screen area) := by
  obtain ⟨bottom, hbottom?, hbottom⟩ := exists_end area.y area.height 24 (by decide)
  obtain ⟨right, hright?, hright⟩ := exists_end area.x area.width 32 (by decide)
  have hrows : (24 : UInt32).toNat = 24 := rfl
  have hcolumns : (32 : UInt32).toNat = 32 := rfl
  unfold screen?
  simp only [Option.bind_eq_bind, hbottom?, hright?, Option.bind_some]
  have hcells : ∀ row, area.y.toNat ≤ row → row < bottom.toNat →
      (range area.x right).mapM (m.screenTile? area row.toUInt32) =
        some ((List.range' area.x.toNat (right.toNat - area.x.toNat)).map (m.screenTile area row)) := by
    intro row hfirst hlast
    apply mapM_range
    intro column hleft hright'
    -- Places within the ends are on the screen, so that the offsets are small.
    exact screenTile?_eq m area (by omega) (by omega)
  rw [mapM_range hcells, hbottom, hright]
  rfl

/-! ## The rectangle of a part -/

/-- The whole screen has 24 rows of 32 tiles. -/
theorem screen_whole (m : Memory) (area : ScreenArea) :
    m.screen area.whole =
      (List.range' 0 24).map fun row => (List.range' 0 32).map (m.screenTile area row) :=
  rfl

/-- The numbers of a range of which the first are dropped and the last are not taken. -/
theorem take_drop_range' (size start wanted : Nat) :
    ((List.range' 0 size).drop start).take (min wanted (size - start)) =
      List.range' start (min wanted (size - start)) := by
  rw [List.drop_range', Nat.zero_add, Nat.mul_one]
  exact List.take_range'_of_length_ge (Nat.min_le_right _ _)

/-- **A part of the screen is cut out of the whole screen.** -/
theorem screen_eq_take_drop (m : Memory) (area : ScreenArea) :
    m.screen area = (((m.screen area.whole).drop area.y.toNat).take area.rows).map fun cells =>
      (cells.drop area.x.toNat).take area.columns := by
  rw [screen_whole, ← List.map_drop, ← List.map_take, ScreenArea.rows, take_drop_range', List.map_map]
  show (List.range' area.y.toNat area.rows).map _ = _
  apply List.map_congr_left
  intro row _
  show _ = (((List.range' 0 32).map _).drop _).take _
  rw [← List.map_drop, ← List.map_take, ScreenArea.columns, take_drop_range']
  rfl

/-- A part of the screen has the rows that it asks for. -/
theorem length_screen (m : Memory) (area : ScreenArea) : (m.screen area).length = area.rows := by
  show ((List.range' _ area.rows).map _).length = _
  rw [List.length_map, List.length_range']

/-- Each row of a part of the screen has the columns that it asks for. -/
theorem length_of_mem_screen {m : Memory} {cells : List Tile} (h : cells ∈ m.screen area) :
    cells.length = area.columns := by
  obtain ⟨row, -, rfl⟩ := List.mem_map.1 h
  show ((List.range' _ area.columns).map _).length = _
  rw [List.length_map, List.length_range']

/-- The cell at a place of an area is that of the screen at as many cells further. -/
theorem tile?_screen (m : Memory) (hrow : row < area.rows) (hcolumn : column < area.columns) :
    (m.screen area).tile? row column =
      some (m.screenTile area (area.y.toNat + row) (area.x.toNat + column)) := by
  have hcells : (m.screen area)[row]? =
      some ((List.range' area.x.toNat area.columns).map (m.screenTile area (area.y.toNat + row))) := by
    show ((List.range' _ area.rows).map _)[row]? = _
    rw [List.getElem?_map, List.getElem?_range' hrow, Nat.one_mul]
    rfl
  rw [Grid.tile?, hcells, Option.bind_some, List.getElem?_map, List.getElem?_range' hcolumn,
    Nat.one_mul]
  rfl

/-! ## The bytes of a cell -/

/-- The attributes of the screen are in rows of 32 bytes. -/
theorem attr_screenTile (m : Memory) (area : ScreenArea) (row column : Nat) :
    (m.screenTile area row column).attr =
      m.byteAt (area.attributes.toNat + (32 * row + column)) := by
  show m.peek (area.attributes + _) = _
  rw [peek_eq_byteAt]
  exact m.byteAt_congr (toNat_add_mod ..)

/-- The lines of a cell are 256 bytes apart, from its place in the display file on. -/
theorem pixel_screenTile (m : Memory) (area : ScreenArea) (row column : Nat) (y x : Fin 8) :
    (m.screenTile area row column).data.pixel y x =
      (m.byteAt (area.display.toNat +
        (2048 * (row / 8) + 256 * y + 32 * (row % 8) + column))).toNat.testBit (7 - x) := by
  have hplace := toNat_add_mod area.display (2048 * (row / 8) + 32 * (row % 8) + column)
  have hline : (m.screenTile area row column).data.bytes.get y =
      m.byteAt (area.display.toNat + (2048 * (row / 8) + 256 * y + 32 * (row % 8) + column)) := by
    show (m.bitmap _ 256).bytes.get y = _
    rw [get_bitmap]
    -- The place of the cell has gone round before the line is counted from it.
    apply m.byteAt_congr
    show (_ + y.val * 256) % 65536 = _
    omega
  show ((m.screenTile area row column).data.bytes.get y).toNat.testBit (7 - x) = _
  rw [hline]

/-! ## The layout -/

/-- A pixel of the screen has its bit in the line of its cell and its colours in the attribute of the
cell. -/
def PixelAt (m : Memory) (area : ScreenArea) (X Y : Nat) (t : Tile) : Prop :=
  t.attr = m.byteAt (area.attributes.toNat + 32 * (Y / 8) + X / 8) ∧
  t.mask = none ∧
  t.data.bit X Y =
    (m.byteAt (area.display.toNat + 2048 * (Y / 64) + 256 * (Y % 8) + 32 * (Y / 8 % 8) +
      X / 8)).toNat.testBit (7 - X % 8)

/-- A pixel of the screen is in the tile of its row and column. -/
theorem pixelAt_screenTile (m : Memory) (area : ScreenArea) (X Y : Nat) :
    m.PixelAt area X Y (m.screenTile area (Y / 8) (X / 8)) := by
  have hthird : Y / 8 / 8 = Y / 64 := Nat.div_div_eq_div_mul Y 8 8
  refine ⟨?_, rfl, ?_⟩
  · rw [attr_screenTile, ← Nat.add_assoc]
  · rw [← Rows.pixel_ofNat, pixel_screenTile, hthird]
    show (m.byteAt (_ + (_ + 256 * (Y % 8) + _ + _))).toNat.testBit (7 - X % 8) = _
    simp only [← Nat.add_assoc]

/-- **A part of the screen follows the layout of the display file.**  It is computed in words without an
overflow and is cut out of the whole screen, and its pixels are those of the screen at their places, also
where the files go round at the end of the memory. -/
theorem screen_followsLayout (m : Memory) (area : ScreenArea) :
    m.screen? area = some (m.screen area) ∧
    m.screen? area.whole = some (m.screen area.whole) ∧
    (m.screen area).length = area.rows ∧
    (∀ cells ∈ m.screen area, cells.length = area.columns) ∧
    m.screen area = (((m.screen area.whole).drop area.y.toNat).take area.rows).map (fun cells =>
      (cells.drop area.x.toNat).take area.columns) ∧
    ∀ X Y, area.x.toNat ≤ X / 8 → X / 8 < area.x.toNat + area.columns →
      area.y.toNat ≤ Y / 8 → Y / 8 < area.y.toNat + area.rows →
      ∃ t, (m.screen area).tile? (Y / 8 - area.y.toNat) (X / 8 - area.x.toNat) = some t ∧
        m.PixelAt area X Y t := by
  refine ⟨screen?_eq m area, screen?_eq m area.whole, length_screen m area,
    fun _ => length_of_mem_screen, screen_eq_take_drop m area, ?_⟩
  intro X Y hleft hright htop hbottom
  refine ⟨m.screenTile area (Y / 8) (X / 8), ?_, pixelAt_screenTile m area X Y⟩
  -- The cell of the pixel is counted from the corner of the part.
  rw [tile?_screen m (by omega) (by omega), Nat.add_sub_cancel' htop, Nat.add_sub_cancel' hleft]

/-- A memory with a bit of a pixel and the attribute of its cell, both at its beginning. -/
def onePixel : Memory :=
  (Memory.zeros.poke 5086 4).poke 199 69

/-- In a part at the right edge of the screen, the files of which go round at the end of the memory,
the bit and the attribute of the pixel are found behind the end. -/
theorem screen_followsLayout_roundTheEnd :
    ∃ t, (onePixel.screen ⟨30, 20, 9, 9, 65535, 65000⟩).tile? 2 1 = some t ∧
      onePixel.PixelAt ⟨30, 20, 9, 9, 65535, 65000⟩ 253 179 t ∧
      t.attr = 69 ∧ t.data.bit 253 179 = true := by
  obtain ⟨t, ht, hpixel⟩ :=
    (screen_followsLayout onePixel ⟨30, 20, 9, 9, 65535, 65000⟩).2.2.2.2.2 253 179
      (by decide) (by decide) (by decide) (by decide)
  have hattr : onePixel.byteAt 65735 = 69 := by
    rw [onePixel, byteAt_poke]
    rfl
  have hline : onePixel.byteAt 70622 = 4 := by
    rw [onePixel, byteAt_poke, byteAt_poke]
    rfl
  obtain ⟨hattrAt, hmask, hbit⟩ := hpixel
  refine ⟨t, ht, ⟨hattrAt, hmask, hbit⟩, hattrAt.trans hattr, hbit.trans ?_⟩
  show (onePixel.byteAt 70622).toNat.testBit 2 = true
  rw [hline]
  rfl

end Memory

end MemoryDoc
