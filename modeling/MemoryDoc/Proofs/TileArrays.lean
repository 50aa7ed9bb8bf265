/-
# Arrays of tiles

An array of tiles is written as a header and groups of tiles, each with a range of addresses and maybe
a range of masks.  Its tiles are put into rows one after the other, and where a group ends in the
middle of a row the next goes on in the same row.

Main statement: the grid of an array shows the tiles of its groups in order, in full rows, each with
the attribute, the bytes and the mask that its group asks for (`handler_assembles`).
-/
import MemoryDoc.Macro.PictureNames
import MemoryDoc.Memory.Addresses
import MemoryDoc.Parameter.Defaults
import MemoryDoc.Proofs.Calls
import Mathlib.Data.List.Forall2

namespace MemoryDoc

/-! ## Rows of tiles -/

namespace Grid

/-- The grid holds the tiles in order, in full rows and a last one that may be shorter.  The last row
is empty only if there is no other. -/
structure InRows (width : Nat) (tiles : List Tile) (g : Grid) : Prop where
  flatten_eq : g.flatten = tiles
  rows : ∃ full last, g = full ++ [last] ∧ (∀ row ∈ full, row.length = width) ∧
    last.length ≤ width ∧ (last = [] → full = [])

variable {width : Nat}

/-- A grid starts with a row that has no tiles. -/
theorem inRows_empty (width : Nat) : InRows width [] [[]] :=
  ⟨rfl, [], [], rfl, nofun, Nat.zero_le _, fun _ => rfl⟩

/-- **One more tile is one more at the end, and the rows stay full.** -/
theorem InRows.push {tiles : List Tile} {g : Grid} (hwidth : 0 < width)
    (h : InRows width tiles g) (tile : Tile) : InRows width (tiles ++ [tile]) (g.push width tile) := by
  obtain ⟨rfl, full, last, rfl, hfull, hlast, hempty⟩ := h
  rw [push_append]
  split
  · next hlt =>
    refine ⟨by simp, full, last ++ [tile], rfl, hfull, length_snoc_le hlt tile, ?_⟩
    intro hnil
    exact absurd hnil (List.append_ne_nil_of_right_ne_nil last nofun)
  · next hge =>
    refine ⟨by simp, full ++ [last], [tile], rfl, fun row hrow => ?_, hwidth, nofun⟩
    rcases List.mem_append.1 hrow with hrow | hrow
    · exact hfull row hrow
    · rw [List.mem_singleton.1 hrow]
      omega

/-- Tiles that are put in one after the other are in order, in full rows. -/
theorem InRows.foldl_push {before : List Tile} {g : Grid} (hwidth : 0 < width)
    (h : InRows width before g) (tiles : List Tile) :
    InRows width (before ++ tiles) (tiles.foldl (Grid.push width) g) := by
  induction tiles generalizing before g with
  | nil => rwa [List.append_nil]
  | cons tile tiles ih =>
    have hstep := ih (h.push hwidth tile)
    rwa [List.append_assoc] at hstep

/-- Tiles that are cut into rows are in order, in full rows. -/
theorem inRows_ofTiles (hwidth : 0 < width) (tiles : List Tile) :
    InRows width tiles (ofTiles width tiles) := by
  rw [ofTiles_eq_foldl_push hwidth]
  exact (inRows_empty width).foldl_push hwidth tiles

end Grid

/-! ## Groups of tiles -/

namespace PictureJob

open Reader Handler

/-- The parameters of a group, without the defaults that the array gives. -/
def ownSpec : Parameter.Spec where
  names := ["addr".toList, "attr".toList, "step".toList, "inc".toList]
  defaults := [none, none, none]
  texts := [0]

/-- The parameters of the masks of a group, without the default that the group gives. -/
def ownMaskSpec : Parameter.Spec where
  names := ["addr".toList, "step".toList]
  defaults := [none]
  texts := [0]

/-- What is written of a group of tiles: its parameters and the addresses of its range, and those of
its masks, if masks follow. -/
structure Clause where
  own : Parameter.Picture
  addresses : List UInt32
  masks : Option (Parameter.Picture × List UInt32)

namespace Clause

variable (header : Parameter.Values) (c : Clause)

/-- The attribute of the group, or else of the array. -/
def attr : UInt32 :=
  (c.own.values.number? 1).getD (header.number 1)

/-- The distance of the bytes of a tile, or else that of the array. -/
def step : UInt32 :=
  (c.own.values.number? 2).getD (header.number 3)

/-- What is added to the bytes, or else what the array adds. -/
def increment : UInt32 :=
  (c.own.values.number? 3).getD (header.number 4)

/-- The addresses of the masks, of which there may be none. -/
def maskAddresses : List UInt32 :=
  c.masks.elim [] (·.2)

/-- The distance of the bytes of a mask, or else that of the bytes of the tile. -/
def maskStep : UInt32 :=
  (c.masks.bind (·.1.values.number? 1)).getD (c.step header)

/-- The part of the group that was read last. -/
def last : Parameter.Picture :=
  c.masks.elim c.own (·.1)

/-- The group that the clause writes. -/
def group : Group where
  sources := groupSources (c.attr header).toUInt8 (c.step header) (c.increment header).toUInt8
    (c.maskStep header) c.addresses c.maskAddresses
  masked := !c.maskAddresses.isEmpty
  crop := c.last.crop
  fileName := c.last.fileName

/-- The text is read as the clause and what is left. -/
inductive Reads : Clause → (t left : Text) → Prop where
  | plain {own : Parameter.Picture} {addresses : List UInt32} {t left : Text}
      (hown : Parameter.Picture.read ownSpec rangeChars t = .ok (own, left))
      (haddresses : AddressRange.expand (own.values.text 0) (header.number 0) = .ok addresses)
      (hcolon : left.head? ≠ some ':') :
      Reads ⟨own, addresses, none⟩ t left
  | masked {own masks : Parameter.Picture} {addresses maskAddresses : List UInt32}
      {t behind left : Text}
      (hown : Parameter.Picture.read ownSpec rangeChars t = .ok (own, ':' :: behind))
      (haddresses : AddressRange.expand (own.values.text 0) (header.number 0) = .ok addresses)
      (hmasks : Parameter.Picture.read ownMaskSpec rangeChars behind = .ok (masks, left))
      (hmaskAddresses :
        AddressRange.expand (masks.values.text 0) (header.number 0) = .ok maskAddresses) :
      Reads ⟨own, addresses, some (masks, maskAddresses)⟩ t left

/-- The text is read as clauses, each behind a semicolon, and what is left. -/
inductive ReadsAll : List Clause → (t left : Text) → Prop where
  | nil {t : Text} (hsemicolon : t.head? ≠ some ';') : ReadsAll [] t t
  | cons {c : Clause} {cs : List Clause} {t behind left : Text} (hc : Reads header c t behind)
      (hcs : ReadsAll cs behind left) : ReadsAll (c :: cs) (';' :: t) left

variable {header c}

/-- A text is read as one clause only. -/
theorem Reads.unique {c' : Clause} {t left left' : Text} (h : Reads header c t left)
    (h' : Reads header c' t left') : c = c' ∧ left = left' := by
  cases h with
  | plain hown haddresses hcolon =>
    cases h' with
    | plain hown' haddresses' _ =>
      cases hown.symm.trans hown'
      cases haddresses.symm.trans haddresses'
      exact ⟨rfl, rfl⟩
    | masked hown' =>
      cases hown.symm.trans hown'
      exact absurd rfl hcolon
  | masked hown haddresses hmasks hmaskAddresses =>
    cases h' with
    | plain hown' _ hcolon' =>
      cases hown.symm.trans hown'
      exact absurd rfl hcolon'
    | masked hown' haddresses' hmasks' hmaskAddresses' =>
      cases hown.symm.trans hown'
      cases haddresses.symm.trans haddresses'
      cases hmasks.symm.trans hmasks'
      cases hmaskAddresses.symm.trans hmaskAddresses'
      exact ⟨rfl, rfl⟩

/-- **A text tells the clauses that it is read as.** -/
theorem ReadsAll.unique {cs cs' : List Clause} {t left left' : Text} (h : ReadsAll header cs t left)
    (h' : ReadsAll header cs' t left') : cs = cs' := by
  induction h generalizing cs' with
  | nil hsemicolon =>
    cases h' with
    | nil => rfl
    | cons => exact absurd rfl hsemicolon
  | cons hc _ ih =>
    cases h' with
    | nil hsemicolon => exact absurd rfl hsemicolon
    | cons hc' hcs' =>
      obtain ⟨rfl, rfl⟩ := hc.unique hc'
      rw [ih hcs']

/-- The parameters of a group are its own, and those of the array for the others. -/
theorem of_read_groupSpec {attr step increment : UInt32} {head : Parameter.Picture} {t left : Text}
    (h : Parameter.Picture.read (groupSpec attr step increment) rangeChars t = .ok (head, left)) :
    ∃ own : Parameter.Picture, Parameter.Picture.read ownSpec rangeChars t = .ok (own, left) ∧
      own.crop = head.crop ∧ own.fileName = head.fileName ∧
      head.values.text 0 = own.values.text 0 ∧
      head.values.number 1 = (own.values.number? 1).getD attr ∧
      head.values.number 2 = (own.values.number? 2).getD step ∧
      head.values.number 3 = (own.values.number? 3).getD increment := by
  obtain ⟨own, params, hread, hown, hvalues⟩ := Parameter.Picture.read_eq_ok_bare h
  have hnumber {slot : Nat} (hpos : slot ≠ 0) (hslot : slot < 4) :=
    Parameter.Spec.number_fill hown slot hslot (by simpa [groupSpec] using hpos)
  refine ⟨⟨own, head.crop, head.fileName⟩, hread, rfl, rfl, ?_⟩
  rw [hvalues]
  exact ⟨Parameter.Spec.text_fill _ own 0, hnumber (by decide) (by decide),
    hnumber (by decide) (by decide), hnumber (by decide) (by decide)⟩

/-- The parameters of masks are their own, and the step is that of the group if they have none. -/
theorem of_read_groupMaskSpec {step : UInt32} {head : Parameter.Picture} {t left : Text}
    (h : Parameter.Picture.read (groupMaskSpec step) rangeChars t = .ok (head, left)) :
    ∃ own : Parameter.Picture, Parameter.Picture.read ownMaskSpec rangeChars t = .ok (own, left) ∧
      own.crop = head.crop ∧ own.fileName = head.fileName ∧
      head.values.text 0 = own.values.text 0 ∧
      head.values.number 1 = (own.values.number? 1).getD step := by
  obtain ⟨own, params, hread, hown, hvalues⟩ := Parameter.Picture.read_eq_ok_bare h
  refine ⟨⟨own, head.crop, head.fileName⟩, hread, rfl, rfl, ?_⟩
  rw [hvalues]
  exact ⟨Parameter.Spec.text_fill _ own 0,
    Parameter.Spec.number_fill hown 1 (by decide : 1 < 2) (by simp [groupMaskSpec])⟩

/-- A range is told by the text of a parameter, and reads nothing more. -/
theorem range_eq_ok {range t left : Text} {width : UInt32} {addresses : List UInt32} :
    PictureJob.range range width t = .ok (addresses, left) ↔
      AddressRange.expand range width = .ok addresses ∧ left = t := by
  unfold PictureJob.range
  cases AddressRange.expand range width with
  | error fault =>
    constructor
    · intro h
      cases h
    · rintro ⟨h, -⟩
      cases h
  | ok read =>
    constructor
    · intro h
      cases h
      exact ⟨rfl, rfl⟩
    · rintro ⟨h, rfl⟩
      cases h
      rfl

/-- **A group is read as a clause.** -/
theorem reads_of_group {t left : Text} {g : Group}
    (h : PictureJob.group header t = .ok (g, left)) :
    ∃ c, Reads header c t left ∧ g = c.group header := by
  obtain ⟨head, behind, hread, hbehind⟩ := bind_eq_ok.1 h
  obtain ⟨own, hown, hcrop, hname, htext, hattr, hstep, hincrement⟩ := of_read_groupSpec hread
  obtain ⟨addresses, _, hrange, hgroup⟩ := bind_eq_ok.1 hbehind
  obtain ⟨haddresses, rfl⟩ := range_eq_ok.1 hrange
  rw [htext] at haddresses
  obtain ⟨masks, rest, hmasks, hleft⟩ := bind_eq_ok.1 hgroup
  obtain ⟨found, behind, haccept, hfound⟩ := bind_eq_ok.1 hmasks
  -- A colon behind the group is what tells whether it has masks.
  rcases accept_eq_ok.1 haccept with ⟨rfl, rfl⟩ | ⟨rfl, hcolon, rfl⟩
  · obtain ⟨maskHead, _, hreadMasks, hbehind⟩ := bind_eq_ok.1 hfound
    obtain ⟨maskOwn, hmaskOwn, hmaskCrop, hmaskName, hmaskText, hmaskStep⟩ :=
      of_read_groupMaskSpec hreadMasks
    obtain ⟨maskAddresses, _, hmaskRange, hpair⟩ := bind_eq_ok.1 hbehind
    obtain ⟨hmaskAddresses, rfl⟩ := range_eq_ok.1 hmaskRange
    rw [hmaskText] at hmaskAddresses
    cases hpair
    cases hleft
    refine ⟨⟨own, addresses, some (maskOwn, maskAddresses)⟩,
      .masked hown haddresses hmaskOwn hmaskAddresses, ?_⟩
    simp [group, attr, step, increment, maskStep, Clause.maskAddresses, last, hattr, hstep,
      hincrement, hmaskStep, hmaskCrop, hmaskName]
  · cases hfound
    cases hleft
    refine ⟨⟨own, addresses, none⟩, .plain hown haddresses hcolon, ?_⟩
    simp [group, attr, step, increment, maskStep, maskAddresses, last, hattr, hstep, hincrement,
      hcrop, hname]

/-- **The groups of an array are read as clauses, in their order.** -/
theorem readsAll_of_groups {sofar gs : List Group} {t left : Text}
    (h : groups header sofar t = .ok (gs, left)) :
    ∃ cs, ReadsAll header cs t left ∧ gs = (cs.map (group header)).reverse ++ sofar := by
  fun_induction groups header sofar t with
  | case1 => cases h
  | case2 sofar behind next rest hgroup ih =>
    obtain ⟨c, hc, rfl⟩ := reads_of_group hgroup
    obtain ⟨cs, hcs, rfl⟩ := ih h
    exact ⟨c :: cs, .cons hc hcs, by simp⟩
  | case3 sofar t hne =>
    cases h
    refine ⟨[], .nil fun hhead => ?_, rfl⟩
    obtain ⟨u, rfl⟩ := List.head?_eq_some_iff.1 hhead
    exact hne u rfl

/-- The groups of an array are read as clauses, from the first on. -/
theorem readsAll_of_readGroups {gs : List Group} {t left : Text}
    (h : readGroups header t = .ok (gs, left)) :
    ∃ cs, ReadsAll header cs t left ∧ gs = cs.map (group header) := by
  obtain ⟨cs, hcs, hgs⟩ := readsAll_of_groups (readGroups_eq_ok.1 h)
  exact ⟨cs, hcs, by simpa using hgs⟩

/-! ## Tiles of a group -/

/-- The tile at an address is the one in place `j` of the group: it has the attribute of the group, and
the bytes with what the group adds to them; and it has a mask if there is an address for it. -/
structure Shows (header : Parameter.Values) (c : Clause) (m : Memory) (j : Nat) (address : UInt32)
    (tile : Tile) : Prop where
  attr_eq : tile.attr.toNat = (c.attr header).toNat % 256
  data_eq : ∀ y : Fin 8, tile.data.bytes[y].toNat =
    ((m.byteAt (address.toNat + y * (c.step header).toNat)).toNat + (c.increment header).toNat) % 256
  isSome_mask : tile.mask.isSome ↔ j < c.maskAddresses.length
  mask_eq : ∀ mask rows, c.maskAddresses[j]? = some mask → tile.mask = some rows →
    ∀ y : Fin 8, rows.bytes[y] = m.byteAt (mask.toNat + y * (c.maskStep header).toNat)

/-- There is a tile for each address of the group. -/
structure ShowsAll (header : Parameter.Values) (m : Memory) (c : Clause) (tiles : List Tile) :
    Prop where
  length_eq : tiles.length = c.addresses.length
  tile : ∀ j address tile, c.addresses[j]? = some address → tiles[j]? = some tile →
    Shows header c m j address tile

/-- The tile in a place has its own address, and a mask if there is one in that place. -/
theorem getElem?_groupSources (attr : UInt8) (step : UInt32) (increment : UInt8) (maskStep : UInt32)
    (addresses masks : List UInt32) (j : Nat) :
    (groupSources attr step increment maskStep addresses masks)[j]? =
      addresses[j]?.map fun address =>
        { attr, address, step, increment, mask := masks[j]?.map fun m => (m, maskStep) } := by
  induction addresses generalizing masks j with
  | nil => rfl
  | cons address addresses ih =>
    rw [groupSources]
    cases j with
    | zero => simp [List.head?_eq_getElem?]
    | succ j => simp [ih]

/-- There are as many tiles as addresses, whatever masks there are. -/
theorem length_groupSources (attr : UInt8) (step : UInt32) (increment : UInt8) (maskStep : UInt32)
    (addresses masks : List UInt32) :
    (groupSources attr step increment maskStep addresses masks).length = addresses.length := by
  induction addresses generalizing masks with
  | nil => rfl
  | cons address addresses ih => exact congrArg (· + 1) (ih masks.tail)

/-- The tiles of a group in a memory. -/
def tiles (header : Parameter.Values) (m : Memory) (c : Clause) : List Tile :=
  (c.group header).sources.map (·.tile m)

/-- **The tiles of a group are those that it asks for.** -/
theorem showsAll_tiles (header : Parameter.Values) (m : Memory) (c : Clause) :
    ShowsAll header m c (c.tiles header m) where
  length_eq := (List.length_map _).trans (length_groupSources ..)
  tile j address tile haddress htile := by
    have hsource : (c.group header).sources[j]? = _ := getElem?_groupSources ..
    rw [tiles, List.getElem?_map, hsource, haddress] at htile
    obtain rfl := Option.some.inj htile
    refine ⟨?_, fun y => ?_, ?_, fun mask rows hmask hrows y => ?_⟩
    · exact UInt32.toNat_toUInt8 _
    · have hbyte : (m.bitmap address (c.step header)).bytes[y] = _ := Memory.get_bitmap ..
      rw [← hbyte]
      simp [TileSource.tile, Rows.map, UInt8.toNat_add]
    · simp [TileSource.tile]
    · simp only [TileSource.tile, hmask, Option.map_some, Option.some.injEq] at hrows
      rw [← hrows]
      exact Memory.get_bitmap ..

end Clause

/-! ## Arrays -/

/-- The part of an array that was read last. -/
def lastRead (head : Parameter.Picture) (cs : List Clause) : Parameter.Picture :=
  (cs.getLast?.map Clause.last).getD head

/-- The crop and the name are those of the last group, or of the header if there is none. -/
theorem last_of_groups (header : Parameter.Values) (head : Parameter.Picture) (cs : List Clause) :
    ((cs.map (Clause.group header)).getLast?.map fun g => (g.crop, g.fileName)).getD
      (head.crop, head.fileName) = ((lastRead head cs).crop, (lastRead head cs).fileName) := by
  rw [lastRead, List.getLast?_map]
  cases cs.getLast? <;> rfl

/-- Masks count if one of the groups has an address for one. -/
theorem mask_arrayDrawing (head : Parameter.Picture) (mode : MaskMode) (cs : List Clause) :
    (arrayDrawing head mode (cs.map (Clause.group head.values))).mask =
      if cs.any (!·.maskAddresses.isEmpty) then mode else .ignored := by
  rw [arrayDrawing, List.any_map]
  rfl

/-- The grid of an array holds the tiles of its groups, in order and in full rows. -/
theorem inRows_arrayDrawing {head : Parameter.Picture} (hwidth : head.values.number 0 ≠ 0)
    (mode : MaskMode) (cs : List Clause) (m : Memory) :
    Grid.InRows (head.values.number 0).toNat (cs.map (Clause.tiles head.values m)).flatten
      ((arrayDrawing head mode (cs.map (Clause.group head.values))).source.grid m) := by
  have hpos : 0 < (head.values.number 0).toNat := by
    rw [Nat.pos_iff_ne_zero]
    exact fun hzero => hwidth (UInt32.toNat_inj.1 hzero)
  have htiles : ((cs.map (Clause.group head.values)).flatMap (·.sources)).map (·.tile m) =
      (cs.map (Clause.tiles head.values m)).flatten := by
    rw [List.flatMap_map, List.map_flatMap, List.flatMap_def]
    rfl
  rw [← htiles]
  exact Grid.inRows_ofTiles hpos _

/-- **An array of tiles is put together from its groups.**  When an array is read, its header and its
groups are read one after the other.  Taken from any memory, the grid holds the tiles of the groups in
their order and nothing else, in full rows, and each tile is the one that its group asks for.  The
frame has the mask mode that the header asks for if a group has an address for a mask, and else none;
it is cropped, and its file is named, as the part says that was read last. -/
theorem handler_assembles {p : Page} {t left : Text} {job : PictureJob}
    (hdirect : t.head? ≠ some '*') (h : PictureMacro.udgarray.handler p t = .ok (job, left)) :
    ∃ head behind cs mode drawing path,
      Parameter.Picture.read arraySpec [] t = .ok (head, behind) ∧
      head.values.number 0 ≠ 0 ∧
      Clause.ReadsAll head.values cs behind left ∧
      MaskMode.ofNumber? (head.values.number 7) = some mode ∧
      p.site.picturePath (arrayNames ((lastRead head cs).fileName.getD [])).1 Site.tileDirectory =
        .ok path ∧
      job = .still drawing (arrayNames ((lastRead head cs).fileName.getD [])).2 path ∧
      drawing.crop = (lastRead head cs).crop ∧
      (∀ m frame, drawing.frame m = .ok frame →
        frame.tiles =
          ((drawing.source.grid m).flip (head.values.number 5)).rotate (head.values.number 6) ∧
        ((∃ c ∈ cs, c.maskAddresses ≠ []) → frame.mask = mode) ∧
        ((∀ c ∈ cs, c.maskAddresses = []) → frame.mask = .ignored)) ∧
      ∀ m, ∃ tiles : List (List Tile),
        List.Forall₂ (Clause.ShowsAll head.values m) cs tiles ∧
        Grid.InRows (head.values.number 0).toNat tiles.flatten (drawing.source.grid m) := by
  have harray : array p t = .ok (job, left) := by
    change arrayOrAnimation p t = _ at h
    rwa [arrayOrAnimation, if_neg hdirect] at h
  obtain ⟨head, behind, mode, gs, _, path, hhead, hwidth, hmode, hgs, rfl, hpath, rfl⟩ :=
    of_array_eq_ok harray
  obtain ⟨cs, hcs, rfl⟩ := Clause.readsAll_of_readGroups hgs
  rw [last_of_groups] at hpath ⊢
  refine ⟨head, behind, cs, mode, arrayDrawing head mode (cs.map (Clause.group head.values)), path,
    hhead, hwidth, hcs, hmode, hpath, rfl, ?_, fun m frame hframe => ?_, fun m => ?_⟩
  · exact congrArg Prod.fst (last_of_groups head.values head cs)
  · obtain ⟨-, rfl⟩ := Frame.make_eq_ok.1 hframe
    refine ⟨rfl, fun hmasked => ?_, fun hplain => ?_⟩
    · rw [mask_arrayDrawing]
      exact if_pos (by simpa using hmasked)
    · rw [mask_arrayDrawing]
      exact if_neg (by simpa using hplain)
  · refine ⟨cs.map (Clause.tiles head.values m), ?_, inRows_arrayDrawing hwidth mode cs m⟩
    rw [List.forall₂_map_right_iff, List.forall₂_same]
    exact fun c _ => c.showsAll_tiles head.values m

/-- The drawing of two groups of tiles, the second of which goes on in the middle of a row. -/
def acrossGroups : Drawing where
  source := .tiles 2 [⟨56, 0, 1, 0, none⟩, ⟨56, 8, 1, 0, none⟩, ⟨56, 16, 1, 0, none⟩,
    ⟨7, 24, 1, 0, some (32, 1)⟩, ⟨7, 24, 1, 0, none⟩]
  scale := 2
  mask := .orAnd
  crop := {}

/-- The parameters of the array, which asks for masks that count. -/
def acrossGroupsHeader : Parameter.Values :=
  [.number 2, .number 56, .number 2, .number 1, .number 0, .number 0, .number 0, .number 1]

/-- Three tiles without masks. -/
def threePlain : Clause :=
  ⟨⟨[.text "0-16-8", .unset, .unset, .unset], {}, none⟩, [0, 8, 16], none⟩

/-- A tile with a mask, and the same one without. -/
def oneMasked : Clause :=
  ⟨⟨[.text "24x2", .number 7, .unset, .unset], {}, none⟩, [24, 24],
    some (⟨[.text "32", .unset], {}, some "a".toList⟩, [32])⟩

/-- The text is read as the two groups. -/
theorem readsAll_acrossGroups :
    Clause.ReadsAll acrossGroupsHeader [threePlain, oneMasked] ";0-16-8;24x2,7:32(a)" [] := by
  have hplain : Clause.Reads acrossGroupsHeader threePlain "0-16-8;24x2,7:32(a)" ";24x2,7:32(a)" :=
    .plain (Session.eq_ok_of_toOption (by decide +kernel))
      (Session.eq_ok_of_toOption (by decide +kernel)) (by decide)
  have hown : Parameter.Picture.read ownSpec rangeChars "24x2,7:32(a)" =
      .ok (oneMasked.own, ':' :: "32(a)".toList) := Session.eq_ok_of_toOption (by decide +kernel)
  have hmasked : Clause.Reads acrossGroupsHeader oneMasked "24x2,7:32(a)" [] :=
    .masked hown (Session.eq_ok_of_toOption (by decide +kernel))
      (Session.eq_ok_of_toOption (by decide +kernel)) (Session.eq_ok_of_toOption (by decide +kernel))
  exact .cons hplain (.cons hmasked (.nil nofun))

/-- The first tile of the second group has its attribute, its bytes and a mask. -/
theorem exists_mask_of_shows {m : Memory} {tile : Tile}
    (h : Clause.Shows acrossGroupsHeader oneMasked m 0 24 tile) :
    tile.attr = 7 ∧ ∃ mask, tile.mask = some mask ∧
      ∀ y : Fin 8, tile.data.bytes.get y = m.byteAt (24 + y) ∧
        mask.bytes.get y = m.byteAt (32 + y) := by
  obtain ⟨mask, hmask⟩ := Option.isSome_iff_exists.1 (h.isSome_mask.2 Nat.one_pos)
  refine ⟨UInt8.toNat_inj.1 h.attr_eq, mask, hmask, fun y => ⟨?_, ?_⟩⟩
  · have hdata := h.data_eq y
    have hstep : (oneMasked.step acrossGroupsHeader).toNat = 1 := rfl
    have hincrement : (oneMasked.increment acrossGroupsHeader).toNat = 0 := rfl
    rw [hstep, hincrement, Nat.mul_one, Nat.add_zero, Nat.mod_eq_of_lt (UInt8.toNat_lt _)] at hdata
    exact UInt8.toNat_inj.1 hdata
  · have hbyte := h.mask_eq 32 mask rfl hmask y
    have hstep : (oneMasked.maskStep acrossGroupsHeader).toNat = 1 := rfl
    rwa [hstep, Nat.mul_one] at hbyte

/-- The first tile of the second group is in the middle of a row.  It has the attribute of its group
and a mask, and so masks count in the frame. -/
theorem handler_assembles_acrossGroups :
    "2;0-16-8;24x2,7:32(a)".toList.head? ≠ some '*' ∧
    PictureMacro.udgarray.handler ⟨⟨{}, { memory := .zeros }⟩, [], []⟩ "2;0-16-8;24x2,7:32(a)" =
      .ok (.still acrossGroups none (some "images/udgs/a.png".toList), []) ∧
    (∀ m frame, acrossGroups.frame m = .ok frame → frame.mask = .orAnd) ∧
    ∀ m, ∃ tiles, Grid.InRows 2 tiles (acrossGroups.source.grid m) ∧ tiles.length = 5 ∧
      ∃ tile mask, tiles[3]? = some tile ∧ tile.attr = 7 ∧ tile.mask = some mask ∧
        ∀ y : Fin 8, tile.data.bytes.get y = m.byteAt (24 + y) ∧
          mask.bytes.get y = m.byteAt (32 + y) := by
  have hdirect : "2;0-16-8;24x2,7:32(a)".toList.head? ≠ some '*' := by decide
  have hjob : PictureMacro.udgarray.handler ⟨⟨{}, { memory := .zeros }⟩, [], []⟩
      "2;0-16-8;24x2,7:32(a)" =
        .ok (.still acrossGroups none (some "images/udgs/a.png".toList), []) :=
    Session.eq_ok_of_toOption (by decide +kernel)
  have hheader : Parameter.Picture.read arraySpec [] "2;0-16-8;24x2,7:32(a)" =
      .ok (⟨acrossGroupsHeader, {}, none⟩, ";0-16-8;24x2,7:32(a)".toList) :=
    Session.eq_ok_of_toOption (by decide +kernel)
  obtain ⟨head, behind, cs, mode, drawing, path, hhead, -, hcs, hmode, -, hstill, -, hframe, hgrid⟩ :=
    handler_assembles hdirect hjob
  -- Header and groups of the text are known, so those of the theorem are these.
  cases hheader.symm.trans hhead
  obtain rfl := readsAll_acrossGroups.unique hcs
  cases hmode
  obtain ⟨rfl, -, -⟩ := PictureJob.still.inj hstill
  refine ⟨hdirect, hjob, fun m frame h => ?_, fun m => ?_⟩
  · exact (hframe m frame h).2.1 ⟨oneMasked, by simp, List.cons_ne_nil _ _⟩
  · obtain ⟨tiles, hshown, hrows⟩ := hgrid m
    cases hshown with
    | @cons _ first _ _ hfirst hmore =>
      cases hmore with
      | @cons _ second _ _ hsecond hnone =>
        cases hnone
        have hlength : first.length = 3 := hfirst.length_eq
        have hlength' : second.length = 2 := hsecond.length_eq
        obtain ⟨tile, htile⟩ : ∃ tile, second[0]? = some tile :=
          ⟨second[0], List.getElem?_eq_getElem (by omega)⟩
        obtain ⟨hattr, mask, hmask, hbytes⟩ :=
          exists_mask_of_shows (hsecond.tile 0 24 tile rfl htile)
        refine ⟨_, hrows, by simp [hlength, hlength'], tile, mask, ?_, hattr, hmask, hbytes⟩
        -- The fourth tile is the first of the second group.
        rw [List.flatten_cons, List.getElem?_append_right (Nat.le_of_eq hlength), hlength,
          List.flatten_cons, List.getElem?_append_left (by omega)]
        exact htile

end PictureJob

end MemoryDoc
