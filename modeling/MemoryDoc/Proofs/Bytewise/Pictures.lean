/-
# Scanning the arguments of macros that make pictures

The handlers of the macros that make pictures, as they work on the whole text: they go on behind
separators of one byte, and errors quote parts of the text between places.  The groups of an array
of tiles are scanned in rounds, at most as many as there are bytes in the text and one more.

Main statements: no separator takes them to a place that is no boundary, the rounds are enough, and
they follow the handlers that are given what is left of the text (`follows_tile`,
`follows_arrayOrAnimation`, `follows_font`, `follows_screen`).
-/
import MemoryDoc.Macro.Advance
import MemoryDoc.Proofs.Bytewise.Parameters
import MemoryDoc.Proofs.Bytewise.Ranges

namespace MemoryDoc

namespace Scanner

open Parameter (Picture Values)
open PictureJob
open Text (dropBytes? byteSize slice?)

/-! ## What the arguments have in common -/

/-- Go on one byte further if the character `c` comes next, and say whether it did. -/
def separator (c : Char) : Scanner Fault Bool := do
  if ← startsWith c then
    moveTo ((← place) + 1)
    return true
  else
    return false

/-- The mask mode of a number. -/
def maskMode (n : UInt32) : Scanner Fault MaskMode :=
  match MaskMode.ofNumber? n with
  | some mode => pure mode
  | none => throw (.badMaskType n.toNat)

/-- The path of a file in a directory.  A name that is missing or empty is replaced by `default`. -/
def pathOr (p : Page) (fileName : Option Text) (default directory : Text) :
    Scanner MacroError Text := do
  match ← ofLink (p.site.picturePath (Site.orElse (fileName.getD []) default) directory) with
  | some path => return path
  | none => throw (.fault .noFileName)

/-! ## Single tiles -/

/-- The mask of a single tile, if one follows. -/
def tileMask (step : UInt32) : Scanner Fault (Option Picture) := do
  if ← separator ':' then
    return some (← picture (tileMaskSpec step) [])
  else
    return none

/-- `addr[,attr,scale,step,inc,flip,rotate,mask][:addr[,step]][{x,y,width,height}][(file)]` -/
def tile (p : Page) : Scanner MacroError PictureJob := do
  let head ← picture tileSpec []
  let v := head.values
  let mode ← maskMode (v.number 7)
  let mask ← tileMask (v.number 3)
  let last := mask.getD head
  let default := tileFileName (v.number 0) (v.number 1) (v.number 2)
  let path ← pathOr p last.fileName default Site.tileDirectory
  let source : TileSource := {
    attr := (v.number 1).toUInt8
    address := v.number 0
    step := v.number 3
    increment := (v.number 4).toUInt8
    mask := mask.map fun m => (m.values.number 0, m.values.number 1) }
  let drawing : Drawing := {
    source := .tiles 1 [source]
    flip := v.number 5
    rotate := v.number 6
    scale := v.number 2
    mask := if mask.isSome then mode else .ignored
    crop := last.crop }
  return .still drawing none (some path)

/-! ## Arrays of tiles -/

/-- The addresses of the masks of a group and their step, with the parameters that they were read
from, if masks follow. -/
def groupMasks (width step : UInt32) : Scanner Fault (Option (List UInt32 × Picture)) := do
  if ← separator ':' then
    let masks ← picture (groupMaskSpec step) rangeChars
    let addresses ← outcome (AddressRange.expand? (masks.values.text 0) width)
    return some (addresses, masks)
  else
    return none

/-- One group of tiles: `addr[,attr,step,inc][:addr[,step]][{x,y,width,height}][(file)]` -/
def group (header : Values) : Scanner Fault Group := do
  let width := header.number 0
  let head ← picture (groupSpec (header.number 1) (header.number 3) (header.number 4)) rangeChars
  let addresses ← outcome (AddressRange.expand? (head.values.text 0) width)
  let attr := (head.values.number 1).toUInt8
  let step := head.values.number 2
  let increment := (head.values.number 3).toUInt8
  match ← groupMasks width step with
  | none =>
    return {
      sources := groupSources attr step increment step addresses []
      masked := false
      crop := head.crop
      fileName := head.fileName }
  | some (masks, last) =>
    return {
      sources := groupSources attr step increment (last.values.number 1) addresses masks
      masked := !masks.isEmpty
      crop := last.crop
      fileName := last.fileName }

/-- The groups of tiles that follow those read so far, each behind a semicolon.  The last comes
first.  More rounds than given come to nothing. -/
def groups (header : Values) : (rounds : Nat) → (sofar : List Group) → Scanner Fault (List Group)
  | 0, _ => checked none
  | rounds + 1, sofar => do
    if ← separator ';' then
      groups header rounds ((← group header) :: sofar)
    else
      return sofar

/-- The groups of tiles that follow the parameters of an array. -/
def readGroups (header : Values) : Scanner Fault (List Group) := do
  let gs ← groups header (byteSize (← read) + 1) []
  return gs.reverse

/-- `width[,attr,scale,step,inc,flip,rotate,mask];group;...[{x,y,width,height}](file[*frame])` -/
def array (p : Page) : Scanner MacroError PictureJob := do
  let index ← place
  let head ← picture arraySpec []
  let v := head.values
  if v.number 0 = 0 then
    throw (.fault (.badWidth (← slice index (← place))))
  let mode ← maskMode (v.number 7)
  let gs ← readGroups v
  let stop ← place
  let (crop, lastName) :=
    (gs.getLast?.map fun g => (g.crop, g.fileName)).getD (head.crop, head.fileName)
  let fileName := lastName.getD []
  if fileName = [] then
    throw (.fault (.noArrayFileName (← slice index stop)))
  let (file, frame) := arrayNames fileName
  if file = [] ∧ frame = none then
    throw (.fault (.noArrayName (← slice index stop)))
  let path ← ofLink (p.site.picturePath file Site.tileDirectory)
  let drawing : Drawing := {
    source := .tiles (v.number 0).toNat (gs.flatMap (·.sources))
    flip := v.number 5
    rotate := v.number 6
    scale := v.number 2
    mask := if gs.any (·.masked) then mode else .ignored
    crop }
  return .still drawing frame path

/-- `*frame[,delay];...(file)`.  The star is the first byte of the names and delays. -/
def animated (p : Page) : Scanner MacroError PictureJob := do
  let index ← place
  let (cels, fileName) ← string isCelChar
  let arguments ← slice index (← place)
  let fileName := fileName.getD []
  if fileName = [] then
    throw (.fault (.noArrayFileName arguments))
  let path ← pathOr p (some fileName) [] Site.tileDirectory
  let cels ← checked (slice? cels 1 (byteSize cels))
  return .animation cels arguments path

/-- An array of tiles, or an animation if a star comes first. -/
def arrayOrAnimation (p : Page) : Scanner MacroError PictureJob := do
  if ← startsWith '*' then
    animated p
  else
    array p

/-! ## Fonts and the screen -/

/-- The message of a picture of glyphs: all characters of a font unless one is given. -/
def message : Scanner MacroError Text := do
  let index ← place
  if ← accept ':' then
    let text ← bracketed
    if text = [] then
      throw (.fault (.emptyMessage (← slice index (← place))))
    return text
  else
    return Memory.fontCharacters

/-- `[:(text)]addr[,chars,attr,scale][{x,y,width,height}][(file)]` -/
def font (p : Page) : Scanner MacroError PictureJob := do
  let text ← message
  let head ← picture (fontSpec text.length) []
  let v := head.values
  let path ← pathOr p head.fileName "font" Site.fontDirectory
  let drawing : Drawing := {
    source := .glyphs (v.number 0) (v.number 2).toUInt8 (text.take (v.number 1).toNat)
    scale := v.number 3
    crop := head.crop }
  return .still drawing none (some path)

/-- `[scale,x,y,w,h,df,af][{x,y,width,height}][(file)]` -/
def screen (p : Page) : Scanner MacroError PictureJob := do
  let head ← picture screenSpec []
  let v := head.values
  let path ← pathOr p head.fileName "scr" Site.screenDirectory
  let area : Memory.ScreenArea := {
    x := v.number 1
    y := v.number 2
    width := v.number 3
    height := v.number 4
    display := v.number 5
    attributes := v.number 6 }
  return .still { source := .screen area, scale := v.number 0, crop := head.crop } none (some path)

/-! ## They follow the handlers -/

section

variable {t rest : Text} {n : Nat}

/-- A separator is one byte, and what is scanned next starts behind it. -/
theorem separator_bind {c : Char} (hn : dropBytes? n t = some rest) {α : Type}
    (f : Bool → Scanner Fault α) :
    (separator c >>= f) t n = if rest.head? = some c then f true t (n + 1) else f false t n := by
  unfold separator
  rw [bind_apply, startsWith_bind hn]
  by_cases hc : rest.head? = some c
  · rw [if_pos hc, if_pos (decide_eq_true hc)]
    rfl
  · rw [if_neg hc, if_neg (by simpa using hc)]
    rfl

/-- A separator of one byte is scanned as it is accepted. -/
theorem follows_separator {c : Char} (hc : c.utf8Size = 1) :
    Follows (separator c) (Reader.accept c) := by
  intro t n rest hn
  have h := separator_bind (c := c) hn pure
  rw [bind_pure] at h
  rw [h]
  cases rest with
  | nil => exact .ok (Nat.le_refl n) hn
  | cons d rest =>
    rw [Reader.accept]
    by_cases hd : d = c
    · subst hd
      have hnext := Text.dropBytes?_cons hn
      rw [hc] at hnext
      rw [if_pos List.head?_cons, if_pos rfl]
      exact .ok (Nat.le_add_right n 1) hnext
    · rw [if_neg hd, if_neg (by simpa using hd)]
      exact .ok (Nat.le_refl n) hn

/-- A mask mode moves no place. -/
theorem follows_maskMode (n : UInt32) : Follows (maskMode n) (PictureJob.maskMode n) := by
  unfold maskMode PictureJob.maskMode
  cases MaskMode.ofNumber? n with
  | some mode => exact follows_pure mode
  | none => exact follows_throw _

/-- A path moves no place. -/
theorem follows_pathOr (p : Page) (fileName : Option Text) (default directory : Text) :
    Follows (pathOr p fileName default directory)
      (PictureJob.pathOr p fileName default directory) := by
  refine (follows_ofLink _).bind fun path => ?_
  cases path with
  | some path => exact follows_pure path
  | none => exact follows_throw _

/-- A range moves no place, and its words are never too small. -/
theorem follows_range (t : Text) (width : UInt32) :
    Follows (outcome (AddressRange.expand? t width)) (PictureJob.range t width) := by
  rw [AddressRange.expand?_eq]
  unfold PictureJob.range
  cases AddressRange.expand t width with
  | ok addresses => exact follows_pure addresses
  | error fault => exact follows_throw fault

theorem follows_tileMask (step : UInt32) : Follows (tileMask step) (PictureJob.tileMask step) := by
  refine (follows_separator rfl).bind fun found => follows_ite ?_ (follows_pure none)
  exact (follows_picture _ _).bind fun mask => follows_pure (some mask)

theorem follows_tile (p : Page) : Follows (tile p) (PictureJob.tile p) := by
  refine (follows_lift (follows_picture _ _)).bind fun head => ?_
  refine (follows_lift (follows_maskMode _)).bind fun mode => ?_
  refine (follows_lift (follows_tileMask _)).bind fun mask => ?_
  exact (follows_pathOr _ _ _ _).bind fun path => follows_pure _

/-- The masks of a group are scanned behind a colon, or their place is not moved. -/
theorem follows_groupMasks (width step : UInt32) :
    Follows (groupMasks width step) (PictureJob.groupMasks width step) := by
  refine (follows_separator rfl).bind fun found => follows_ite ?_ (follows_pure none)
  refine (follows_picture _ _).bind fun masks => ?_
  exact (follows_range _ _).bind fun addresses => follows_pure _

theorem follows_group (header : Values) : Follows (group header) (PictureJob.group header) := by
  refine (follows_picture _ _).bind fun head => ?_
  refine (follows_range _ _).bind fun addresses => ?_
  refine (follows_groupMasks _ _).bind fun masks => ?_
  cases masks with
  | none => exact follows_pure _
  | some masks => exact follows_pure _

/-- There are enough rounds if there are more than characters. -/
theorem lands_groups (header : Values) {rounds : Nat} (sofar : List Group)
    (hrounds : rest.length < rounds) (hn : dropBytes? n t = some rest) :
    Lands t n (groups header rounds sofar t n) (PictureJob.groups header sofar rest) := by
  induction rounds generalizing n rest sofar with
  | zero => omega
  | succ rounds ih =>
    unfold groups
    rw [separator_bind hn]
    by_cases hhead : rest.head? = some ';'
    · obtain ⟨behind, rfl⟩ := List.head?_eq_some_iff.1 hhead
      have hnext : dropBytes? (n + 1) t = some behind := Text.dropBytes?_cons hn
      have hgroup := follows_group header hnext
      -- A group leaves no more than it was given, and the semicolon before it is gone.
      have hlen {g : Group} {left : Text} (hg : PictureJob.group header behind = .ok (g, left)) :=
        (PictureJob.advances_group header).length_le hg
      rw [if_pos hhead, if_pos rfl, bind_apply, PictureJob.groups_cons]
      generalize group header t (n + 1) = o at hgroup ⊢
      generalize PictureJob.group header behind = x at hgroup hlen ⊢
      cases hgroup with
      | error e => exact .error e
      | @ok g k left hle hk =>
        have := hlen rfl
        rw [List.length_cons] at hrounds
        exact (ih (g :: sofar) (by omega) hk).of_le (by omega)
    · rw [if_neg hhead, if_neg (by decide), PictureJob.groups_of_head?_ne sofar hhead]
      exact .ok (Nat.le_refl n) hn

/-- Groups are scanned as long as there is a semicolon in the place behind the last one. -/
theorem follows_readGroups (header : Values) :
    Follows (readGroups header) (PictureJob.readGroups header) := by
  intro t n rest hn
  have hlen : rest.length < byteSize t + 1 := by
    have := Text.add_byteSize hn
    have := Text.length_le_byteSize rest
    omega
  have hgroups := lands_groups header [] hlen hn
  unfold readGroups PictureJob.readGroups
  rw [read_bind, bind_apply]
  generalize groups header (byteSize t + 1) [] t n = o at hgroups ⊢
  generalize PictureJob.groups header [] rest = x at hgroups ⊢
  cases hgroups with
  | error e => exact .error e
  | ok hle hk => exact .ok hle hk

theorem follows_array (p : Page) : Follows (array p) (PictureJob.array p) := by
  intro t n rest hn
  unfold array PictureJob.array
  rw [place_bind, lift_rest_bind]
  refine (follows_lift (follows_picture arraySpec []) hn).bind fun head k₁ left₁ hle₁ hk₁ => ?_
  simp only
  split
  · rw [place_bind, slice_bind hle₁ hn hk₁]
    exact .error _
  · refine (follows_lift (follows_maskMode _) hk₁).bind fun mode k₂ left₂ hle₂ hk₂ => ?_
    refine (follows_lift (follows_readGroups _) hk₂).bind fun gs k₃ left₃ hle₃ hk₃ => ?_
    rw [place_bind, lift_rest_bind]
    split
    · rw [slice_bind (by omega) hn hk₃]
      exact .error _
    · split
      · rw [slice_bind (by omega) hn hk₃]
        exact .error _
      · exact (follows_ofLink _ hk₃).bind fun path _ _ _ hk => follows_pure _ hk

/-- The star before an animation is one of the characters that are read, and one byte. -/
theorem lands_animated (p : Page) (hn : dropBytes? n t = some ('*' :: rest)) :
    Lands t n (animated p t n) (PictureJob.animated p ('*' :: rest)) := by
  have hreader : PictureJob.animated p ('*' :: rest) = (do
      let (cels, fileName) ← Parameter.readString isCelChar
      let arguments := Text.consumed ('*' :: rest) (← Reader.rest)
      let fileName := fileName.getD []
      if fileName = [] then
        throw (.fault (.noArrayFileName arguments))
      let path ← PictureJob.pathOr p (some fileName) [] Site.tileDirectory
      return .animation cels.tail arguments path : Handler PictureJob) ('*' :: rest) := rfl
  have hstring := follows_string isCelChar hn
  -- The cels start with the star, which is one byte and can be cut off.
  have hcels : ∀ cels fileName left,
      Parameter.readString isCelChar ('*' :: rest) = .ok ((cels, fileName), left) →
        cels = '*' :: cels.tail := by
    intro cels fileName left h
    unfold Parameter.readString at h
    split at h
    · cases h
      rw [List.takeWhile_cons, if_pos (by decide), List.tail_cons]
    · cases h
  rw [hreader]
  unfold animated
  rw [place_bind, lift_bind_apply, lift_reader_bind]
  generalize string isCelChar t n = o at hstring ⊢
  generalize Parameter.readString isCelChar ('*' :: rest) = x at hstring hcels ⊢
  cases hstring with
  | error e => exact .error _
  | @ok p k left hle hk =>
    obtain ⟨cels, fileName⟩ := p
    have hfirst : Text.slice? cels 1 (byteSize cels) = some cels.tail := by
      obtain ⟨names, rfl⟩ : ∃ names, cels = '*' :: names := ⟨_, hcels cels fileName left rfl⟩
      exact Text.slice?_end (Text.dropBytes?_cons (Text.dropBytes?_zero ('*' :: names)))
    simp only
    rw [place_bind, slice_bind hle hn hk, lift_rest_bind]
    split
    · exact .error _
    · refine ((follows_pathOr _ _ _ _ hk).bind fun path k' left' hle' hk' => ?_).of_le hle
      rw [hfirst]
      exact follows_pure _ hk'

theorem follows_arrayOrAnimation (p : Page) :
    Follows (arrayOrAnimation p) (PictureJob.arrayOrAnimation p) := by
  intro t n rest hn
  unfold arrayOrAnimation PictureJob.arrayOrAnimation
  rw [startsWith_bind hn]
  by_cases hstar : rest.head? = some '*'
  · obtain ⟨behind, rfl⟩ := List.head?_eq_some_iff.1 hstar
    rw [if_pos hstar, if_pos (decide_eq_true hstar)]
    exact lands_animated p hn
  · rw [if_neg hstar, if_neg (by simpa using hstar)]
    exact follows_array p hn

theorem follows_message : Follows message PictureJob.message := by
  intro t n rest hn
  unfold message PictureJob.message
  rw [place_bind, lift_rest_bind]
  refine (follows_lift (follows_accept ':') hn).bind fun found k left hle hk => ?_
  split
  · refine (follows_lift follows_bracketed hk).bind fun text k' left' hle' hk' => ?_
    split
    · rw [place_bind, slice_bind (by omega) hn hk']
      exact .error _
    · exact follows_pure text hk'
  · exact follows_pure _ hk

theorem follows_font (p : Page) : Follows (font p) (PictureJob.font p) := by
  refine follows_message.bind fun text => ?_
  refine (follows_lift (follows_picture _ _)).bind fun head => ?_
  exact (follows_pathOr _ _ _ _).bind fun path => follows_pure _

theorem follows_screen (p : Page) : Follows (screen p) (PictureJob.screen p) := by
  refine (follows_lift (follows_picture _ _)).bind fun head => ?_
  exact (follows_pathOr _ _ _ _).bind fun path => follows_pure _

end

end Scanner

end MemoryDoc
