/-
# Picture jobs

A macro that makes pictures reads its arguments and leaves a job: a still picture to be drawn and
written, kept for an animation, or both; or an animation of frames that were kept before.

A file name ends the arguments, but a mask or a further group of tiles may still follow it.  The
cropping rectangle and the file name of the last part count.
-/
import MemoryDoc.Macro.Drawing
import MemoryDoc.Macro.Wording
import MemoryDoc.Parameter.AddressRange
import MemoryDoc.Parameter.Picture

namespace MemoryDoc

/-- What a macro has to do for a picture. -/
inductive PictureJob where
  /-- Draw a picture, keep its frame under a name, and write it to a file. -/
  | still (drawing : Drawing) (keepAs path : Option Text)
  /-- Write the frames that were kept under the names in `cels` to a file.  `arguments` is what the
  macro was given. -/
  | animation (cels arguments path : Text)
deriving DecidableEq, Repr

namespace PictureJob

/-- The file that the picture is written to. -/
def path? : PictureJob → Option Text
  | still _ _ path => path
  | animation _ _ path => some path

/-- What the macro turns into on a page in the directory `cwd`. -/
def markup (cwd : Text) (job : PictureJob) : Text :=
  match job.path? with
  | some path => Site.pictureElement cwd path
  | none => []

/-! ## Animations -/

/-- The name and the delay of a part of an animation.  A delay that is not given is that of the
part before. -/
def cel (delay : UInt32) (part : Text) : Except Fault (Text × UInt32) :=
  match Text.cutLast ',' part with
  | none => .ok (part, delay)
  | some (name, raw) =>
    match Numeral.parse? raw with
    | some delay => .ok (name, delay)
    | none => .error (.badDelay raw)

/-- The frames of an animation, taken from those that were kept. -/
def frames (kept : Dictionary Frame) (arguments : Text) :
    (delay : UInt32) → (parts : List Text) → Except Fault (List Frame)
  | _, [] => .ok []
  | delay, part :: parts => do
    let (name, delay) ← cel delay part
    if name = [] then
      throw (.noFrameName arguments)
    match kept.find? name with
    | none => throw (.unknownFrame name)
    | some frame => return frame.withDelay delay :: (← frames kept arguments delay parts)

/-- The frame of the first part is looked up, and those of the others follow. -/
theorem frames_cons (kept : Dictionary Frame) (arguments : Text) (delay : UInt32) (part : Text)
    (parts : List Text) :
    frames kept arguments delay (part :: parts) =
      match cel delay part with
      | .error fault => .error fault
      | .ok (name, delay) =>
        if name = [] then .error (.noFrameName arguments)
        else
          match kept.find? name with
          | none => .error (.unknownFrame name)
          | some frame =>
            (frames kept arguments delay parts).map (frame.withDelay delay :: ·) := by
  rw [frames]
  cases cel delay part with
  | error fault => rfl
  | ok found =>
    obtain ⟨name, delay⟩ := found
    simp only [bind, Except.bind]
    by_cases hname : name = []
    · simp only [if_pos hname]
      rfl
    · simp only [if_neg hname]
      cases hfind : kept.find? name with
      | none => rfl
      | some frame => cases frames kept arguments delay parts <;> rfl

/-- The frames of the animation that `cels` writes. -/
def animationFrames (kept : Dictionary Frame) (arguments cels : Text) :
    Except Fault (List Frame) :=
  frames kept arguments Frame.defaultDelay (cels.splitOn ';')

/-! ## What the arguments have in common -/

open Reader (accept rest bracketed)

/-- The mask mode of a number. -/
def maskMode (n : UInt32) : Reader MaskMode :=
  match MaskMode.ofNumber? n with
  | some mode => pure mode
  | none => throw (.badMaskType n.toNat)

/-- The path of a file in a directory.  A name that is missing or empty is replaced by `default`. -/
def pathOr (p : Page) (fileName : Option Text) (default directory : Text) : Handler Text := do
  match ← Handler.ofLink (p.site.picturePath (Site.orElse (fileName.getD []) default) directory) with
  | some path => return path
  | none => throw (.fault .noFileName)

/-- Numbers as defaults of parameters. -/
def defaults (ns : List UInt32) : List (Option UInt32) :=
  ns.map some

/-! ## Single tiles -/

/-- The parameters of a single tile. -/
def tileSpec : Parameter.Spec where
  names := ["addr".toList, "attr".toList, "scale".toList, "step".toList, "inc".toList,
    "flip".toList, "rotate".toList, "mask".toList]
  defaults := defaults [56, 4, 1, 0, 0, 0, 1]
  named := true

/-- The parameters of the mask of a single tile, whose bytes are as far apart as those of the tile
unless said otherwise. -/
def tileMaskSpec (step : UInt32) : Parameter.Spec where
  names := ["addr".toList, "step".toList]
  defaults := defaults [step]
  named := true

/-- The mask of a single tile, if one follows. -/
def tileMask (step : UInt32) : Reader (Option Parameter.Picture) := do
  if ← accept ':' then
    return some (← Parameter.Picture.read (tileMaskSpec step) [])
  else
    return none

/-- The file name of a single tile that is given none. -/
def tileFileName (address attr scale : UInt32) : Text :=
  "udg" ++ Numeral.decimal address.toNat ++ "_" ++ Numeral.decimal attr.toNat ++ "x"
    ++ Numeral.decimal scale.toNat

/-- `addr[,attr,scale,step,inc,flip,rotate,mask][:addr[,step]][{x,y,width,height}][(file)]` -/
def tile (p : Page) : Handler PictureJob := do
  let head ← Parameter.Picture.read tileSpec []
  let v := head.values
  let mode ← maskMode (v.number 7)
  let mask ← tileMask (v.number 3)
  let last := mask.getD head
  let default := tileFileName (v.number 0) (v.number 1) (v.number 2)
  let path ← pathOr p last.fileName default Site.tileDirectory
  let source : TileSource := {
    attr := (v.number 1).toUInt8
    address := v.number 0
    step := v.number 3
    increment := (v.number 4).toUInt8
    mask := mask.map fun m => (m.values.number 0, m.values.number 1) }
  let drawing : Drawing := {
    source := .tiles 1 [source]
    flip := v.number 5
    rotate := v.number 6
    scale := v.number 2
    mask := if mask.isSome then mode else .ignored
    crop := last.crop }
  return .still drawing none (some path)

/-! ## Arrays of tiles -/

/-- The parameters of an array of tiles. -/
def arraySpec : Parameter.Spec where
  names := ["width".toList, "attr".toList, "scale".toList, "step".toList, "inc".toList,
    "flip".toList, "rotate".toList, "mask".toList]
  defaults := defaults [56, 2, 1, 0, 0, 0, 1]

/-- The parameters of a group of tiles, by default those of the array. -/
def groupSpec (attr step increment : UInt32) : Parameter.Spec where
  names := ["addr".toList, "attr".toList, "step".toList, "inc".toList]
  defaults := defaults [attr, step, increment]
  texts := [0]

/-- The parameters of the masks of a group of tiles. -/
def groupMaskSpec (step : UInt32) : Parameter.Spec where
  names := ["addr".toList, "step".toList]
  defaults := defaults [step]
  texts := [0]

/-- The further characters of ranges of addresses. -/
def rangeChars : Text := "-x"

/-- A group of tiles, whether it has masks, and the cropping rectangle and file name behind it. -/
structure Group where
  sources : List TileSource
  masked : Bool
  crop : Crop
  fileName : Option Text
deriving DecidableEq, Repr

/-- The addresses that a text writes. -/
def range (t : Text) (width : UInt32) : Reader (List UInt32) :=
  match AddressRange.expand t width with
  | .ok addresses => pure addresses
  | .error fault => throw fault

/-- The addresses of the masks of a group and their step, with the parameters that they were read
from, if masks follow. -/
def groupMasks (width step : UInt32) : Reader (Option (List UInt32 × Parameter.Picture)) := do
  if ← accept ':' then
    let masks ← Parameter.Picture.read (groupMaskSpec step) rangeChars
    let addresses ← range (masks.values.text 0) width
    return some (addresses, masks)
  else
    return none

/-- The tiles at some addresses.  The first tiles have the masks. -/
def groupSources (attr : UInt8) (step : UInt32) (increment : UInt8) (maskStep : UInt32) :
    (addresses masks : List UInt32) → List TileSource
  | [], _ => []
  | address :: addresses, masks =>
    { attr, address, step, increment, mask := masks.head?.map fun m => (m, maskStep) }
      :: groupSources attr step increment maskStep addresses masks.tail

/-- One group of tiles: `addr[,attr,step,inc][:addr[,step]][{x,y,width,height}][(file)]` -/
def group (header : Parameter.Values) : Reader Group := do
  let width := header.number 0
  let head ← Parameter.Picture.read (groupSpec (header.number 1) (header.number 3) (header.number 4))
    rangeChars
  let addresses ← range (head.values.text 0) width
  let attr := (head.values.number 1).toUInt8
  let step := head.values.number 2
  let increment := (head.values.number 3).toUInt8
  match ← groupMasks width step with
  | none =>
    return {
      sources := groupSources attr step increment step addresses []
      masked := false
      crop := head.crop
      fileName := head.fileName }
  | some (masks, last) =>
    return {
      sources := groupSources attr step increment (last.values.number 1) addresses masks
      masked := !masks.isEmpty
      crop := last.crop
      fileName := last.fileName }

theorem advances_maskMode (n : UInt32) : Reader.Advances (maskMode n) := by
  unfold maskMode
  split
  · exact Reader.advances_pure _
  · exact Reader.advances_throw _

theorem advances_range (t : Text) (width : UInt32) : Reader.Advances (range t width) := by
  unfold range
  split
  · exact Reader.advances_pure _
  · exact Reader.advances_throw _

/-- The masks of a group are read only behind a colon. -/
theorem advances_groupMasks (width step : UInt32) : Reader.Advances (groupMasks width step) := by
  refine Reader.advances_bind (Reader.advances_accept _) fun found => ?_
  split
  · refine Reader.advances_bind (Parameter.Picture.advances_read _ _) fun _ => ?_
    exact Reader.advances_bind (advances_range _ _) fun _ => Reader.advances_pure _
  · exact Reader.advances_pure _

/-- A group reads its parameters and then those of its masks. -/
theorem advances_group (header : Parameter.Values) : Reader.Advances (group header) := by
  refine Reader.advances_bind (Parameter.Picture.advances_read _ _) fun _ => ?_
  refine Reader.advances_bind (advances_range _ _) fun _ => ?_
  refine Reader.advances_bind (advances_groupMasks _ _) fun masks => ?_
  split <;> exact Reader.advances_pure _

/-- The groups of tiles that follow those read so far, each behind a semicolon.  The last comes
first. -/
def groups (header : Parameter.Values) (sofar : List Group) (t : Text) :
    Except Fault (List Group × Text) :=
  match t with
  | ';' :: behind =>
    match _h : group header behind with
    | .error fault => .error fault
    | .ok (next, left) => groups header (next :: sofar) left
  | _ => .ok (sofar, t)
termination_by t.length
decreasing_by
  have := (advances_group header).length_le _h
  simp only [List.length_cons]
  omega

/-- Groups go on behind a semicolon. -/
theorem groups_cons (header : Parameter.Values) (sofar : List Group) (behind : Text) :
    groups header sofar (';' :: behind) =
      match group header behind with
      | .error fault => .error fault
      | .ok (next, left) => groups header (next :: sofar) left := by
  rw [groups]
  split
  · next h => rw [h]
  · next h => rw [h]

/-- There are no more groups without a semicolon. -/
theorem groups_of_head?_ne {header : Parameter.Values} (sofar : List Group) {t : Text}
    (h : t.head? ≠ some ';') : groups header sofar t = .ok (sofar, t) := by
  unfold groups
  split
  · exact absurd rfl h
  · rfl

/-- Read the groups of tiles that follow the parameters of an array. -/
def readGroups (header : Parameter.Values) : Reader (List Group) := fun t =>
  match groups header [] t with
  | .ok (gs, left) => .ok (gs.reverse, left)
  | .error fault => .error fault

/-- The file name and the name for the frame in `file[*frame]`.  A frame that is given no name has
that of the file. -/
def arrayNames (t : Text) : Text × Option Text :=
  match Text.cut '*' t with
  | none => (t, none)
  | some (file, frame) =>
    let name := Site.orElse frame file
    (file, if name = [] then none else some name)

/-- `width[,attr,scale,step,inc,flip,rotate,mask];group;...[{x,y,width,height}](file[*frame])` -/
def array (p : Page) : Handler PictureJob := do
  let start ← rest
  let head ← Parameter.Picture.read arraySpec []
  let v := head.values
  if v.number 0 = 0 then
    throw (.fault (.badWidth (Text.consumed start (← rest))))
  let mode ← maskMode (v.number 7)
  let gs ← readGroups v
  let left ← rest
  let (crop, lastName) := (gs.getLast?.map fun g => (g.crop, g.fileName)).getD (head.crop, head.fileName)
  let fileName := lastName.getD []
  if fileName = [] then
    throw (.fault (.noArrayFileName (Text.consumed start left)))
  let (file, frame) := arrayNames fileName
  if file = [] ∧ frame = none then
    throw (.fault (.noArrayName (Text.consumed start left)))
  let path ← Handler.ofLink (p.site.picturePath file Site.tileDirectory)
  let drawing : Drawing := {
    source := .tiles (v.number 0).toNat (gs.flatMap (·.sources))
    flip := v.number 5
    rotate := v.number 6
    scale := v.number 2
    mask := if gs.any (·.masked) then mode else .ignored
    crop }
  return .still drawing frame path

/-- A character of the names and delays of an animation. -/
def isCelChar (c : Char) : Bool :=
  c ≠ ' ' && c ≠ '('

/-- `*frame[,delay];...(file)` -/
def animated (p : Page) : Handler PictureJob := do
  let start ← rest
  let (cels, fileName) ← Parameter.readString isCelChar
  let arguments := Text.consumed start (← rest)
  let fileName := fileName.getD []
  if fileName = [] then
    throw (.fault (.noArrayFileName arguments))
  let path ← pathOr p (some fileName) [] Site.tileDirectory
  return .animation cels.tail arguments path

/-- An array of tiles, or an animation if a star comes first. -/
def arrayOrAnimation (p : Page) : Handler PictureJob := fun t =>
  if t.head? = some '*' then animated p t else array p t

/-! ## Fonts and the screen -/

/-- The message of a picture of glyphs: all characters of a font unless one is given. -/
def message : Handler Text := do
  let start ← rest
  if ← accept ':' then
    let text ← bracketed
    if text = [] then
      throw (.fault (.emptyMessage (Text.consumed start (← rest))))
    return text
  else
    return Memory.fontCharacters

/-- The parameters of a picture of glyphs. -/
def fontSpec (length : Nat) : Parameter.Spec where
  names := ["addr".toList, "chars".toList, "attr".toList, "scale".toList]
  defaults := defaults [length.toUInt32, 56, 2]

/-- `[:(text)]addr[,chars,attr,scale][{x,y,width,height}][(file)]` -/
def font (p : Page) : Handler PictureJob := do
  let text ← message
  let head ← Parameter.Picture.read (fontSpec text.length) []
  let v := head.values
  let path ← pathOr p head.fileName "font" Site.fontDirectory
  let drawing : Drawing := {
    source := .glyphs (v.number 0) (v.number 2).toUInt8 (text.take (v.number 1).toNat)
    scale := v.number 3
    crop := head.crop }
  return .still drawing none (some path)

/-- The parameters of a picture of the screen. -/
def screenSpec : Parameter.Spec where
  names := ["scale".toList, "x".toList, "y".toList, "w".toList, "h".toList, "df".toList,
    "af".toList]
  defaults := defaults [1, 0, 0, 32, 24, 16384, 22528]

/-- `[scale,x,y,w,h,df,af][{x,y,width,height}][(file)]` -/
def screen (p : Page) : Handler PictureJob := do
  let head ← Parameter.Picture.read screenSpec []
  let v := head.values
  let path ← pathOr p head.fileName "scr" Site.screenDirectory
  let area : Memory.ScreenArea := {
    x := v.number 1
    y := v.number 2
    width := v.number 3
    height := v.number 4
    display := v.number 5
    attributes := v.number 6 }
  return .still { source := .screen area, scale := v.number 0, crop := head.crop } none (some path)

end PictureJob

/-- The handler of a macro that makes a picture. -/
def PictureMacro.handler (p : Page) : PictureMacro → Handler PictureJob
  | .udg => PictureJob.tile p
  | .udgarray => PictureJob.arrayOrAnimation p
  | .font => PictureJob.font p
  | .scr => PictureJob.screen p

end MemoryDoc
