/-
# Suffixes of picture files

The suffix of a picture file is looked at three times: where a name is completed to a path, where the
path tells the format that is written, and where the element that shows the picture is named after the
file, which is done by cutting off four bytes.  In the first two the case of letters does not matter,
whatever the lower case of a character is beyond ASCII, and it may be longer than the character.

Main statement: the three agree (`picturePath_suffix`).
-/
import MemoryDoc.Proofs.Bytewise.Slice
import MemoryDoc.Proofs.Calls
import MemoryDoc.Proofs.PictureErrors
import MemoryDoc.Site.PicturePath
import MemoryDoc.Store.Listed
import MemoryDoc.Text.LowerCase

namespace MemoryDoc

/-! ## Formats in any lower case -/

/-- The format that the suffix of a path tells in lower case. -/
def LowerCase.ofPath? (l : LowerCase) (path : Text) : Option PictureFormat :=
  if ".png".toList <:+ l.text path then some .png
  else if ".gif".toList <:+ l.text path then some .gif
  else none

namespace PictureFormat

variable {t path word : Text}

/-- Four letters are the suffix of a path that ends with them in lower case. -/
theorem suffix_eq_iff (h : word.length = 4) : suffix path = word ↔ word <:+ path.map Char.toLower := by
  rw [List.suffix_iff_eq_drop, h, List.length_map, ← List.map_drop]
  exact eq_comm

theorem forall_mem_png : ∀ c ∈ ".png".toList, c ∈ suffixLetters :=
  List.all_iff_forall_prop.1 (by decide)

theorem forall_mem_gif : ∀ c ∈ ".gif".toList, c ∈ suffixLetters :=
  List.all_iff_forall_prop.1 (by decide)

/-- **The lower case of characters beyond ASCII does not matter for the format of a path.** -/
theorem ofPath?_lowerCase (l : LowerCase) (path : Text) : l.ofPath? path = ofPath? path := by
  have hpng : ".png".toList <:+ l.text path ↔ suffix path = ".png".toList := by
    rw [l.suffix_text_iff forall_mem_png, suffix_eq_iff rfl]
  have hgif : ".gif".toList <:+ l.text path ↔ suffix path = ".gif".toList := by
    rw [l.suffix_text_iff forall_mem_gif, suffix_eq_iff rfl]
  unfold LowerCase.ofPath? ofPath?
  simp only [hpng, hgif]

/-- A slash in front is no part of a suffix. -/
theorem suffix_slash_iff (h : word.length = 4) (hword : ∀ c ∈ word, c ∈ suffixLetters) :
    suffix ('/' :: t) = word ↔ suffix t = word := by
  rw [suffix_eq_iff h, suffix_eq_iff h, List.map_cons, List.suffix_cons_iff]
  constructor
  · rintro (rfl | hsuffix)
    · have hslash : '/' ∈ suffixLetters := hword '/' List.mem_cons_self
      exact absurd hslash (by decide)
    · exact hsuffix
  · exact .inr

/-- The format is told by the end of a path, and a slash in front does not change it. -/
theorem ofPath?_slash (t : Text) : ofPath? ('/' :: t) = ofPath? t := by
  unfold ofPath?
  simp only [suffix_slash_iff rfl forall_mem_png, suffix_slash_iff rfl forall_mem_gif]

/-- **The last four characters of a path that tells a format are one byte each, and no slashes.** -/
theorem exists_suffix (h : (ofPath? path).isSome = true) :
    ∃ front last, path = front ++ last ∧ (∀ c ∈ last, c ≠ '/') ∧ Text.byteSize last = 4 := by
  have hletters : ∀ c ∈ path.drop (path.length - 4), c.toLower ∈ suffixLetters := by
    intro c hc
    have hmem : c.toLower ∈ suffix path := List.mem_map_of_mem hc
    rcases suffix_of_isSome h with hsuffix | hsuffix
    · exact forall_mem_png _ (hsuffix ▸ hmem)
    · exact forall_mem_gif _ (hsuffix ▸ hmem)
  refine ⟨path.take (path.length - 4), path.drop (path.length - 4),
    (List.take_append_drop ..).symm, ?_, ?_⟩
  · rintro c hc rfl
    exact absurd (hletters '/' hc) (by decide)
  · have hbytes := Text.byteSize_of_ascii fun c hc =>
      LowerCase.toNat_lt_of_toLower_mem (hletters c hc)
    have hfour := four_le_length_of_isSome h
    rw [hbytes, List.length_drop]
    omega

end PictureFormat

namespace Site

open PictureFormat

variable {site : Site} {fileName directory path front name last : Text}

/-! ## Names of pictures -/

/-- Behind the last slash of the path stand the name of a picture and a suffix of four bytes. -/
structure NamesPicture (path front name last : Text) : Prop where
  path_eq : path = front ++ (name ++ last)
  isFront : Path.IsFront front
  not_mem : '/' ∉ name ++ last
  byteSize_last : Text.byteSize last = 4

/-- A path is what leads to its last part and this part. -/
theorem Path.exists_lastPart (t : Text) : ∃ front name, t = front ++ name ∧ IsFront front ∧ '/' ∉ name := by
  have hparts := (List.takeWhile_append_dropWhile (p := fun c => decide (c ≠ '/')) (l := t.reverse)).symm
  refine ⟨(t.reverse.dropWhile (· ≠ '/')).reverse, (t.reverse.takeWhile (· ≠ '/')).reverse, ?_, ?_, ?_⟩
  · rw [← List.reverse_append, ← hparts, List.reverse_reverse]
  · have hhead := List.head?_dropWhile_not (fun c : Char => decide (c ≠ '/')) t.reverse
    cases hdrop : t.reverse.dropWhile (fun c => decide (c ≠ '/')) with
    | nil => exact .none
    | cons c behind =>
      -- The first character from behind that is dropped no more is a slash.
      rw [hdrop] at hhead
      have hc : c = '/' := by simpa using hhead
      rw [List.reverse_cons, hc]
      exact .slash _
  · intro hmem
    have hall := List.all_eq_true.1 (List.all_takeWhile (p := fun c => decide (c ≠ '/')))
      '/' (List.mem_reverse.1 hmem)
    cases hall

/-- **A path that tells a format names a picture.** -/
theorem exists_namesPicture (h : (ofPath? path).isSome = true) :
    ∃ front name last, NamesPicture path front name last := by
  obtain ⟨rest, last, rfl, hlast, hbytes⟩ := exists_suffix h
  obtain ⟨front, name, rfl, hfront, hname⟩ := Path.exists_lastPart rest
  refine ⟨front, name, last, List.append_assoc .., hfront, ?_, hbytes⟩
  intro hmem
  rcases List.mem_append.1 hmem with hmem | hmem
  · exact hname hmem
  · exact hlast '/' hmem rfl

namespace NamesPicture

/-- The suffix begins where a character begins. -/
theorem isBoundary (h : NamesPicture path front name last) :
    Text.IsBoundary (name ++ last) (Text.byteSize (name ++ last) - 4) := by
  refine ⟨name, last, rfl, ?_⟩
  rw [Text.byteSize_append, h.byteSize_last, Nat.add_sub_cancel]

/-- What stands behind the last slash is the name with its suffix. -/
theorem takeWhile_reverse (h : NamesPicture path front name last) :
    (path.reverse.takeWhile (· ≠ '/')).reverse = name ++ last := by
  have hbase : ∀ c ∈ (name ++ last).reverse, decide (c ≠ '/') = true := by
    intro c hc
    apply decide_eq_true
    rintro rfl
    exact h.not_mem (List.mem_reverse.1 hc)
  have hfront : front.reverse.takeWhile (fun c => decide (c ≠ '/')) = [] := by
    cases h.isFront with
    | none => rfl
    | slash directory =>
      rw [List.reverse_append]
      rfl
  rw [h.path_eq, List.reverse_append, List.takeWhile_append_of_pos hbase, hfront, List.append_nil,
    List.reverse_reverse]

/-- **The element that shows a picture is named after it**, as four bytes are cut off. -/
theorem pictureName_eq (h : NamesPicture path front name last) : pictureName path = name := by
  have hsize : ¬ Text.byteSize (name ++ last) < 4 := by
    rw [Text.byteSize_append, h.byteSize_last]
    omega
  have hlast : Text.byteSize last.reverse = 4 := by
    rw [Text.byteSize_reverse, h.byteSize_last]
  unfold pictureName
  rw [h.takeWhile_reverse]
  dsimp only
  rw [if_neg hsize, List.reverse_append, ← hlast, Text.dropBytes?_byteSize]
  exact List.reverse_reverse name

end NamesPicture

/-- The element that shows a picture has its name for those who do not see it. -/
theorem pictureElement_eq (cwd path : Text) :
    pictureElement cwd path = "<img alt=\"".toList ++ pictureName path ++ "\" src=\"".toList
      ++ Path.relative cwd path ++ "\" />".toList := by
  have halt : "<img alt=\"".toList = "<img".toList ++ (" ".toList ++ "alt".toList ++ "=\"".toList) :=
    rfl
  have hsrc : "\" src=\"".toList = "\"".toList ++ (" ".toList ++ "src".toList ++ "=\"".toList) := rfl
  have hend : "\" />".toList = "\"".toList ++ " />".toList := rfl
  rw [halt, hsrc, hend]
  unfold pictureElement Markup.picture Markup.attr
  -- Both are the same pieces, put together from the left and from the right.
  generalize "<img".toList = open_, " ".toList = blank, "alt".toList = alt, "src".toList = src,
    "=\"".toList = equals, "\"".toList = quote, " />".toList = close
  simp only [List.append_assoc]

/-! ## Names that are completed -/

/-- The name of a file without the slash that it may start with. -/
def unrooted : Text → Text
  | '/' :: rooted => rooted
  | t => t

/-- A path without a slash in front stays as it is. -/
theorem unrooted_of_ne {t : Text} (h : ∀ rooted, t ≠ '/' :: rooted) : unrooted t = t := by
  unfold unrooted
  split
  · next rooted => exact absurd rfl (h rooted)
  · rfl

/-- A path has one format with and without a slash in front. -/
theorem ofPath?_unrooted (t : Text) : ofPath? (unrooted t) = ofPath? t := by
  unfold unrooted
  split
  · exact (ofPath?_slash _).symm
  · rfl

/-- A path is that of a directory and the completed name. -/
theorem picturePath_eq_some (h : site.picturePath fileName directory = .ok (some path)) :
    ∃ front, Path.IsFront front ∧
      path = front ++ site.settings.format.withSuffix (unrooted fileName) := by
  unfold picturePath at h
  split at h
  · cases h
  · cases h
    exact ⟨[], .none, rfl⟩
  · next hrooted _ =>
    cases h
    rw [unrooted_of_ne hrooted]
    exact Path.exists_front_join _ (any_ne_slash_of_isSome (isSome_ofPath?_withSuffix _ _))
  · cases h

/-- No path ends with a name and a suffix behind it if it ends with the name itself: the slash in front
of the name would be one more than there are in it. -/
theorem not_append_suffix {t suffix : Text} (hfront : Path.IsFront front) (hsuffix : '/' ∉ suffix)
    (hne : suffix ≠ []) : ¬ t ++ suffix <:+ front ++ t := by
  have hpos : 0 < suffix.length := List.length_pos_iff.2 hne
  intro h
  cases hfront with
  | none =>
    have hlength := h.length_le
    rw [List.nil_append, List.length_append] at hlength
    omega
  | slash directory =>
    have hslash : '/' :: t <:+ directory ++ ['/'] ++ t := by
      rw [List.append_assoc]
      exact List.suffix_append directory _
    have hinside : '/' :: t <:+ t ++ suffix := by
      apply List.suffix_of_suffix_length_le hslash h
      rw [List.length_cons, List.length_append]
      omega
    have hcount := hinside.sublist.count_le '/'
    rw [List.count_cons_self, List.count_append, List.count_eq_zero_of_not_mem hsuffix] at hcount
    omega

/-- **A name is completed exactly if it has no suffix.** -/
theorem completed_iff (h : site.picturePath fileName directory = .ok (some path)) :
    unrooted fileName ++ '.' :: site.settings.format.name <:+ path ↔ ofPath? fileName = none := by
  obtain ⟨front, hfront, rfl⟩ := picturePath_eq_some h
  unfold withSuffix
  rw [ofPath?_unrooted]
  cases hformat : ofPath? fileName with
  | none =>
    constructor
    · intro _
      rfl
    · intro _
      show _ <:+ front ++ (unrooted fileName ++ ['.'] ++ site.settings.format.name)
      rw [List.append_assoc]
      exact List.suffix_append front _
  | some format =>
    constructor
    · intro hsuffix
      -- A name with a suffix stays as it is, so the path does not end with one more.
      refine absurd hsuffix (not_append_suffix hfront ?_ ?_)
      · cases site.settings.format <;> decide
      · cases site.settings.format <;> nofun
    · intro hnone
      cases hnone

end Site

/-! ## The three agree -/

open Site in
/-- **Every path of a picture has a suffix that is kept, told and cut off as one.**  Whatever the lower
case of characters beyond ASCII is, the path tells a format; a name is completed exactly if it tells none
itself; and the element that shows the picture is named after what is between the last slash and four
last bytes, which begin with a character.  So no macro ever fails because of the suffix of a file. -/
theorem picturePath_suffix {σ : Type} (l : LowerCase) (env : Environment σ) :
    (∀ fileName directory path, env.site.picturePath fileName directory = .ok (some path) →
      (l.ofPath? path).isSome = true ∧
      l.ofPath? path = PictureFormat.ofPath? path ∧
      (unrooted fileName ++ '.' :: env.site.settings.format.name <:+ path ↔
        l.ofPath? fileName = none) ∧
      ∃ front name last, NamesPicture path front name last ∧
        Text.IsBoundary (name ++ last) (Text.byteSize (name ++ last) - 4) ∧
        pictureName path = name ∧
        ∀ cwd, pictureElement cwd path = "<img alt=\"".toList ++ name ++ "\" src=\"".toList
          ++ Path.relative cwd path ++ "\" />".toList) ∧
    (∀ cwd m arguments (s t : Session σ) unsupported,
      Session.run env cwd m arguments s = (.error (.picture (.unsupportedFormat unsupported)), t) →
        ∃ format frames, (env.encoding format frames).outcome =
          .error (.unsupportedFormat unsupported)) ∧
    ∀ format frames unsupported,
      (Encoding.ofFrames format frames).outcome ≠ .error (.unsupportedFormat unsupported) := by
  refine ⟨?_, ?_, Encoding.ofFrames_ne_unsupported⟩
  · intro fileName directory path h
    have hsome := isSome_ofPath?_of_picturePath h
    obtain ⟨front, name, last, hnames⟩ := exists_namesPicture hsome
    refine ⟨?_, PictureFormat.ofPath?_lowerCase l path, ?_, front, name, last, hnames,
      hnames.isBoundary, hnames.pictureName_eq, fun cwd => ?_⟩
    · rw [PictureFormat.ofPath?_lowerCase]
      exact hsome
    · rw [PictureFormat.ofPath?_lowerCase]
      exact completed_iff h
    · rw [pictureElement_eq, hnames.pictureName_eq]
  · intro cwd m arguments s t unsupported h
    obtain ⟨fileName, directory, path, frames, s', hname, hwrite⟩ := Session.exists_write_of_run h
    obtain ⟨format, houtcome⟩ :=
      Session.outcome_of_write (isSome_ofPath?_of_picturePath hname) hwrite
    exact ⟨format, frames, houtcome⟩

/-- A name in capitals has its suffix, a character of two bytes stands before it, and no macro fails
where frames are encoded as ever. -/
theorem picturePath_suffix_capitals :
    (LowerCase.dottedI.ofPath? "maps/\u0130.GIF".toList).isSome = true ∧
    Site.pictureName "maps/\u0130.GIF" = "\u0130".toList ∧
    Site.pictureElement "asm" "maps/\u0130.GIF" =
      "<img alt=\"\u0130\" src=\"../maps/\u0130.GIF\" />".toList ∧
    ∀ cwd m arguments (s t : Session (List Text)) unsupported,
      Session.run (.usual ({} : Store.Listed).store) cwd m arguments s ≠
        (.error (.picture (.unsupportedFormat unsupported)), t) := by
  obtain ⟨hpaths, hruns, hframes⟩ :=
    picturePath_suffix .dottedI (.usual ({} : Store.Listed).store)
  obtain ⟨hsome, -, -, front, name, last, -, -, hname, hshown⟩ :=
    hpaths "/maps/\u0130.GIF" Site.tileDirectory "maps/\u0130.GIF" rfl
  replace hname : "\u0130".toList = name := hname
  subst hname
  refine ⟨hsome, rfl, (hshown "asm").trans rfl, ?_⟩
  intro cwd m arguments s t unsupported h
  obtain ⟨format, frames, houtcome⟩ := hruns cwd m arguments s t unsupported h
  exact hframes format frames unsupported houtcome

end MemoryDoc
