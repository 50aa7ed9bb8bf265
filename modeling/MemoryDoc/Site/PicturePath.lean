/-
# Formats of picture paths

The last four characters of a path tell the format of a picture file.  A name that ends with no such
suffix is given one, and no directory in front of a name takes it away.

Main statement: every path that a picture is given tells a format (`isSome_ofPath?_of_picturePath`).
-/
import MemoryDoc.Picture.File
import MemoryDoc.Site.Link

namespace MemoryDoc

namespace PictureFormat

variable {t path : Text}

/-- What is in front of four characters does not change the suffix. -/
theorem suffix_append (front : Text) (h : 4 ≤ t.length) : suffix (front ++ t) = suffix t := by
  have hplace : (front ++ t).length - 4 = front.length + (t.length - 4) := by
    rw [List.length_append]
    omega
  rw [suffix, hplace, List.drop_length_add_append]
  rfl

/-- A path that tells a format ends with a dot and three letters. -/
theorem suffix_of_isSome (h : (ofPath? path).isSome = true) :
    suffix path = ".png".toList ∨ suffix path = ".gif".toList := by
  unfold ofPath? at h
  split at h
  · next hpng => exact .inl hpng
  · split at h
    · next hgif => exact .inr hgif
    · cases h

theorem four_le_length_of_isSome (h : (ofPath? path).isSome = true) : 4 ≤ path.length := by
  have hlength : (suffix path).length = 4 := by
    rcases suffix_of_isSome h with hsuffix | hsuffix <;> rw [hsuffix] <;> rfl
  rw [suffix, List.length_map, List.length_drop] at hlength
  omega

/-- **Nothing in front of a path that tells a format changes the format.** -/
theorem ofPath?_append (front : Text) (h : (ofPath? t).isSome = true) :
    ofPath? (front ++ t) = ofPath? t := by
  unfold ofPath?
  rw [suffix_append front (four_le_length_of_isSome h)]

/-- A path that tells a format is not made of slashes alone. -/
theorem any_ne_slash_of_isSome (h : (ofPath? path).isSome = true) :
    path.any (· ≠ '/') = true := by
  have hdot : '.' ∈ suffix path := by
    rcases suffix_of_isSome h with hsuffix | hsuffix <;> rw [hsuffix] <;> decide
  obtain ⟨c, hc, hlower⟩ := List.mem_map.1 hdot
  refine List.any_eq_true.2 ⟨c, List.mem_of_mem_drop hc, decide_eq_true ?_⟩
  rintro rfl
  exact absurd hlower (by decide)

/-- **A name with a suffix tells a format.** -/
theorem isSome_ofPath?_withSuffix (format : PictureFormat) (path : Text) :
    (ofPath? (format.withSuffix path)).isSome = true := by
  unfold withSuffix
  split
  · next h => exact h
  · have hname : (ofPath? ("." ++ format.name : List Char)).isSome = true := by
      cases format <;> decide
    rw [List.append_assoc, ofPath?_append path hname]
    exact hname

end PictureFormat

namespace Site

/-- What is in front of a name that is put into a directory: nothing, or what ends with a slash. -/
inductive Path.IsFront : Text → Prop where
  | none : IsFront []
  | slash (directory : Text) : IsFront (directory ++ ['/'])

/-- A name that is not made of slashes alone is put behind a directory with a slash, or stands alone. -/
theorem Path.exists_front_join {t : Text} (directory : Text) (h : t.any (· ≠ '/') = true) :
    ∃ front, IsFront front ∧ join [directory, t] = front ++ t := by
  have hkept : [t].filter (·.any (· ≠ '/')) = [t] := List.filter_cons_of_pos h
  by_cases hdirectory : directory.any (· ≠ '/') = true
  · refine ⟨directory ++ ['/'], .slash directory, ?_⟩
    rw [join, List.filter_cons_of_pos (by exact hdirectory), hkept]
    simp [Text.join]
  · refine ⟨[], .none, ?_⟩
    rw [join, List.filter_cons_of_neg (by exact hdirectory), hkept]
    simp [Text.join]

/-- A directory in front of a name takes away no suffix. -/
theorem Path.isSome_ofPath?_join {t : Text} (directory : Text)
    (h : (PictureFormat.ofPath? t).isSome = true) :
    (PictureFormat.ofPath? (join [directory, t])).isSome = true := by
  obtain ⟨front, -, hjoin⟩ := exists_front_join directory (PictureFormat.any_ne_slash_of_isSome h)
  rwa [hjoin, PictureFormat.ofPath?_append _ h]

/-- **Every path that a picture is given tells a format.** -/
theorem isSome_ofPath?_of_picturePath {s : Site} {fileName directory path : Text}
    (h : s.picturePath fileName directory = .ok (some path)) :
    (PictureFormat.ofPath? path).isSome = true := by
  unfold picturePath at h
  split at h
  · cases h
  · cases h
    exact PictureFormat.isSome_ofPath?_withSuffix _ _
  · cases h
    exact Path.isSome_ofPath?_join _ (PictureFormat.isSome_ofPath?_withSuffix _ _)
  · cases h

end Site

end MemoryDoc
