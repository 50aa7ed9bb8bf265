/-
# Text behind file names

A macro that makes a picture turns into an element.  What follows its arguments should stand behind
the element as it is, but where it begins with the mark of a mask or of a further group of tiles, it
is taken for one, although a file name came before.

Main statement: text that does not begin with a mark is left in place behind a file name
(`expand_fileName`).
-/
import MemoryDoc.Macro.Lookahead
import MemoryDoc.Proofs.Front
import MemoryDoc.Store.Listed

namespace MemoryDoc

open Reader

/-- What a picture turns into does not end with a `#`. -/
theorem PictureJob.getLast?_markup_ne (job : PictureJob) (cwd : Text) :
    (job.markup cwd).getLast? ≠ some '#' := by
  unfold markup
  split
  · next path _ =>
    have hlast : (Site.pictureElement cwd path).getLast? = some '>' := by
      rw [Site.pictureElement, Site.Markup.picture, List.getLast?_append]
      rfl
    rw [hlast]
    decide
  · nofun

namespace Session

variable {σ : Type} {env : Environment σ} {cwd arguments markup : Text} {m : PictureMacro}
  {s s' : Session σ}

/-- What a macro turns into and does is told by what it reads and the character behind. -/
theorem run_alike {y y' : Text} (hy : y.head? = y'.head?)
    (h : run env cwd (.picture m) (arguments ++ y) s = (.ok (markup, y), s')) :
    run env cwd (.picture m) (arguments ++ y') s = (.ok (markup, y'), s') := by
  obtain ⟨hpictures, job, hhandler, hdone⟩ := run_picture_eq_ok.1 h
  have halike := (PictureMacro.local_handler _ m).alike hy hhandler
  exact run_picture_eq_ok.2 ⟨hpictures, job, halike, hdone⟩

/-- A macro that ends with a file name turns into the same and does the same in front of text that
does not begin with a mark. -/
theorem run_append {behind : Text} (hclose : arguments.getLast? = some ')')
    (hbehind : Unmarked (m.marks arguments) behind)
    (h : run env cwd (.picture m) arguments s = (.ok (markup, []), s')) :
    run env cwd (.picture m) (arguments ++ behind) s = (.ok (markup, behind), s') := by
  obtain ⟨hpictures, job, hhandler, hdone⟩ := run_picture_eq_ok.1 h
  have happend := PictureMacro.handler_append hclose hbehind hhandler
  exact run_picture_eq_ok.2 ⟨hpictures, job, happend, hdone⟩

/-- A macro that leaves what is behind it turns into its markup in front of it in one step, and the
rest is expanded as it is alone. -/
theorem expand_of_run_append {behind : Text}
    (hname : arguments.takeWhile Marker.isNameLetter = []) (hclose : arguments.getLast? = some ')')
    (hmarkup : Marker.find? markup = none)
    (h : run env cwd (.picture m) (arguments ++ behind) s = (.ok (markup, behind), s')) (n : Nat) :
    expand env cwd (n + 1) ("#" ++ (MacroName.picture m).name ++ arguments ++ behind) s =
      (expand env cwd n behind s').map fun (answer, s) => (answer.map (markup ++ ·), s) := by
  have hfree : Marker.Free markup := by
    refine Marker.free_iff.2 ⟨hmarkup, ?_⟩
    obtain ⟨-, job, -, -, rfl⟩ := run_picture_eq_ok.1 h
    exact job.getLast?_markup_ne cwd
  have hletters : (arguments ++ behind).takeWhile Marker.isNameLetter = [] := by
    cases arguments with
    | nil => cases hclose
    | cons c arguments =>
      rw [List.takeWhile_cons] at hname
      rw [List.cons_append, List.takeWhile_cons]
      split at hname
      · cases hname
      · next hc => rw [if_neg hc]
  have htext : "#" ++ (MacroName.picture m).name ++ arguments ++ behind =
      '#' :: ((MacroName.picture m).name ++ (arguments ++ behind)) := by simp
  rw [htext, expand, step_name_append hletters h]
  simp only [List.nil_append]
  exact expand_append_eq env cwd hfree n behind s'

/-- **What follows a file name is left in place unless it begins with a mark.**  Let a macro that
makes a picture take all of its arguments, which end with a closing bracket, and expand to the
element that it turns into.  A character behind it that is no mark is left, and text is left if its
first character is: the text is expanded as it is alone in the session that the macro leaves, and
stands behind the element.  Without a `#` it stays as it is, and the macro does what it does alone. -/
theorem expand_fileName (env : Environment σ) (cwd : Text) (m : PictureMacro)
    (arguments markup : Text) (fuel : Nat) (s s' : Session σ)
    (hname : arguments.takeWhile Marker.isNameLetter = []) (hclose : arguments.getLast? = some ')')
    (hrun : run env cwd (.picture m) arguments s = (.ok (markup, []), s'))
    (hexpand : expand env cwd fuel ("#" ++ (MacroName.picture m).name ++ arguments) s =
      some (.ok markup, s')) :
    (∀ c, c ∉ m.marks arguments →
      run env cwd (.picture m) (arguments ++ [c]) s = (.ok (markup, [c]), s')) ∧
    ∀ behind,
      (∀ c, behind.head? = some c →
        run env cwd (.picture m) (arguments ++ [c]) s = (.ok (markup, [c]), s')) →
      (∀ n, expand env cwd (n + 1) ("#" ++ (MacroName.picture m).name ++ arguments ++ behind) s =
        (expand env cwd n behind s').map fun (answer, s) => (answer.map (markup ++ ·), s)) ∧
      ('#' ∉ behind →
        expand env cwd fuel ("#" ++ (MacroName.picture m).name ++ arguments ++ behind) s =
          some (.ok (markup ++ behind), s')) := by
  have hmarkup := find?_of_expand_eq_ok hexpand
  refine ⟨fun c hc => ?_, fun behind hbehind => ?_⟩
  · refine run_append hclose (fun d hd => ?_) hrun
    cases hd
    exact hc
  have hleft : run env cwd (.picture m) (arguments ++ behind) s = (.ok (markup, behind), s') := by
    cases behind with
    | nil => rwa [List.append_nil]
    | cons c behind => exact run_alike (y := [c]) rfl (hbehind c rfl)
  have hgeneral := expand_of_run_append hname hclose hmarkup hleft
  refine ⟨hgeneral, fun hsharp => ?_⟩
  -- The macro is one step, and to see that there is no other macro takes another.
  obtain ⟨n, rfl⟩ : ∃ n, fuel = n + 2 := by
    have hnil : run env cwd (.picture m) (arguments ++ []) s = (.ok (markup, []), s') := by
      rwa [List.append_nil]
    have halone := expand_of_run_append hname hclose hmarkup hnil
    rw [List.append_nil] at halone
    rcases fuel with _ | _ | n
    · cases hexpand
    · rw [halone] at hexpand
      cases hexpand
    · exact ⟨n, rfl⟩
  rw [hgeneral, expand, step, Marker.find?_of_not_mem hsharp]
  rfl

/-- The session in which the picture `a.png` of a tile exists. -/
def drawn : Session (List Text) :=
  start .zeros ["images/udgs/a.png".toList]

/-- A semicolon behind the name of a file does no harm to a single tile. -/
theorem expand_fileName_semicolon :
    ';' ∉ PictureMacro.udg.marks "0(a)" ∧
      expand (.usual ({} : Store.Listed).store) [] 2 "#UDG0(a); then" drawn
        = some (.ok "<img alt=\"a\" src=\"images/udgs/a.png\" />; then".toList, drawn) := by
  have hmark : ';' ∉ PictureMacro.udg.marks "0(a)" := by decide
  obtain ⟨hleaves, hleft⟩ := expand_fileName (.usual ({} : Store.Listed).store) [] .udg "0(a)"
    "<img alt=\"a\" src=\"images/udgs/a.png\" />" 2 drawn drawn rfl rfl rfl rfl
  have hbehind := hleft "; then" fun c hc => hleaves c (by cases hc; exact hmark)
  exact ⟨hmark, hbehind.2 (by decide)⟩

/-- A colon behind the file name of a tile is taken for the mark of a mask. -/
theorem expand_colonBehindFileName :
    expand (.usual ({} : Store.Listed).store) [] 2 "#UDG0(a)" drawn
        = some (.ok "<img alt=\"a\" src=\"images/udgs/a.png\" />".toList, drawn) ∧
      expand (.usual ({} : Store.Listed).store) [] 2 "#UDG0(a): see below" drawn
        = some (.error (.inMacro "#UDG" "#UDG0(a):" (.fault (.missingParameter "addr" []))), drawn) :=
  ⟨rfl, rfl⟩

end Session

end MemoryDoc
