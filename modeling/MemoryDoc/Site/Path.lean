/-
# Paths of a site

The pages and pictures of a site have paths relative to its root.  The parts of a path are
separated by slashes; empty parts and parts `.` mean nothing, and a part `..` takes back the part
before it.  A link from a page has the path of its target relative to the directory of the page.
-/
import MemoryDoc.Text.Numeral

namespace MemoryDoc.Site.Path

/-- The part that means the directory itself. -/
def here : Text := "."

/-- The part that takes back the part before it. -/
def up : Text := ".."

/-- Join parts that hold more than slashes. -/
def join (parts : List Text) : Text :=
  Text.join "/" (parts.filter (·.any (· ≠ '/')))

/-- Follow one part from a place that is given by its parts, the last first. -/
def step (place : List Text) (part : Text) : List Text :=
  if part = [] ∨ part = here then place
  else
    match place with
    | last :: before => if part = up ∧ last ≠ up then before else part :: last :: before
    | [] => [part]

/-- The parts of a path that are left when no part takes back another. -/
def parts (path : Text) : List Text :=
  ((path.splitOn '/').foldl step []).reverse

/-- The path with the given parts. -/
def ofParts (ps : List Text) : Text :=
  if ps.isEmpty then here else Text.join "/" ps

/-- The shortest path to the same place. -/
def normal (path : Text) : Text :=
  ofParts (parts path)

/-- Two lists without what they both start with. -/
def dropCommon : List Text → List Text → List Text × List Text
  | a :: as, b :: bs => if a = b then dropCommon as bs else (a :: as, b :: bs)
  | as, bs => (as, bs)

/-- The path of `target` from the directory `cwd`. -/
def relative (cwd target : Text) : Text :=
  let (back, on) := dropCommon (parts cwd) (parts target)
  ofParts (back.map (fun _ => up) ++ on)

/-- The page of the entry at an address, in a directory of entry pages. -/
def entryPage (address : UInt16) (directory : Text) : Text :=
  normal (join [directory, Numeral.decimal address.toNat ++ ".html"])

/-! ## The characters of paths -/

/-- Each part of where a path leads is one of the place or of the path. -/
theorem mem_of_mem_foldl_step {place ps : List Text} {part : Text}
    (h : part ∈ ps.foldl step place) : part ∈ place ∨ part ∈ ps := by
  induction ps generalizing place with
  | nil => exact Or.inl h
  | cons p ps ih =>
    -- A step keeps the place, takes a part off it or puts its own part on it.
    have hstep : ∀ q ∈ step place p, q ∈ place ∨ q = p := by
      intro q hq
      unfold step at hq
      split at hq
      · exact Or.inl hq
      · split at hq
        · split at hq
          · exact Or.inl (List.mem_cons_of_mem _ hq)
          · rcases List.mem_cons.1 hq with rfl | hq
            · exact Or.inr rfl
            · exact Or.inl hq
        · exact Or.inr (List.mem_singleton.1 hq)
    rcases ih h with hp | hp
    · rcases hstep part hp with hp | rfl
      · exact Or.inl hp
      · exact Or.inr (by simp)
    · exact Or.inr (List.mem_cons_of_mem _ hp)

/-- The parts of a path have no characters of their own. -/
theorem subset_of_mem_parts {path part : Text} (h : part ∈ parts path) : part ⊆ path := by
  rw [parts, List.mem_reverse] at h
  rcases mem_of_mem_foldl_step h with h | h
  · cases h
  · exact Text.subset_of_mem_splitOn h

/-- What is left of a path without what it has in common is an end of it. -/
theorem dropCommon_snd_suffix (as bs : List Text) : (dropCommon as bs).2 <:+ bs := by
  fun_induction dropCommon as bs with
  | case1 as b bs ih => exact ih.trans (List.suffix_cons _ _)
  | case2 => exact List.suffix_refl _
  | case3 => exact List.suffix_refl _

variable {c : Char}

/-- A character that no part has is not in the path, if it is neither a slash nor a dot. -/
theorem not_mem_ofParts {ps : List Text} (hslash : c ≠ '/') (hdot : c ≠ '.')
    (h : ∀ part ∈ ps, c ∉ part) : c ∉ ofParts ps := by
  intro hc
  unfold ofParts at hc
  split at hc
  · exact hdot (List.mem_singleton.1 hc)
  · rcases Text.mem_join hc with hc | ⟨part, hp, hc⟩
    · exact hslash (List.mem_singleton.1 hc)
    · exact h part hp hc

/-- **The path of a target has no characters but those of the target, slashes and dots.** -/
theorem not_mem_relative (hslash : c ≠ '/') (hdot : c ≠ '.') (cwd : Text) {target : Text}
    (h : c ∉ target) : c ∉ relative cwd target := by
  refine not_mem_ofParts hslash hdot fun part hpart hc => ?_
  rcases List.mem_append.1 hpart with hpart | hpart
  · obtain ⟨_, -, rfl⟩ := List.mem_map.1 hpart
    simp [up, hdot] at hc
  · exact h (subset_of_mem_parts ((dropCommon_snd_suffix _ _).subset hpart) hc)

/-- **The path of an entry's page has no characters but those of the directory and of the page's
name, slashes and dots.** -/
theorem not_mem_entryPage (hslash : c ≠ '/') (hdigit : c.isDigit = false)
    (hname : c ∉ ".html".toList) (address : UInt16) {directory : Text} (h : c ∉ directory) :
    c ∉ entryPage address directory := by
  have hdot : c ≠ '.' := by
    rintro rfl
    exact hname (by decide)
  refine not_mem_ofParts hslash hdot fun part hpart hc => ?_
  rcases Text.mem_join (subset_of_mem_parts hpart hc) with hc | ⟨part, hpart, hc⟩
  · exact hslash (List.mem_singleton.1 hc)
  · rcases List.mem_cons.1 (List.mem_filter.1 hpart).1 with rfl | hpart
    · exact h hc
    · rw [List.mem_singleton.1 hpart, List.mem_append] at hc
      rcases hc with hc | hc
      · exact Numeral.not_mem_decimal hdigit _ hc
      · exact hname hc

end MemoryDoc.Site.Path
