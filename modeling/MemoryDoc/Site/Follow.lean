/-
# Following paths

A path is followed from a place part by part.  Where it leads to is told by the parts that are left of
it, and these are the same for a path and for the shortest path to the same place.  The path of a
target from a directory goes back from the directory as far as the two differ, and then on to the
target.

Main statements: the parts that are left of a path lead nowhere back (`settled_parts`), the shortest
path has the same parts (`parts_normal`), and the path from a directory inside of the root leads to its
target (`leadsTo_relative`).
-/
import MemoryDoc.Site.Path

namespace MemoryDoc

/-- The parts of a text between separators have no separator in them. -/
theorem Text.not_mem_of_mem_splitOn {sep : Char} {t part : Text} (h : part ∈ t.splitOn sep) :
    sep ∉ part := by
  induction t generalizing part with
  | nil =>
    rw [List.splitOn_nil, List.mem_singleton] at h
    simp [h]
  | cons c t ih =>
    rw [List.splitOn_cons_eq_if_modifyHead] at h
    split at h
    · rcases List.mem_cons.1 h with rfl | h
      · simp
      · exact ih h
    · next hc =>
      obtain ⟨first, more, hparts⟩ := List.exists_cons_of_ne_nil (List.splitOn_ne_nil sep t)
      rw [hparts] at h ih
      rcases List.mem_cons.1 h with rfl | h
      · have hfirst := ih List.mem_cons_self
        have hne : sep ≠ c := fun heq => hc (by simp [heq])
        simp [hne, hfirst]
      · exact ih (List.mem_cons_of_mem _ h)

namespace Site.Path

/-- Parts that all lead on: none is without a meaning, and a part that leads back stands only behind
others that do, so that none takes back another. -/
structure Settled (ps : List Text) : Prop where
  leads : ∀ p ∈ ps, p ≠ [] ∧ p ≠ here
  back_first : ps.Pairwise fun p q => q = up → p = up

variable {place ps qs : List Text} {part path cwd target : Text}

/-- A place that is settled stays so without some of its parts. -/
theorem Settled.sublist (h : Settled qs) (hsub : ps.Sublist qs) : Settled ps where
  leads p hp := h.leads p (hsub.subset hp)
  back_first := h.back_first.sublist hsub

/-! ## Steps -/

/-- A part that leads on is added to the place. -/
theorem step_of_settled (h : Settled (place.reverse ++ [part])) :
    step place part = part :: place := by
  obtain ⟨hne, hhere⟩ := h.leads part (by simp)
  unfold step
  rw [if_neg (by simp [hne, hhere])]
  split
  · next last before =>
    have hlast : part = up → last = up :=
      (List.pairwise_append.1 h.back_first).2.2 last (by simp) part (by simp)
    rw [if_neg fun hback => hback.2 (hlast hback.1)]
  · rfl

/-- **Parts that lead on are added to the place, one after the other.** -/
theorem foldl_step_of_settled (h : Settled (place.reverse ++ ps)) :
    ps.foldl step place = ps.reverse ++ place := by
  induction ps generalizing place with
  | nil => rfl
  | cons part ps ih =>
    have hpart : Settled (place.reverse ++ [part]) := h.sublist (by simp)
    have hrest : Settled ((part :: place).reverse ++ ps) := by simpa using h
    rw [List.foldl_cons, step_of_settled hpart, ih hrest]
    simp

/-- A step leaves a place whose parts lead on. -/
theorem settled_step (h : Settled place.reverse) (part : Text) :
    Settled (step place part).reverse := by
  unfold step
  split
  · exact h
  · next hmeans =>
    rw [not_or] at hmeans
    split
    · next last before =>
      split
      · exact h.sublist (by simp)
      · next hback =>
        rw [List.reverse_cons] at h ⊢
        refine ⟨fun p hp => ?_, ?_⟩
        · rcases List.mem_append.1 hp with hp | hp
          · exact h.leads p (by simpa using hp)
          · exact List.mem_singleton.1 hp ▸ hmeans
        · refine List.pairwise_append.2 ⟨by simpa using h.back_first, by simp, ?_⟩
          intro p hp q hq hq'
          rw [List.mem_singleton.1 hq] at hq'
          have hlast : last = up := Classical.not_not.1 fun hlast => hback ⟨hq', hlast⟩
          -- The place ends with a part that leads back, so all of it does.
          rcases List.mem_append.1 (by simpa using hp : p ∈ before.reverse ++ [last]) with hp | hp
          · exact (List.pairwise_append.1 h.back_first).2.2 p hp last (by simp) hlast
          · rwa [List.mem_singleton.1 hp]
    · exact ⟨by simpa using hmeans, by simp⟩

/-- Following parts keeps a place settled. -/
theorem settled_foldl_step (h : Settled place.reverse) (ps : List Text) :
    Settled (ps.foldl step place).reverse := by
  induction ps generalizing place with
  | nil => exact h
  | cons part ps ih => exact ih (settled_step h part)

/-- **The parts that are left of a path lead on.** -/
theorem settled_parts (path : Text) : Settled (parts path) :=
  settled_foldl_step ⟨by simp, by simp⟩ _

/-- No part of a path has a slash. -/
theorem slash_not_mem_of_mem_parts (h : part ∈ parts path) : '/' ∉ part := by
  rw [parts, List.mem_reverse] at h
  rcases mem_of_mem_foldl_step h with h | h
  · cases h
  · exact Text.not_mem_of_mem_splitOn h

/-- As many steps back as a place has parts more, none of which leads back, lead to the place
without them. -/
theorem foldl_step_back (h : up ∉ ps) (place : List Text) :
    (ps.map fun _ => up).foldl step (ps ++ place) = place := by
  induction ps with
  | nil => rfl
  | cons part ps ih =>
    rw [List.mem_cons, not_or] at h
    have hstep : step (part :: (ps ++ place)) up = ps ++ place := by
      unfold step
      rw [if_neg (by decide)]
      exact if_pos ⟨rfl, Ne.symm h.1⟩
    rw [List.map_cons, List.foldl_cons, List.cons_append, hstep]
    exact ih h.2

/-! ## Paths -/

/-- The place that a path leads to from another. -/
def follow (place : List Text) (path : Text) : List Text :=
  (path.splitOn '/').foldl step place

/-- The parts of a path are where it leads from the root. -/
theorem parts_eq (path : Text) : parts path = (follow [] path).reverse := rfl

/-- A path of parts is followed part by part. -/
theorem follow_ofParts (h : ∀ p ∈ ps, '/' ∉ p) (place : List Text) :
    follow place (ofParts ps) = ps.foldl step place := by
  cases ps with
  | nil => rfl
  | cons p ps =>
    have hsplit : (ofParts (p :: ps)).splitOn '/' = p :: ps :=
      List.splitOn_intercalate '/' h (List.cons_ne_nil _ _)
    rw [follow, hsplit]

/-- Parts that lead on are those of their path. -/
theorem parts_ofParts (h : Settled ps) (hslash : ∀ p ∈ ps, '/' ∉ p) : parts (ofParts ps) = ps := by
  rw [parts_eq, follow_ofParts hslash, foldl_step_of_settled (by simpa using h)]
  simp

/-- **The shortest path has the parts of the path.** -/
theorem parts_normal (path : Text) : parts (normal path) = parts path :=
  parts_ofParts (settled_parts path) fun _ => slash_not_mem_of_mem_parts

/-- **The shortest path cannot be made shorter.** -/
theorem normal_normal (path : Text) : normal (normal path) = normal path :=
  congrArg ofParts (parts_normal path)

/-- Paths have the same parts if they have the same shortest path. -/
theorem parts_eq_of_normal_eq {path' : Text} (h : normal path = normal path') :
    parts path = parts path' := by
  rw [← parts_normal path, h, parts_normal]

/-- A path of slashes leads nowhere. -/
theorem follow_of_slashes (h : path.any (· ≠ '/') = false) (place : List Text) :
    follow place path = place := by
  have hempty : ∀ p ∈ path.splitOn '/', p = [] := by
    intro p hp
    refine List.eq_nil_iff_forall_not_mem.2 fun c hc => ?_
    have hslash : c = '/' := by
      simpa using List.any_eq_false.1 h c (Text.subset_of_mem_splitOn hp hc)
    exact Text.not_mem_of_mem_splitOn hp (hslash ▸ hc)
  unfold follow
  generalize path.splitOn '/' = ps at hempty
  induction ps with
  | nil => rfl
  | cons p ps ih =>
    rw [List.foldl_cons, hempty p List.mem_cons_self]
    exact ih fun q hq => hempty q (List.mem_cons_of_mem _ hq)

/-- **Joined paths are followed one after the other.** -/
theorem parts_join (cwd path : Text) :
    parts (join [cwd, path]) = (follow (parts cwd).reverse path).reverse := by
  have hcwd : (parts cwd).reverse = follow [] cwd := List.reverse_reverse _
  have hboth (front behind : Text) :
      follow [] (front ++ '/' :: behind) = follow (follow [] front) behind := by
    rw [follow, List.splitOn_append_cons_self, List.foldl_append]
    rfl
  rw [hcwd, parts_eq, join]
  -- A path of slashes only is left out of a join.
  cases hfront : cwd.any (· ≠ '/') <;> cases hbehind : path.any (· ≠ '/')
  · rw [follow_of_slashes hfront, follow_of_slashes hbehind]
    simp only [List.filter_cons, hfront, hbehind]
    rfl
  · rw [follow_of_slashes hfront]
    simp only [List.filter_cons, hfront, hbehind]
    simp [Text.join]
  · rw [follow_of_slashes hbehind]
    simp only [List.filter_cons, hfront, hbehind]
    simp [Text.join]
  · rw [← hboth]
    simp only [List.filter_cons, hfront, hbehind]
    simp [Text.join]

/-! ## Relative paths -/

/-- What two lists both start with, and what `dropCommon` leaves of them. -/
theorem exists_common (as bs : List Text) :
    ∃ common, as = common ++ (dropCommon as bs).1 ∧ bs = common ++ (dropCommon as bs).2 := by
  fun_induction dropCommon as bs with
  | case1 as b bs ih =>
    obtain ⟨common, has, hbs⟩ := ih
    exact ⟨b :: common, congrArg (b :: ·) has, congrArg (b :: ·) hbs⟩
  | case2 => exact ⟨[], rfl, rfl⟩
  | case3 => exact ⟨[], rfl, rfl⟩

/-- The parts of the path of a target: steps back from the directory, and parts of the target. -/
def relativeParts (cwd target : Text) : List Text :=
  (dropCommon (parts cwd) (parts target)).1.map (fun _ => up) ++
    (dropCommon (parts cwd) (parts target)).2

theorem relative_eq (cwd target : Text) : relative cwd target = ofParts (relativeParts cwd target) :=
  rfl

/-- What a directory and a target have in common is passed over. -/
theorem exists_relativeParts (cwd target : Text) :
    ∃ common back on, parts cwd = common ++ back ∧ parts target = common ++ on ∧
      relativeParts cwd target = back.map (fun _ => up) ++ on := by
  obtain ⟨common, hcwd, htarget⟩ := exists_common (parts cwd) (parts target)
  exact ⟨common, _, _, hcwd, htarget, rfl⟩

/-- No part of a relative path has a slash. -/
theorem slash_not_mem_of_mem_relativeParts (h : part ∈ relativeParts cwd target) : '/' ∉ part := by
  rcases List.mem_append.1 h with h | h
  · obtain ⟨_, -, rfl⟩ := List.mem_map.1 h
    decide
  · exact slash_not_mem_of_mem_parts ((dropCommon_snd_suffix _ _).subset h)

/-- A relative path is settled: it goes up first and then down. -/
theorem settled_relativeParts (cwd target : Text) : Settled (relativeParts cwd target) := by
  have hon := (settled_parts target).sublist
    (dropCommon_snd_suffix (parts cwd) (parts target)).sublist
  have hback : ∀ p ∈ (dropCommon (parts cwd) (parts target)).1.map (fun _ => up), p = up := by
    intro p hp
    obtain ⟨_, -, rfl⟩ := List.mem_map.1 hp
    rfl
  refine ⟨fun p hp => ?_, List.pairwise_append.2 ⟨?_, hon.back_first, fun p hp _ _ _ => hback p hp⟩⟩
  · rcases List.mem_append.1 hp with hp | hp
    · rw [hback p hp]
      decide
    · exact hon.leads p hp
  · exact List.pairwise_of_forall_mem_list fun p hp _ _ _ => hback p hp

/-- **The path of a target cannot be made shorter.** -/
theorem normal_relative (cwd target : Text) : normal (relative cwd target) = relative cwd target :=
  congrArg ofParts <| parts_ofParts (settled_relativeParts cwd target) fun _ =>
    slash_not_mem_of_mem_relativeParts

/-- **The path of a target is told by the shortest paths.** -/
theorem relative_congr {cwd' target' : Text} (hcwd : normal cwd = normal cwd')
    (htarget : normal target = normal target') : relative cwd target = relative cwd' target' := by
  rw [relative_eq, relative_eq, relativeParts, relativeParts, parts_eq_of_normal_eq hcwd,
    parts_eq_of_normal_eq htarget]

/-- A place is inside of the root if its shortest path does not lead back. -/
def Inside (path : Text) : Prop :=
  up ∉ (normal path).splitOn '/'

/-- A path is inside if no going up is left of it. -/
theorem inside_iff : Inside path ↔ up ∉ parts path := by
  unfold Inside normal ofParts
  split
  · next hnone =>
    rw [List.isEmpty_iff.1 hnone]
    decide
  · next hsome =>
    have hsplit : (Text.join "/" (parts path)).splitOn '/' = parts path :=
      List.splitOn_intercalate '/' (fun _ => slash_not_mem_of_mem_parts) (by simpa using hsome)
    rw [hsplit]

instance : Decidable (Inside path) :=
  inferInstanceAs (Decidable (up ∉ (normal path).splitOn '/'))

/-- A path leads from a directory to a target. -/
def LeadsTo (cwd path target : Text) : Prop :=
  normal (join [cwd, path]) = normal target

/-- **The path of a target leads to it,** from every directory inside of the root. -/
theorem leadsTo_relative (h : Inside cwd) (target : Text) :
    LeadsTo cwd (relative cwd target) target := by
  refine congrArg ofParts ?_
  obtain ⟨common, back, on, hcwd, htarget, hrelative⟩ := exists_relativeParts cwd target
  -- Only from inside of the root does a step back take back a part of the directory.
  have hback : up ∉ back.reverse := by
    intro hmem
    rw [List.mem_reverse] at hmem
    exact inside_iff.1 h (hcwd ▸ List.mem_append_right _ hmem)
  have hups : back.map (fun _ => up) = back.reverse.map fun _ => up := by
    rw [List.map_reverse, List.map_const', List.reverse_replicate]
  have hsettled : Settled (common.reverse.reverse ++ on) := by
    rw [List.reverse_reverse, ← htarget]
    exact settled_parts target
  rw [parts_join, relative_eq, follow_ofParts fun _ => slash_not_mem_of_mem_relativeParts, hrelative,
    List.foldl_append, hcwd, List.reverse_append, hups, foldl_step_back hback,
    foldl_step_of_settled hsettled, List.reverse_append, List.reverse_reverse, List.reverse_reverse,
    htarget]

end Site.Path

end MemoryDoc
