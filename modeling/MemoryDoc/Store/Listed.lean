/-
# Listed stores

A listed store keeps no contents, only the paths that exist.  It can be told which paths fail when
they are opened, written or finished, and whether an opened path exists from then on.
-/
import MemoryDoc.Store.Basic

namespace MemoryDoc.Store

/-- How a listed store behaves. -/
structure Listed where
  replaces : Bool := false
  /-- A path that was opened exists from then on. -/
  persists : Bool := true
  /-- The paths that cannot be opened. -/
  closed : List Text := []
  /-- The paths that cannot be written to. -/
  unwritable : List Text := []
  /-- The paths that cannot be finished. -/
  unfinished : List Text := []
deriving DecidableEq, Repr

namespace Listed

/-- An operation that fails for the paths of a list and changes nothing. -/
def refusing (paths : List Text) (reason : Text) (files : List Text) (path : Text) :
    Except Text Unit × List Text :=
  if paths.contains path then (.error reason, files) else (.ok (), files)

/-- Open a path. -/
def openPath (l : Listed) (files : List Text) (path : Text) : Except Text Unit × List Text :=
  if l.closed.contains path then (.error "open refused", files)
  else (.ok (), if l.persists then files.insert path else files)

/-- The store over the paths that exist. -/
def store (l : Listed) : Store (List Text) where
  replaces := l.replaces
  has files path := files.contains path
  openFile := l.openPath
  write files path _ := refusing l.unwritable "write refused" files path
  flush := refusing l.unfinished "flush refused"

/-- Nothing that may be refused comes to other paths. -/
theorem refusing_snd (paths : List Text) (reason : Text) (files : List Text) (path : Text) :
    (refusing paths reason files path).2 = files := by
  unfold refusing
  split <;> rfl

/-- Opening a path comes to that path only, and that only if it can be opened. -/
theorem mem_openPath_snd {l : Listed} {files : List Text} {path p : Text} :
    p ∈ (l.openPath files path).2 ↔
      p ∈ files ∨ p = path ∧ (l.openPath files path).1 = .ok () ∧ l.persists = true := by
  unfold openPath
  split
  · simp
  · split
    · next hpersists => simp [hpersists, or_comm]
    · next hpersists => simp [hpersists]

/-- In a list of files, a path exists only if it was there or was opened. -/
theorem opensOnly (l : Listed) : l.store.OpensOnly where
  openFile files path p h := by
    rcases mem_openPath_snd.1 (List.contains_iff_mem.1 h) with hold | ⟨rfl, hopen, -⟩
    · exact .inr (List.contains_iff_mem.2 hold)
    · exact .inl ⟨rfl, hopen⟩
  write files path _ p h := by
    change (refusing l.unwritable "write refused" files path).2.contains p = true at h
    rwa [refusing_snd] at h
  flush files path p h := by
    change (refusing l.unfinished "flush refused" files path).2.contains p = true at h
    rwa [refusing_snd] at h

/-- **In a listed store in which opened paths persist they exist from then on.** -/
theorem keepsOpened {l : Listed} (hpersists : l.persists = true) (files : List Text) :
    l.store.KeepsOpened files := by
  intro paths files' h
  -- Only opening changes the list, and it takes nothing off it.
  induction h with
  | refl => exact fun path hpath => absurd hpath List.not_mem_nil
  | opened path _ hopen ih =>
    intro p hp
    refine List.contains_iff_mem.2 (mem_openPath_snd.2 ?_)
    rcases List.mem_append.1 hp with hp | hp
    · exact .inl (List.contains_iff_mem.1 (ih p hp))
    · exact .inr ⟨List.mem_singleton.1 hp, hopen, hpersists⟩
  | closed path _ _ ih =>
    exact fun p hp => List.contains_iff_mem.2
      (mem_openPath_snd.2 (.inl (List.contains_iff_mem.1 (ih p hp))))
  | @write _ files' path _ _ ih =>
    intro p hp
    change (refusing l.unwritable "write refused" files' path).2.contains p = true
    rw [refusing_snd]
    exact ih p hp
  | @flush _ files' path _ ih =>
    intro p hp
    change (refusing l.unfinished "flush refused" files' path).2.contains p = true
    rw [refusing_snd]
    exact ih p hp

/-- No listed path is taken away. -/
theorem lasts {l : Listed} {files : List Text} {path : Text} (h : path ∈ files) :
    l.store.Lasts files path := by
  intro paths files' hlater
  refine List.contains_iff_mem.2 ?_
  induction hlater with
  | refl => exact h
  | opened _ _ _ ih => exact mem_openPath_snd.2 (.inl ih)
  | closed _ _ _ ih => exact mem_openPath_snd.2 (.inl ih)
  | @write _ files' path _ _ ih =>
    change _ ∈ (refusing l.unwritable "write refused" files' path).2
    rwa [refusing_snd]
  | @flush _ files' path _ ih =>
    change _ ∈ (refusing l.unfinished "flush refused" files' path).2
    rwa [refusing_snd]

end Listed

end MemoryDoc.Store
