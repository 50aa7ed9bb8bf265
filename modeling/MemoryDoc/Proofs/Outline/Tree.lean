/-
# Outlines of file trees

The outline of a file tree is the tree with nothing in its files.  Following paths, making
directories and making files look at names and at what is a file, and never into files.

Main statements: a store in a file tree answers and is written to without looking at contents
(`Store.Directory.blind`, `Store.Directory.writesBlindly`), so that pictures are written to it
without looking at colours (`Environment.blind_directory`).
-/
import MemoryDoc.Proofs.Outline.Store
import MemoryDoc.Store.Directory

namespace MemoryDoc

namespace Node

mutual

/-- The node with nothing in its files. -/
def outline : Node → Node
  | directory entries => directory (outlineAll entries)
  | file _ => file .empty
  | sink full => sink full

/-- The entries of a directory with nothing in their files. -/
def outlineAll : (entries : List (Text × Node)) → List (Text × Node)
  | [] => []
  | (name, n) :: entries => (name, n.outline) :: outlineAll entries

end

mutual

/-- An outline has nothing more to lose. -/
theorem outline_outline : (n : Node) → n.outline.outline = n.outline
  | directory entries => by rw [outline, outline, outlineAll_outlineAll entries]
  | file _ => by rw [outline, outline]
  | sink _ => by rw [outline, outline]

theorem outlineAll_outlineAll : (entries : List (Text × Node)) →
    outlineAll (outlineAll entries) = outlineAll entries
  | [] => by rw [outlineAll, outlineAll]
  | (_, n) :: entries => by
    rw [outlineAll, outlineAll, outline_outline n, outlineAll_outlineAll entries]

end

/-- The outlines of entries are those of their values. -/
theorem outlineAll_eq (entries : List (Text × Node)) :
    outlineAll entries = Dictionary.mapValues outline entries := by
  induction entries with
  | nil => simp [outlineAll, Dictionary.mapValues]
  | cons p entries ih =>
    obtain ⟨name, n⟩ := p
    rw [outlineAll, ih]
    rfl

@[simp] theorem entries_outline (n : Node) :
    n.outline.entries = n.entries.mapValues outline := by
  cases n with
  | directory entries => rw [outline, entries_directory, outlineAll_eq, entries_directory]
  | file contents => simp [outline, entries, Dictionary.mapValues]
  | sink full => simp [outline, entries, Dictionary.mapValues]

@[simp] theorem isDirectory_outline (n : Node) : n.outline.isDirectory = n.isDirectory := by
  cases n <;> rw [outline] <;> rfl

@[simp] theorem isFile_outline (n : Node) : n.outline.isFile = n.isFile := by
  cases n <;> rw [outline] <;> rfl

theorem outline_empty : empty.outline = empty := by
  rw [empty, outline, outlineAll]

/-- An entry is found in an outline as it is found before. -/
theorem find?_entries_outline (n : Node) (name : Text) :
    n.outline.entries.find? name = (n.entries.find? name).map outline := by
  rw [entries_outline, Dictionary.find?_mapValues]

/-- Putting a node at a place does not look into files. -/
theorem outline_put (n : Node) (place : Place) (new : Node) :
    (n.put place new).outline = n.outline.put place new.outline := by
  induction place generalizing n with
  | nil => rfl
  | cons name place ih =>
    have hinner : ((n.outline.entries.find? name).getD empty) =
        ((n.entries.find? name).getD empty).outline := by
      rw [find?_entries_outline]
      cases n.entries.find? name with
      | none => exact outline_empty.symm
      | some inner => rfl
    rw [put, put, hinner, ← ih, outline, outlineAll_eq, Dictionary.mapValues_set, entries_outline]

end Node

/-! ## Following paths -/

namespace Spot

/-- The spot in the outline of a tree. -/
def outline (s : Spot) : Spot where
  way := s.way.map fun (name, n) => (name, n.outline)
  node := s.node.outline

theorem outline_outline (s : Spot) : s.outline.outline = s.outline := by
  simp [outline, Node.outline_outline, Function.comp_def]

@[simp] theorem place_outline (s : Spot) : s.outline.place = s.place := by
  simp [place, outline, Function.comp_def]

theorem up_outline (s : Spot) : s.outline.up = s.up.outline := by
  obtain ⟨way, node⟩ := s
  cases way with
  | nil => rfl
  | cons p way => rfl

/-- Following a path does not look into files. -/
theorem outline_follow (s : Spot) (part : Text) :
    (s.follow part).map outline = s.outline.follow part := by
  unfold follow
  have hdirectory : s.outline.node.isDirectory = s.node.isDirectory := s.node.isDirectory_outline
  have hfind : s.outline.node.entries.find? part = (s.node.entries.find? part).map Node.outline :=
    s.node.find?_entries_outline part
  rw [hdirectory, hfind, up_outline]
  split
  · rfl
  · split
    · rfl
    · split
      · rfl
      · split
        · rfl
        · cases s.node.entries.find? part <;> rfl

theorem outline_foldlM_follow (s : Spot) (parts : List Text) :
    (parts.foldlM follow s).map outline = parts.foldlM follow s.outline := by
  induction parts generalizing s with
  | nil => rfl
  | cons part parts ih =>
    rw [List.foldlM_cons, List.foldlM_cons, ← outline_follow]
    cases s.follow part with
    | error e => rfl
    | ok s => exact ih s

end Spot

namespace FileTree

/-- The tree with nothing in its files. -/
def outline (t : FileTree) : FileTree :=
  { t with root := t.root.outline }

theorem outline_outline (t : FileTree) : t.outline.outline = t.outline := by
  unfold outline
  rw [Node.outline_outline]

theorem outline_start (t : FileTree) (path : Text) :
    (t.start path).map Spot.outline = t.outline.start path := by
  unfold start
  split
  · rfl
  · split
    · rfl
    · split
      · rfl
      · split
        · rfl
        · exact Spot.outline_foldlM_follow _ _

/-- A path leads to the outline of what it leads to before. -/
theorem outline_find (t : FileTree) (path : Text) :
    (t.find path).map Spot.outline = t.outline.find path := by
  unfold find
  rw [← outline_start]
  cases t.start path with
  | error e => rfl
  | ok s => exact Spot.outline_foldlM_follow s _

theorem outline_findLast (t : FileTree) (path : Text) :
    (t.findLast path).map (fun p => (p.1.outline, p.2)) = t.outline.findLast path := by
  unfold findLast
  rw [← outline_start]
  cases t.start path with
  | error e => rfl
  | ok s =>
    cases (partsOf path).reverse.dropWhile (· = []) with
    | nil => rfl
    | cons last before =>
      have hfollow := Spot.outline_foldlM_follow s (before.reverse ++ [Place.here])
      show Except.map _ ((before.reverse ++ [Place.here]).foldlM Spot.follow s >>= _) =
        ((before.reverse ++ [Place.here]).foldlM Spot.follow s.outline >>= _)
      rw [← hfollow]
      cases (before.reverse ++ [Place.here]).foldlM Spot.follow s <;> rfl

/-- What a path leads to in an outline is the outline of what it leads to before. -/
theorem node?_outline (t : FileTree) (path : Text) :
    t.outline.node? path = (t.node? path).map Node.outline := by
  rw [node?, node?, ← outline_find]
  cases t.find path <;> rfl

/-- The same paths lead to files. -/
theorem isFile_outline (t : FileTree) (path : Text) : t.outline.isFile path = t.isFile path := by
  rw [isFile, isFile, node?_outline]
  cases t.node? path with
  | none => rfl
  | some n => exact n.isFile_outline

theorem isDirectory_outline (t : FileTree) (path : Text) :
    t.outline.isDirectory path = t.isDirectory path := by
  rw [isDirectory, isDirectory, node?_outline]
  cases t.node? path with
  | none => rfl
  | some n => exact n.isDirectory_outline

theorem outline_put (t : FileTree) (s : Spot) (name : Text) (n : Node) :
    (t.put s name n).outline = t.outline.put s.outline name n.outline := by
  unfold put outline
  rw [Node.outline_put, Spot.place_outline]

/-! ## Making directories -/

/-- A directory is made in an outline if it is made before. -/
theorem outline_makeOne (t : FileTree) (path : Text) :
    (t.makeOne path).map outline = t.outline.makeOne path := by
  unfold makeOne
  rw [← outline_findLast]
  cases t.findLast path with
  | error e => rfl
  | ok found =>
    obtain ⟨s, name⟩ := found
    cases name with
    | none => rfl
    | some name =>
      simp only [Except.map, bind, Except.bind]
      rw [← Spot.outline_follow]
      cases s.follow name with
      | ok _ => rfl
      | error e =>
        cases e with
        | missing =>
          -- The only case in which the tree changes: a new directory, which is its own outline.
          have hput := t.outline_put s name .empty
          rw [Node.outline_empty] at hput
          exact congrArg Except.ok hput
        | _ => rfl

theorem ensureOne_outline (t : FileTree) (path : Text) :
    t.outline.ensureOne path = ((t.ensureOne path).1, (t.ensureOne path).2.outline) := by
  unfold ensureOne
  rw [← outline_makeOne, isDirectory_outline]
  cases t.makeOne path with
  | ok t => rfl
  | error e =>
    simp only [Except.map]
    split <;> rfl

/-- Directories are made from the outside in, after one of them turned out to be missing. -/
theorem ensureParts_eq (t : FileTree) {parts : List Text} (h : parts ≠ []) :
    t.ensureParts parts =
      match t.makeOne (Text.join "/" parts.reverse) with
      | .error .missing =>
        match t.ensureParts (above parts) with
        | (.ok (), t) => t.ensureOne (Text.join "/" parts.reverse)
        | (.error e, t) => (.error e, t)
      | _ => t.ensureOne (Text.join "/" parts.reverse) := by
  rw [ensureParts]
  exact dif_neg h

/-- Making directories does not look into files. -/
theorem ensureParts_outline (t : FileTree) (parts : List Text) :
    t.outline.ensureParts parts = ((t.ensureParts parts).1, (t.ensureParts parts).2.outline) := by
  induction hlen : parts.length using Nat.strongRecOn generalizing parts with
  | ind n ih =>
    by_cases h : parts = []
    · rw [ensureParts, dif_pos h, ensureParts, dif_pos h]
    · have hshort : (above parts).length < n := hlen ▸ length_above_lt h
      rw [ensureParts_eq _ h, ensureParts_eq _ h, ← outline_makeOne, ih _ hshort (above parts) rfl]
      cases t.makeOne (Text.join "/" parts.reverse) with
      | ok _ => exact ensureOne_outline t _
      | error e =>
        cases e with
        | missing =>
          obtain ⟨answer, t'⟩ := t.ensureParts (above parts)
          cases answer with
          | ok u => exact ensureOne_outline t' _
          | error e => rfl
        | _ => exact ensureOne_outline t _

/-- The directories above a path are made in both. -/
theorem ensureAbove_outline (t : FileTree) (path : Text) :
    t.outline.ensureAbove path = ((t.ensureAbove path).1, (t.ensureAbove path).2.outline) :=
  ensureParts_outline t _

/-! ## Writing files -/

/-- Making a file does not look into files, but a full sink only takes nothing. -/
theorem outline_write (t : FileTree) (path : Text) {contents contents' : Contents}
    (hempty : contents.isEmpty = contents'.isEmpty) :
    (t.write path contents).map outline = (t.outline.write path contents').map outline := by
  have hput (s : Spot) (name : Text) : (t.put s name (.file contents)).outline =
      (t.outline.put s.outline name (.file contents')).outline := by
    rw [outline_put, outline_put, outline_outline, Spot.outline_outline, Node.outline, Node.outline]
  unfold write
  rw [← outline_findLast]
  cases t.findLast path with
  | error e => rfl
  | ok found =>
    obtain ⟨s, name⟩ := found
    cases name with
    | none => rfl
    | some name =>
      simp only [Except.map, bind, Except.bind]
      by_cases hslash : path.getLast? = some '/'
      · rw [if_pos hslash, if_pos hslash]
        rfl
      · rw [if_neg hslash, if_neg hslash, ← Spot.outline_follow]
        cases s.follow name with
        | error e =>
          cases e with
          | missing => exact congrArg Except.ok (hput s name)
          | _ => rfl
        | ok inner =>
          obtain ⟨way, node⟩ := inner
          cases node with
          | directory entries => rfl
          | file _ => exact congrArg Except.ok (hput s name)
          | sink full =>
            -- A full sink takes nothing but nothing.
            show Except.map outline (if full && !contents.isEmpty then _ else _) =
              Except.map outline (if full && !contents'.isEmpty then _ else _)
            rw [hempty]
            split
            · rfl
            · exact congrArg Except.ok t.outline_outline.symm

/-- A file is read from an outline if it is read before, but there is nothing in it. -/
theorem read_outline (t : FileTree) (path : Text) :
    t.outline.read path = (t.read path).map fun _ => .empty := by
  unfold read
  rw [← outline_find]
  cases t.find path with
  | error e => rfl
  | ok s =>
    obtain ⟨way, node⟩ := s
    cases node with
    | directory entries => rfl
    | file contents => rfl
    | sink full => rfl

/-- Adding to a file does not look into it, and something is added. -/
theorem outline_append (t : FileTree) (path : Text) (piece piece' : Piece) :
    (t.append path piece).map outline = (t.outline.append path piece').map outline := by
  have hadd (contents : Contents) (piece : Piece) : (contents.add piece).isEmpty = false := by
    cases contents <;> simp [Contents.add, Contents.isEmpty]
  unfold append
  rw [read_outline]
  cases t.read path with
  | error e => rfl
  | ok contents => exact outline_write t path (by rw [hadd, hadd])

end FileTree

/-! ## Stores in file trees -/

namespace Store.Directory

/-- The trees have the same outline. -/
def SameOutline (t t' : FileTree) : Prop :=
  t.outline = t'.outline

variable {t t' : FileTree}

/-- An attempt that fails changes nothing in either. -/
theorem agree_attempt {result result' : Except TreeError FileTree} (h : SameOutline t t')
    (hresult : result.map FileTree.outline = result'.map FileTree.outline) :
    Agree SameOutline (attempt t result) (attempt t' result') := by
  rcases exists_of_map_eq hresult with ⟨e, rfl, rfl⟩ | ⟨after, after', rfl, rfl, hafter⟩
  · exact ⟨rfl, h⟩
  · exact ⟨rfl, hafter⟩

theorem agree_ensureAbove (h : SameOutline t t') (path : Text) :
    Agree SameOutline (t.ensureAbove path) (t'.ensureAbove path) := by
  have habove := t.ensureAbove_outline path
  have habove' := t'.ensureAbove_outline path
  unfold SameOutline at h
  rw [← h, habove, Prod.mk.injEq] at habove'
  exact habove'

theorem agree_openPath (d : Directory) (h : SameOutline t t') (path : Text) :
    Agree SameOutline (d.openPath t path) (d.openPath t' path) := by
  obtain ⟨answer, after, after', habove, habove', hafter⟩ :=
    (agree_ensureAbove h (d.pathOf path)).exists_eq
  rw [openPath, openPath, habove, habove']
  cases answer with
  | error e => exact ⟨rfl, hafter⟩
  | ok u =>
    refine agree_attempt hafter ?_
    unfold SameOutline at hafter
    rw [after.outline_write _ rfl, after'.outline_write _ rfl, hafter]

/-- **A store in a file tree answers without looking into files.** -/
theorem blind (d : Directory) : d.store.Blind SameOutline where
  has t t' path h := by
    show t.isFile (d.pathOf path) = t'.isFile (d.pathOf path)
    rw [← t.isFile_outline, h, t'.isFile_outline]
  openFile _ _ path h := agree_openPath d h path
  flush _ _ _ h := ⟨rfl, h⟩

/-- **A store in a file tree takes or refuses whatever is written.** -/
theorem writesBlindly (d : Directory) : d.store.WritesBlindly SameOutline := by
  intro t t' path piece piece' h
  refine agree_attempt h ?_
  rw [t.outline_append _ piece piece, t'.outline_append _ piece' piece, h]

end Store.Directory

/-- **Pictures that are encoded into files of a tree are written without looking at colours.** -/
theorem Environment.blind_directory (site : Site) (functions : Dictionary Callable)
    (d : Store.Directory) :
    Environment.Blind ⟨site, functions, d.store, Encoding.ofFrames⟩ Store.Directory.SameOutline :=
  blind_of_store d.blind d.writesBlindly fun format _ _ h => Encoding.alike_ofFrames format h

end MemoryDoc
