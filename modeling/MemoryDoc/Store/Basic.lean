/-
# Stores

A store is where picture files go.  It is given by what can be done with the files in it: asking
whether a path exists, opening it, which makes it an empty file, writing to an open file, and
finishing it.  Whatever fails may have changed the files all the same.

Main statements: a path that does not exist is needed, and in a store that replaces its files every
path is (`needs_eq_true_iff`); what writing a piece keeps, encoding keeps (`encode_induction`); where
paths come to exist by being opened only, what exists later was opened or existed before
(`Later.mem_or_has`).
-/
import MemoryDoc.Picture.File

namespace MemoryDoc

/-- What can be done with files in the state `σ`.  Failures are told in words. -/
structure Store (σ : Type) where
  /-- Files are written even if they exist. -/
  replaces : Bool
  has : (files : σ) → (path : Text) → Bool
  openFile : (files : σ) → (path : Text) → Except Text Unit × σ
  write : (files : σ) → (path : Text) → Piece → Except Text Unit × σ
  flush : (files : σ) → (path : Text) → Except Text Unit × σ

namespace Store

variable {σ : Type}

/-- The file of a path is to be written. -/
def needs (s : Store σ) (files : σ) (path : Text) : Bool :=
  s.replaces || !s.has files path

/-- Write pieces to an open file, up to the first that is refused. -/
def writeAll (s : Store σ) (path : Text) : (files : σ) → List Piece → Except Text Unit × σ
  | files, [] => (.ok (), files)
  | files, piece :: pieces =>
    match s.write files path piece with
    | (.ok (), files) => writeAll s path files pieces
    | (.error reason, files) => (.error reason, files)

/-- What writing a piece keeps of the files, writing all keeps. -/
theorem writeAll_induction {s : Store σ} {path : Text} {P : σ → Prop}
    (hwrite : ∀ files piece, P files → P (s.write files path piece).2) (pieces : List Piece)
    {files : σ} (h : P files) : P (s.writeAll path files pieces).2 := by
  induction pieces generalizing files with
  | nil => exact h
  | cons piece pieces ih =>
    have hpiece := hwrite files piece h
    rw [writeAll]
    split
    · next hw =>
      rw [hw] at hpiece
      exact ih hpiece
    · next hw =>
      rw [hw] at hpiece
      exact hpiece

/-- Write an encoding to an open file, and say how it ended. -/
def encode (s : Store σ) (path : Text) (files : σ) (encoding : Encoding) :
    Except PictureError (List Piece) × σ :=
  match s.writeAll path files encoding.pieces with
  | (.error reason, files) => (.error (.refused reason), files)
  | (.ok (), files) => (encoding.outcome.map fun _ => encoding.pieces, files)

/-- What every piece that is written keeps is kept by the encoding. -/
theorem encode_induction {s : Store σ} {path : Text} {P : σ → Prop}
    (hwrite : ∀ files piece, P files → P (s.write files path piece).2) (encoding : Encoding)
    {files : σ} (h : P files) : P (s.encode path files encoding).2 := by
  have hall := writeAll_induction hwrite encoding.pieces h
  rw [encode]
  split
  · next hw =>
    rw [hw] at hall
    exact hall
  · next hw =>
    rw [hw] at hall
    exact hall

/-- A picture is needed where files are replaced or there is none yet. -/
theorem needs_eq_true_iff (s : Store σ) (files : σ) (path : Text) :
    s.needs files path = true ↔ s.replaces = true ∨ s.has files path = false := by
  simp [needs]

/-! ## What becomes of files -/

/-- The files that a store comes to while these paths are opened, one after the other.  Paths that
cannot be opened, and what is written and finished, leave no trace but may change the files. -/
inductive Later (store : Store σ) (files : σ) : (paths : List Text) → (files' : σ) → Prop where
  | refl : Later store files [] files
  | opened {paths : List Text} {files' : σ} (path : Text) (h : Later store files paths files')
      (hopen : (store.openFile files' path).1 = .ok ()) :
      Later store files (paths ++ [path]) (store.openFile files' path).2
  | closed {paths : List Text} {files' : σ} (path : Text) (h : Later store files paths files')
      (hopen : (store.openFile files' path).1 ≠ .ok ()) :
      Later store files paths (store.openFile files' path).2
  | write {paths : List Text} {files' : σ} (path : Text) (piece : Piece)
      (h : Later store files paths files') :
      Later store files paths (store.write files' path piece).2
  | flush {paths : List Text} {files' : σ} (path : Text) (h : Later store files paths files') :
      Later store files paths (store.flush files' path).2

/-- A path that is opened after some files exists from then on. -/
def KeepsOpened (store : Store σ) (files : σ) : Prop :=
  ∀ ⦃paths files'⦄, store.Later files paths files' → ∀ path ∈ paths, store.has files' path = true

/-- A path exists, and nothing that is done later takes it away. -/
def Lasts (store : Store σ) (files : σ) (path : Text) : Prop :=
  ∀ ⦃paths files'⦄, store.Later files paths files' → store.has files' path = true

/-- No path comes to exist but by being opened. -/
structure OpensOnly (store : Store σ) : Prop where
  openFile : ∀ files path p, store.has (store.openFile files path).2 p = true →
    p = path ∧ (store.openFile files path).1 = .ok () ∨ store.has files p = true
  write : ∀ files path piece p, store.has (store.write files path piece).2 p = true →
    store.has files p = true
  flush : ∀ files path p, store.has (store.flush files path).2 p = true →
    store.has files p = true

namespace Later

variable {store : Store σ} {files files₁ files₂ : σ} {paths₁ paths₂ : List Text}

/-- Files that are later than later ones are later, with all paths that were opened in between. -/
theorem trans (h₁ : store.Later files paths₁ files₁) (h₂ : store.Later files₁ paths₂ files₂) :
    store.Later files (paths₁ ++ paths₂) files₂ := by
  induction h₂ with
  | refl =>
    rw [List.append_nil]
    exact h₁
  | opened path _ hopen ih =>
    rw [← List.append_assoc]
    exact ih.opened path hopen
  | closed path _ hopen ih => exact ih.closed path hopen
  | write path piece _ ih => exact ih.write path piece
  | flush path _ ih => exact ih.flush path

/-- A path that is opened is the only one. -/
theorem of_openFile {path : Text} (h : store.openFile files path = (.ok (), files₁)) :
    store.Later files [path] files₁ := by
  have hopened : _ → store.Later files ([] ++ [path]) (store.openFile files path).2 :=
    Later.opened path .refl
  rw [h] at hopened
  exact hopened rfl

/-- A path that cannot be opened leaves no trace. -/
theorem of_openFile_error {path reason : Text}
    (h : store.openFile files path = (.error reason, files₁)) : store.Later files [] files₁ := by
  have hclosed : _ → store.Later files [] (store.openFile files path).2 := Later.closed path .refl
  rw [h] at hclosed
  exact hclosed nofun

/-- Encoding opens no path. -/
theorem encode (h : store.Later files paths₁ files₁) (path : Text) (encoding : Encoding) :
    store.Later files paths₁ (store.encode path files₁ encoding).2 :=
  encode_induction (P := store.Later files paths₁) (fun _ piece hlater => hlater.write path piece)
    encoding h

/-- **What exists later was opened or existed before,** where no path comes to exist otherwise. -/
theorem mem_or_has (hstore : store.OpensOnly) (h : store.Later files paths₁ files₁) {p : Text}
    (hp : store.has files₁ p = true) : p ∈ paths₁ ∨ store.has files p = true := by
  induction h with
  | refl => exact .inr hp
  | opened path _ _ ih =>
    rw [List.mem_append, List.mem_singleton]
    rcases hstore.openFile _ path p hp with ⟨rfl, -⟩ | hbefore
    · exact .inl (.inr rfl)
    · exact (ih hbefore).imp_left .inl
  | closed path _ hopen ih =>
    rcases hstore.openFile _ path p hp with ⟨-, hopened⟩ | hbefore
    · exact absurd hopened hopen
    · exact ih hbefore
  | write path piece _ ih => exact ih (hstore.write _ path piece p hp)
  | flush path _ ih => exact ih (hstore.flush _ path p hp)

end Later

end Store

end MemoryDoc
