/-
# Stores that look at no contents

What a store answers may depend on which files were opened, written to and finished, but not on what
was written.  Likewise, whether an encoder succeeds may depend on the format and on the sizes of the
frames, but not on their colours.

Main statements: frames of the same sizes are encoded alike (`Encoding.alike_ofFrames`), and in a
store that looks at no contents they are written alike (`Environment.blind_of_store`).  Listed
stores are such stores (`Store.Listed.blind`).
-/
import MemoryDoc.Session
import MemoryDoc.Store.Listed

namespace MemoryDoc

/-- Two computations give the same, and related states. -/
def Agree {α σ τ : Type} (Rel : σ → τ → Prop) (x : α × σ) (x' : α × τ) : Prop :=
  x.1 = x'.1 ∧ Rel x.2 x'.2

/-- Computations that agree come to one answer. -/
theorem Agree.exists_eq {α σ τ : Type} {Rel : σ → τ → Prop} {x : α × σ} {x' : α × τ}
    (h : Agree Rel x x') : ∃ answer s s', x = (answer, s) ∧ x' = (answer, s') ∧ Rel s s' := by
  obtain ⟨answer, s⟩ := x
  obtain ⟨answer', s'⟩ := x'
  obtain ⟨heq, hrel⟩ := h
  cases heq
  exact ⟨answer, s, s', rfl, rfl, hrel⟩

/-- Results that are the same in outline are the same error, or both are there. -/
theorem exists_of_map_eq {ε α β : Type} {f : α → β} {x x' : Except ε α} (h : x.map f = x'.map f) :
    (∃ e, x = .error e ∧ x' = .error e) ∨
      ∃ a a', x = .ok a ∧ x' = .ok a' ∧ f a = f a' := by
  cases x with
  | error e =>
    cases x' with
    | error e' =>
      cases h
      exact .inl ⟨e, rfl, rfl⟩
    | ok a' => cases h
  | ok a =>
    cases x' with
    | error e' => cases h
    | ok a' => exact .inr ⟨a, a', rfl, rfl, Except.ok.inj h⟩

/-- The width and the height of a frame. -/
def Frame.size (f : Frame) : Nat × Nat :=
  (f.width, f.height)

namespace Store

variable {σ : Type}

/-- What a store answers is the same in related states, which stay related. -/
structure Blind (store : Store σ) (Rel : σ → σ → Prop) : Prop where
  has : ∀ ⦃files files'⦄ path, Rel files files' → store.has files path = store.has files' path
  openFile : ∀ ⦃files files'⦄ path, Rel files files' →
    Agree Rel (store.openFile files path) (store.openFile files' path)
  flush : ∀ ⦃files files'⦄ path, Rel files files' →
    Agree Rel (store.flush files path) (store.flush files' path)

/-- Related states stay related whatever is written, and refuse it alike. -/
def WritesBlindly (store : Store σ) (Rel : σ → σ → Prop) : Prop :=
  ∀ ⦃files files'⦄ path piece piece', Rel files files' →
    Agree Rel (store.write files path piece) (store.write files' path piece')

end Store

namespace Environment

variable {σ : Type}

/-- Write a picture of frames to an open file. -/
def writePicture (env : Environment σ) (path : Text) (format : PictureFormat)
    (frames : List Frame) (files : σ) : Except PictureError Unit × σ :=
  match env.store.encode path files (env.encoding format frames) with
  | (outcome, files) => (outcome.map fun _ => (), files)

/-- What the store answers is the same in related states.  Whether a picture can be written to an
open file depends on the sizes of its frames and on the format, and not on its colours. -/
structure Blind (env : Environment σ) (Rel : σ → σ → Prop) : Prop where
  store : env.store.Blind Rel
  writePicture : ∀ ⦃files files'⦄ path format ⦃frames frames'⦄,
    frames.map Frame.size = frames'.map Frame.size → Rel files files' →
      Agree Rel (env.writePicture path format frames files)
        (env.writePicture path format frames' files')

end Environment

/-! ## Encodings of the same sizes -/

/-- Two encodings have as many pieces and end alike. -/
structure Encoding.Alike (e e' : Encoding) : Prop where
  length_pieces : e.pieces.length = e'.pieces.length
  outcome : e.outcome = e'.outcome

namespace Encoding

/-- Frames of the same sizes are encoded alike. -/
theorem alike_animation {frames frames' : List Frame}
    (h : frames.map Frame.size = frames'.map Frame.size) :
    Alike (animation frames) (animation frames') := by
  induction frames generalizing frames' with
  | nil =>
    cases frames' with
    | nil => exact ⟨rfl, rfl⟩
    | cons _ _ => cases h
  | cons f frames ih =>
    cases frames' with
    | nil => cases h
    | cons f' frames' =>
      rw [List.map_cons, List.map_cons, List.cons.injEq] at h
      obtain ⟨hsize, hmore⟩ := h
      obtain ⟨hlen, houtcome⟩ := ih hmore
      obtain ⟨hwidth, hheight⟩ := Prod.mk.inj hsize
      rw [animation, animation, hwidth, hheight]
      split
      · exact ⟨by rw [List.length_cons, List.length_cons, hlen], houtcome⟩
      · exact ⟨rfl, rfl⟩

/-- A frame is empty if its size says so. -/
theorem findIdx?_isEmpty (frames : List Frame) :
    frames.findIdx? Frame.isEmpty =
      (frames.map Frame.size).findIdx? fun size => size.1 = 0 || size.2 = 0 := by
  rw [List.findIdx?_map]
  rfl

/-- **Frames of the same sizes are encoded alike.** -/
theorem alike_ofFrames (format : PictureFormat) {frames frames' : List Frame}
    (h : frames.map Frame.size = frames'.map Frame.size) :
    Alike (ofFrames format frames) (ofFrames format frames') := by
  unfold ofFrames
  rw [findIdx?_isEmpty, findIdx?_isEmpty, h]
  cases (frames'.map Frame.size).findIdx? fun size => size.1 = 0 || size.2 = 0 with
  | some n => exact ⟨rfl, rfl⟩
  | none =>
    cases frames with
    | nil =>
      cases frames' with
      | nil => exact ⟨rfl, rfl⟩
      | cons _ _ => cases h
    | cons f frames =>
      cases frames' with
      | nil => cases h
      | cons f' frames' =>
        cases format with
        | png => exact ⟨rfl, rfl⟩
        | gif => exact alike_animation h

end Encoding

/-! ## Writing to stores -/

section

variable {σ : Type} {store : Store σ} {Rel : σ → σ → Prop}

/-- As many pieces are written alike, whatever they are. -/
theorem Store.WritesBlindly.writeAll (h : store.WritesBlindly Rel) (path : Text)
    {pieces pieces' : List Piece} {files files' : σ} (hlen : pieces.length = pieces'.length)
    (hfiles : Rel files files') :
    Agree Rel (store.writeAll path files pieces) (store.writeAll path files' pieces') := by
  induction pieces generalizing pieces' files files' with
  | nil =>
    cases pieces' with
    | nil => exact ⟨rfl, hfiles⟩
    | cons _ _ => cases hlen
  | cons piece pieces ih =>
    cases pieces' with
    | nil => cases hlen
    | cons piece' pieces' =>
      obtain ⟨answer, after, after', hwrite, hwrite', hrel⟩ :=
        (h path piece piece' hfiles).exists_eq
      rw [Store.writeAll, Store.writeAll, hwrite, hwrite']
      cases answer with
      | error reason => exact ⟨rfl, hrel⟩
      | ok u => exact ih (Nat.succ.inj hlen) hrel

/-- Where all is written alike and frames of the same sizes are encoded alike, pictures of the same
sizes are written alike. -/
theorem Environment.agree_writePicture {env : Environment σ} (hwrite : env.store.WritesBlindly Rel)
    (hencoding : ∀ format ⦃frames frames'⦄, frames.map Frame.size = frames'.map Frame.size →
      (env.encoding format frames).Alike (env.encoding format frames'))
    (path : Text) (format : PictureFormat) {frames frames' : List Frame} {files files' : σ}
    (hsize : frames.map Frame.size = frames'.map Frame.size) (hfiles : Rel files files') :
    Agree Rel (env.writePicture path format frames files)
      (env.writePicture path format frames' files') := by
  obtain ⟨hlen, houtcome⟩ := hencoding format hsize
  obtain ⟨answer, after, after', hall, hall', hrel⟩ := (hwrite.writeAll path hlen hfiles).exists_eq
  unfold Environment.writePicture Store.encode
  rw [← houtcome, hall, hall']
  cases answer with
  | error reason => exact ⟨rfl, hrel⟩
  | ok u =>
    refine ⟨?_, hrel⟩
    cases (env.encoding format frames).outcome <;> rfl

/-- **Where nothing looks at contents, pictures of the same sizes are written alike.** -/
theorem Environment.blind_of_store {env : Environment σ} (h : env.store.Blind Rel)
    (hwrite : env.store.WritesBlindly Rel)
    (hencoding : ∀ format ⦃frames frames'⦄, frames.map Frame.size = frames'.map Frame.size →
      (env.encoding format frames).Alike (env.encoding format frames')) : env.Blind Rel where
  store := h
  writePicture _ _ path format _ _ hsize hfiles :=
    agree_writePicture hwrite hencoding path format hsize hfiles

end

namespace Store.Listed

theorem agree_self {α : Type} (x : α × List Text) : Agree Eq x x :=
  ⟨rfl, rfl⟩

/-- **A listed store looks at no contents,** since it keeps none. -/
theorem blind (l : Store.Listed) : l.store.Blind Eq where
  has _ _ _ h := by rw [h]
  openFile _ _ _ h := h ▸ agree_self _
  flush _ _ _ h := h ▸ agree_self _

/-- A list of files does not look at what is written. -/
theorem writesBlindly (l : Store.Listed) : l.store.WritesBlindly Eq := by
  rintro files _ path piece piece' rfl
  exact agree_self _

end Store.Listed

end MemoryDoc
