/-
# Sessions

A session is what macros change: the current memory and the saved ones, the frames that are kept
for animations, and the files of the store.  It also lists what happened to the store, in order.

A picture is written only if its file is needed.  A frame that is to be kept is drawn in any case,
and it is kept even if its file cannot be written.
-/
import MemoryDoc.Macro.PictureJob
import MemoryDoc.Store.Basic

namespace MemoryDoc

/-- What happened to the store. -/
inductive Event where
  /-- A file was opened. -/
  | opened (path : Text)
  /-- Frames were encoded for an open file.  The outcome is what was written, or why not all was. -/
  | encoded (path : Text) (format : PictureFormat) (frames : List Frame)
      (outcome : Except PictureError (List Piece))

/-- The path that was opened, if one was. -/
def Event.opened? : Event → Option Text
  | .opened path => some path
  | .encoded .. => none

/-- What stays the same while macros are expanded. -/
structure Environment (σ : Type) where
  site : Site
  /-- The functions that can be called by name. -/
  functions : Dictionary Callable
  store : Store σ
  /-- What an encoder writes.  It keeps no state: what it does with frames depends on the format and
  the frames only, and not on what it was called for before. -/
  encoding : PictureFormat → List Frame → Encoding

/-- What macros change. -/
structure Session (σ : Type) where
  memory : Memory.Stack
  /-- The frames that are kept for animations. -/
  frames : Dictionary Frame := []
  files : σ
  events : List Event := []

namespace Session

variable {σ : Type}

/-- The session in which nothing has happened. -/
def start (memory : Memory) (files : σ) : Session σ where
  memory := .ofMemory memory
  files := files

/-- The session in which something more has happened. -/
def record (s : Session σ) (event : Event) : Session σ :=
  { s with events := s.events ++ [event] }

/-- The paths that were opened, in order. -/
def opened (s : Session σ) : List Text :=
  s.events.filterMap Event.opened?

/-- Keep a frame under a name, if there is one. -/
def keep (s : Session σ) (name : Option Text) (frame : Frame) : Session σ :=
  match name with
  | some name => { s with frames := s.frames.set name frame }
  | none => s

@[simp] theorem memory_keep (s : Session σ) (name : Option Text) (frame : Frame) :
    (s.keep name frame).memory = s.memory := by
  cases name <;> rfl

@[simp] theorem files_keep (s : Session σ) (name : Option Text) (frame : Frame) :
    (s.keep name frame).files = s.files := by
  cases name <;> rfl

@[simp] theorem events_keep (s : Session σ) (name : Option Text) (frame : Frame) :
    (s.keep name frame).events = s.events := by
  cases name <;> rfl

/-! ## Writing pictures -/

/-- Finish the file that frames were encoded for. -/
def finish (env : Environment σ) (path : Text) (outcome : Except PictureError (List Piece))
    (s : Session σ) : Except PictureError Unit × Session σ :=
  match outcome with
  | .error e => (.error e, s)
  | .ok _ =>
    match env.store.flush s.files path with
    | (.error reason, files) => (.error (.unwritable path reason), { s with files })
    | (.ok (), files) => (.ok (), { s with files })

/-- Encode frames for an open file and finish it. -/
def encode (env : Environment σ) (path : Text) (format : PictureFormat) (frames : List Frame)
    (s : Session σ) : Except PictureError Unit × Session σ :=
  match env.store.encode path s.files (env.encoding format frames) with
  | (outcome, files) =>
    finish env path outcome ({ s with files }.record (.encoded path format frames outcome))

/-- Write frames to a file in the format that its name tells. -/
def write (env : Environment σ) (path : Text) (frames : List Frame) (s : Session σ) :
    Except PictureError Unit × Session σ :=
  match PictureFormat.ofPath? path with
  | none => (.error (.unsupportedFormat path), s)
  | some format =>
    match env.store.openFile s.files path with
    | (.error reason, files) => (.error (.unwritable path reason), { s with files })
    | (.ok (), files) => encode env path format frames ({ s with files }.record (.opened path))

/-- Write frames to a file for a macro. -/
def writeFor (env : Environment σ) (path : Text) (frames : List Frame) (s : Session σ) :
    Except MacroError Unit × Session σ :=
  match write env path frames s with
  | (.ok (), s) => (.ok (), s)
  | (.error e, s) => (.error (.picture e), s)

/-! ## Picture jobs -/

/-- The file of a still picture that is to be written now, if one is. -/
def wanted (env : Environment σ) (path : Option Text) (s : Session σ) : Option Text :=
  path.filter (env.store.needs s.files)

/-- Draw a picture, keep its frame and write it. -/
def draw (env : Environment σ) (drawing : Drawing) (keepAs path : Option Text) (s : Session σ) :
    Except MacroError Unit × Session σ :=
  match drawing.frame s.memory.current with
  | .error e => (.error (.tooLarge e), s)
  | .ok frame =>
    match path with
    | none => (.ok (), s.keep keepAs frame)
    | some path => writeFor env path [frame] (s.keep keepAs frame)

/-- Do what a macro left to be done for a picture. -/
def perform (env : Environment σ) (job : PictureJob) (s : Session σ) :
    Except MacroError Unit × Session σ :=
  match job with
  | .still drawing keepAs path =>
    match keepAs, wanted env path s with
    | none, none => (.ok (), s)
    | keepAs, path => draw env drawing keepAs path s
  | .animation cels arguments path =>
    if env.store.needs s.files path then
      match PictureJob.animationFrames s.frames arguments cels with
      | .error fault => (.error (.fault fault), s)
      | .ok frames => writeFor env path frames s
    else (.ok (), s)

/-- A still picture is drawn unless it is neither kept nor wanted. -/
theorem perform_still (env : Environment σ) (drawing : Drawing) (keepAs path : Option Text)
    (s : Session σ) :
    perform env (.still drawing keepAs path) s =
      if keepAs = none ∧ wanted env path s = none then (.ok (), s)
      else draw env drawing keepAs (wanted env path s) s := by
  cases keepAs with
  | none => cases h : wanted env path s <;> simp [perform, h]
  | some name => simp [perform]

end Session

end MemoryDoc
