/-
# Expansions one after the other

The texts of a site are expanded one after the other in one session.  An expansion that fails leaves
the session as it was at the failure, and the next expansion goes on from there.

The history of a session is the macros that it comes to.  Two environments are compared macro by
macro.  What holds of every single macro holds of whole runs.

Main statements: what every macro keeps, a session and its history keep (`reachedAll_induction`); if
every macro comes to the same in two environments and keeps a relation between the sessions, so do
all expansions one after the other (`expandAll_of_simulates`).
-/
import MemoryDoc.Expansion

namespace MemoryDoc

/-- A text to be expanded, and the directory of its page. -/
structure Call where
  text : Text
  cwd : Text
deriving DecidableEq, Repr

/-- A macro that an expansion comes to: the letters of its name, the text behind them, and the
session in which it is run. -/
structure Dispatch (σ : Type) where
  letters : Text
  arguments : Text
  session : Session σ

/-- A macro that a session comes to, and the directory of the page that it is on. -/
structure Turn (σ : Type) extends Dispatch σ where
  cwd : Text

/-- The environment with another store. -/
def Environment.withStore {σ τ : Type} (env : Environment σ) (store : Store τ) : Environment τ where
  site := env.site
  functions := env.functions
  store := store
  encoding := env.encoding

/-- The environment of a site with the usual settings that documents an empty memory. -/
def Environment.usual {σ : Type} (store : Store σ) : Environment σ where
  site := ⟨{}, { memory := .zeros }⟩
  functions := []
  store := store
  encoding := Encoding.ofFrames

namespace Session

variable {σ τ : Type}

/-! ## Runs -/

/-- Expand texts one after the other.  There is no answer if one of them takes more than `fuel`
steps. -/
def expandAll (env : Environment σ) (fuel : Nat) :
    (calls : List Call) → Session σ → Option (List (Except ExpansionError Text) × Session σ)
  | [], s => some ([], s)
  | call :: calls, s =>
    match expand env call.cwd fuel call.text s with
    | none => none
    | some (answer, s) =>
      (expandAll env fuel calls s).map fun (answers, s) => (answer :: answers, s)

deriving instance DecidableEq for Except

/-- Expansions come to a session if they come to answers. -/
theorem exists_expandAll_eq_some {env : Environment σ} {fuel : Nat} {calls : List Call}
    {s : Session σ} {answers : List (Except ExpansionError Text)}
    (h : (expandAll env fuel calls s).map (·.1) = some answers) :
    ∃ t, expandAll env fuel calls s = some (answers, t) := by
  obtain ⟨⟨_, t⟩, hrun, rfl⟩ := Option.map_eq_some_iff.1 h
  exact ⟨t, hrun⟩

theorem eq_ok_of_toOption {ε α : Type} {result : Except ε α} {a : α}
    (h : result.toOption = some a) : result = .ok a := by
  cases result with
  | error e => cases h
  | ok b =>
    cases h
    rfl

/-- An expansion succeeds if it gives a text. -/
theorem exists_expand_eq {env : Environment σ} {cwd t answer : Text} {fuel : Nat} {s : Session σ}
    (h : (expand env cwd fuel t s).map (·.1.toOption) = some (some answer)) :
    ∃ s', expand env cwd fuel t s = some (.ok answer, s') := by
  obtain ⟨⟨result, s'⟩, hrun, hanswer⟩ := Option.map_eq_some_iff.1 h
  obtain rfl := eq_ok_of_toOption hanswer
  exact ⟨s', hrun⟩

/-- All expansions succeed if they give texts. -/
theorem exists_expandAll_eq {env : Environment σ} {fuel : Nat} {calls : List Call} {s : Session σ}
    {texts : List Text}
    (h : (expandAll env fuel calls s).map (·.1.map Except.toOption) = some (texts.map some)) :
    ∃ t, expandAll env fuel calls s = some (texts.map .ok, t) := by
  obtain ⟨⟨answers, t⟩, ha, hanswers⟩ := Option.map_eq_some_iff.1 h
  refine ⟨t, ?_⟩
  rw [ha, Option.some.injEq, Prod.mk.injEq]
  refine ⟨?_, rfl⟩
  refine List.ext_getElem (by simpa using congrArg List.length hanswers) fun i hi hi' => ?_
  have hget := congrArg (·[i]?) hanswers
  simp only [List.getElem?_map, List.getElem?_eq_getElem hi, Option.map_some] at hget
  rw [List.getElem_map]
  rw [List.length_map] at hi'
  rw [List.getElem?_eq_getElem hi', Option.map_some, Option.some.injEq] at hget
  exact eq_ok_of_toOption hget

/-- The macros that an expansion comes to in its first `fuel` steps. -/
def dispatches (env : Environment σ) (cwd : Text) :
    (fuel : Nat) → (t : Text) → Session σ → List (Dispatch σ)
  | 0, _, _ => []
  | fuel + 1, t, s =>
    match Marker.find? t with
    | none => []
    | some (before, letters, arguments) =>
      ⟨letters, arguments, s⟩ ::
        match replace env cwd letters arguments s with
        | (.error _, _) => []
        | (.ok after, s) => dispatches env cwd fuel (before ++ after) s

/-- The session in which nothing has happened since it had some memories, frames and files. -/
def resume (memory : Memory.Stack) (frames : Dictionary Frame) (files : σ) : Session σ where
  memory := memory
  frames := frames
  files := files

/-- The expansion of a text never ends. -/
def Diverges (env : Environment σ) (cwd t : Text) (s : Session σ) : Prop :=
  ∀ fuel, expand env cwd fuel t s = none

/-! ## Histories -/

/-- Run a macro where a session comes to it. -/
def takeTurn (env : Environment σ) (d : Turn σ) : Except ExpansionError Text × Session σ :=
  replace env d.cwd d.letters d.arguments d.session

/-- The macros that an expansion comes to in its first `fuel` steps, in their places. -/
def turns (env : Environment σ) (cwd : Text) (fuel : Nat) (t : Text) (s : Session σ) :
    List (Turn σ) :=
  (dispatches env cwd fuel t s).map fun d => { d with cwd }

/-- The session that an expansion has come to after `fuel` steps, or at its end. -/
def reached (env : Environment σ) (cwd : Text) : (fuel : Nat) → (t : Text) → Session σ → Session σ
  | 0, _, s => s
  | fuel + 1, t, s =>
    match step env cwd t s with
    | .done => s
    | .failed _ s => s
    | .replaced before after s => reached env cwd fuel (before ++ after) s

/-- The macros that a session comes to while texts are expanded one after the other.  An expansion
that takes more than `fuel` steps is followed that far. -/
def history (env : Environment σ) (fuel : Nat) : (calls : List Call) → Session σ → List (Turn σ)
  | [], _ => []
  | call :: calls, s =>
    turns env call.cwd fuel call.text s ++
      match expand env call.cwd fuel call.text s with
      | none => []
      | some (_, s) => history env fuel calls s

/-- The session that this history leads to. -/
def reachedAll (env : Environment σ) (fuel : Nat) : (calls : List Call) → Session σ → Session σ
  | [], s => s
  | call :: calls, s =>
    match expand env call.cwd fuel call.text s with
    | none => reached env call.cwd fuel call.text s
    | some (_, s) => reachedAll env fuel calls s

section

variable {env : Environment σ} {cwd t : Text} {fuel : Nat} {s s' : Session σ}

/-- The session that an expansion ends in is the one that its turns reach. -/
theorem reached_of_expand {answer : Except ExpansionError Text}
    (h : expand env cwd fuel t s = some (answer, s')) : reached env cwd fuel t s = s' := by
  induction fuel generalizing t s with
  | zero => cases h
  | succ fuel ih =>
    rw [expand] at h
    rw [reached]
    cases hstep : step env cwd t s with
    | done =>
      rw [hstep] at h
      cases h
      rfl
    | failed e s₁ =>
      rw [hstep] at h
      cases h
      rfl
    | replaced before after s₁ =>
      rw [hstep] at h
      exact ih h

/-- A session leads to where its expansions end. -/
theorem reachedAll_of_expandAll {calls : List Call} {answers : List (Except ExpansionError Text)}
    (h : expandAll env fuel calls s = some (answers, s')) : reachedAll env fuel calls s = s' := by
  induction calls generalizing s answers with
  | nil =>
    cases h
    rfl
  | cons call calls ih =>
    rw [expandAll] at h
    rw [reachedAll]
    cases hexpand : expand env call.cwd fuel call.text s with
    | none =>
      rw [hexpand] at h
      cases h
    | some result =>
      rw [hexpand] at h
      obtain ⟨⟨rest, s₁⟩, hrest, heq⟩ := Option.map_eq_some_iff.1 h
      cases heq
      exact ih hrest

variable {P : List (Turn σ) → Session σ → Prop}

/-- What every turn keeps is kept by one expansion, whatever has been before. -/
theorem reached_induction (hstep : ∀ ds d, P ds d.session → P (ds ++ [d]) (takeTurn env d).2)
    (cwd : Text) (fuel : Nat) (t : Text) {ds : List (Turn σ)} (hs : P ds s) :
    P (ds ++ turns env cwd fuel t s) (reached env cwd fuel t s) := by
  induction fuel generalizing t s ds with
  | zero => simpa [turns, dispatches, reached] using hs
  | succ fuel ih =>
    rw [turns, dispatches, reached, step]
    cases Marker.find? t with
    | none => simpa using hs
    | some found =>
      obtain ⟨before, letters, arguments⟩ := found
      have hnext := hstep ds ⟨⟨letters, arguments, s⟩, cwd⟩ hs
      rw [takeTurn] at hnext
      simp only at hnext ⊢
      cases hr : replace env cwd letters arguments s with
      | mk outcome s₁ =>
        rw [hr] at hnext
        cases outcome with
        | error e => exact hnext
        | ok after =>
          -- The turn is over, and `P` holds where the next one starts.
          have hrest := ih (t := before ++ after) hnext
          rw [List.append_assoc] at hrest
          exact hrest

/-- What every turn keeps is kept by all calls, whatever has been before. -/
theorem reachedAll_induction_append
    (hstep : ∀ ds d, P ds d.session → P (ds ++ [d]) (takeTurn env d).2) (calls : List Call)
    {ds : List (Turn σ)} (hs : P ds s) :
    P (ds ++ history env fuel calls s) (reachedAll env fuel calls s) := by
  induction calls generalizing s ds with
  | nil => simpa [history, reachedAll] using hs
  | cons call calls ih =>
    have hcall := reached_induction hstep call.cwd fuel call.text hs
    rw [history, reachedAll]
    cases hexpand : expand env call.cwd fuel call.text s with
    | none => simpa using hcall
    | some result =>
      obtain ⟨answer, s₁⟩ := result
      rw [reached_of_expand hexpand] at hcall
      have hrest := ih hcall
      rw [List.append_assoc] at hrest
      exact hrest

/-- **What holds in the beginning, and is kept by every macro, holds wherever a session leads,**
also if an expansion fails or does not end.  It may be about the macros that the session came to. -/
theorem reachedAll_induction (hs : P [] s)
    (hstep : ∀ ds d, P ds d.session → P (ds ++ [d]) (takeTurn env d).2) (fuel : Nat)
    (calls : List Call) : P (history env fuel calls s) (reachedAll env fuel calls s) :=
  reachedAll_induction_append hstep calls hs

/-- It also holds where the session comes to a macro, of the macros before. -/
theorem history_induction (hs : P [] s)
    (hstep : ∀ ds d, P ds d.session → P (ds ++ [d]) (takeTurn env d).2) (fuel : Nat)
    (calls : List Call) {ds rest : List (Turn σ)} {d : Turn σ}
    (hd : history env fuel calls s = ds ++ d :: rest) : P ds d.session := by
  have hall : P (history env fuel calls s) (reachedAll env fuel calls s) ∧
      ∀ ds d rest, history env fuel calls s = ds ++ d :: rest → P ds d.session := by
    refine reachedAll_induction (P := fun all t => P all t ∧
      ∀ ds d rest, all = ds ++ d :: rest → P ds d.session) ⟨hs, ?_⟩ ?_ fuel calls
    · intro ds d rest h
      simp at h
    · rintro all last ⟨hall, hbefore⟩
      refine ⟨hstep all last hall, fun ds d rest h => ?_⟩
      -- The macro is the last, or one of those before.
      rcases List.eq_nil_or_concat rest with rfl | ⟨rest, e, rfl⟩
      · obtain ⟨rfl, hlast⟩ := List.append_inj' h rfl
        rw [List.cons.injEq] at hlast
        rwa [← hlast.1]
      · have hinit : all ++ [last] = (ds ++ d :: rest) ++ [e] := by simpa using h
        exact hbefore ds d rest (List.append_inj' hinit rfl).1
  exact hall.2 ds d rest hd

end

/-! ## Two environments -/

/-- Whatever `Allowed` answer a macro gives in the first environment it gives in the second, and
related sessions stay related. -/
def Simulates (env : Environment σ) (env' : Environment τ)
    (Allowed : Except ExpansionError Text → Prop) (Rel : Session σ → Session τ → Prop) : Prop :=
  ∀ ⦃cwd letters arguments s s' answer t⦄, Rel s s' →
    replace env cwd letters arguments s = (answer, t) → Allowed answer →
      ∃ t', replace env' cwd letters arguments s' = (answer, t') ∧ Rel t t'

variable {env : Environment σ} {env' : Environment τ}
  {Allowed : Except ExpansionError Text → Prop} {Rel : Session σ → Session τ → Prop}

/-- **What holds of every macro holds of an expansion.** -/
theorem expand_of_simulates (h : Simulates env env' Allowed Rel) (hok : ∀ t, Allowed (.ok t))
    {cwd t : Text} {s s₁ : Session σ} {s' : Session τ} {fuel : Nat}
    {answer : Except ExpansionError Text} (hs : Rel s s')
    (hrun : expand env cwd fuel t s = some (answer, s₁)) (ha : Allowed answer) :
    ∃ s₁', expand env' cwd fuel t s' = some (answer, s₁') ∧ Rel s₁ s₁' := by
  induction fuel generalizing t s s' with
  | zero => cases hrun
  | succ fuel ih =>
    rw [expand, step] at hrun
    rw [expand, step]
    cases hf : Marker.find? t with
    | none =>
      rw [hf] at hrun
      cases hrun
      exact ⟨s', rfl, hs⟩
    | some found =>
      obtain ⟨before, letters, arguments⟩ := found
      rw [hf] at hrun
      simp only at hrun ⊢
      -- One turn of the first session tells one of the second, with the same answer.
      cases hr : replace env cwd letters arguments s with
      | mk outcome s₂ =>
        rw [hr] at hrun
        cases outcome with
        | error e =>
          cases hrun
          obtain ⟨s₂', hr', hs₂⟩ := h hs hr ha
          rw [hr']
          exact ⟨s₂', rfl, hs₂⟩
        | ok after =>
          obtain ⟨s₂', hr', hs₂⟩ := h hs hr (hok after)
          rw [hr']
          exact ih hs₂ hrun

/-- **The same macros are run,** in related sessions, also if there is no answer. -/
theorem map_dispatches_of_simulates (h : Simulates env env' (fun _ => True) Rel) {α : Type}
    {f : Session σ → α} {f' : Session τ → α} (hf : ∀ s s', Rel s s' → f s = f' s') (cwd : Text)
    (fuel : Nat) (t : Text) {s : Session σ} {s' : Session τ} (hs : Rel s s') :
    (dispatches env cwd fuel t s).map (fun d => (d.letters, d.arguments, f d.session)) =
      (dispatches env' cwd fuel t s').map fun d => (d.letters, d.arguments, f' d.session) := by
  induction fuel generalizing t s s' with
  | zero => rfl
  | succ fuel ih =>
    rw [dispatches, dispatches]
    cases Marker.find? t with
    | none => rfl
    | some found =>
      obtain ⟨before, letters, arguments⟩ := found
      cases hr : replace env cwd letters arguments s with
      | mk outcome s₂ =>
        obtain ⟨s₂', hr', hs₂⟩ := h hs hr trivial
        simp only
        rw [hr, hr', List.map_cons, List.map_cons, hf s s' hs]
        cases outcome with
        | error e => rfl
        | ok after => exact congrArg (_ :: ·) (ih (before ++ after) hs₂)

/-- **What holds of every macro holds of all expansions one after the other.** -/
theorem expandAll_of_simulates (h : Simulates env env' Allowed Rel) (hok : ∀ t, Allowed (.ok t))
    {calls : List Call} {s s₁ : Session σ} {s' : Session τ} {fuel : Nat}
    {answers : List (Except ExpansionError Text)} (hs : Rel s s')
    (hrun : expandAll env fuel calls s = some (answers, s₁)) (ha : ∀ a ∈ answers, Allowed a) :
    ∃ s₁', expandAll env' fuel calls s' = some (answers, s₁') ∧ Rel s₁ s₁' := by
  induction calls generalizing s s' answers with
  | nil =>
    cases hrun
    exact ⟨s', rfl, hs⟩
  | cons call calls ih =>
    rw [expandAll] at hrun
    split at hrun
    · cases hrun
    · next answer s₂ he =>
      obtain ⟨⟨rest, s₃⟩, hrest, heq⟩ := Option.map_eq_some_iff.1 hrun
      cases heq
      obtain ⟨s₂', he', hs₂⟩ := expand_of_simulates h hok hs he (ha answer (by simp))
      obtain ⟨s₃', hrest', hs₃⟩ := ih hs₂ hrest fun a hm => ha a (by simp [hm])
      refine ⟨s₃', ?_, hs₃⟩
      rw [expandAll, he']
      simp only
      rw [hrest', Option.map_some]

/-! ## Runs without an answer -/

/-- An expansion that takes too many steps does so in the second environment too. -/
theorem expand_eq_none_of_simulates (h : Simulates env env' (fun _ => True) Rel) {cwd t : Text}
    {s : Session σ} {s' : Session τ} {fuel : Nat} (hs : Rel s s')
    (hrun : expand env cwd fuel t s = none) : expand env' cwd fuel t s' = none := by
  induction fuel generalizing t s s' with
  | zero => rfl
  | succ fuel ih =>
    rw [expand, step] at hrun ⊢
    cases hf : Marker.find? t with
    | none =>
      rw [hf] at hrun
      cases hrun
    | some found =>
      obtain ⟨before, letters, arguments⟩ := found
      rw [hf] at hrun
      simp only at hrun ⊢
      cases hr : replace env cwd letters arguments s with
      | mk outcome s₂ =>
        obtain ⟨s₂', hr', hs₂⟩ := h hs hr trivial
        rw [hr] at hrun
        rw [hr']
        cases outcome with
        | error e => cases hrun
        | ok after => exact ih hs₂ hrun

/-- A simulated session that does not end is not ended by the other one either. -/
theorem expandAll_eq_none_of_simulates (h : Simulates env env' (fun _ => True) Rel)
    {calls : List Call} {s : Session σ} {s' : Session τ} {fuel : Nat} (hs : Rel s s')
    (hrun : expandAll env fuel calls s = none) : expandAll env' fuel calls s' = none := by
  induction calls generalizing s s' with
  | nil => cases hrun
  | cons call calls ih =>
    rw [expandAll] at hrun ⊢
    cases he : expand env call.cwd fuel call.text s with
    | none => rw [expand_eq_none_of_simulates h hs he]
    | some result =>
      obtain ⟨answer, s₂⟩ := result
      obtain ⟨s₂', he', hs₂⟩ := expand_of_simulates h (fun _ => trivial) hs he trivial
      rw [he] at hrun
      rw [he']
      simp only [Option.map_eq_none_iff] at hrun ⊢
      exact ih hs₂ hrun

end Session

end MemoryDoc
