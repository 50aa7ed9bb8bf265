/-
# Memories that are saved and brought back

Over a whole session, memories are saved under names, changed, and brought back.  What is done
between saving a memory and bringing it back is forgotten then, as long as it brings back what it
saves itself: it nests like brackets.

Main statements: a stack after any operations (`follows_run`), what nested operations leave
(`pop_run_push`), and that the memories of a session are those of the operations of its macros, also
if expansions fail (`memory_reachedAll`); they are put together in `savedMemories_nest`.
-/
import MemoryDoc.Proofs.Calls
import MemoryDoc.Proofs.Writing
import MemoryDoc.Store.Listed
import MemoryDoc.Text.Bracket

namespace MemoryDoc

namespace Memory

/-- What is done with the memories of a session. -/
inductive Operation where
  /-- Save the current memory under a name. -/
  | push (name : Text)
  /-- Bring back the memory that was saved last. -/
  | pop
  /-- Poke into the current memory. -/
  | pokes (ps : List Poke)
deriving DecidableEq, Repr

namespace Operation

/-- Operations as brackets: saving opens one, and bringing back closes it. -/
def bracket : Operation → Char
  | push _ => '('
  | pop => ')'
  | pokes _ => '.'

/-- The operation saves a memory. -/
def isPush : Operation → Bool
  | push _ => true
  | _ => false

/-- No part from the front of the operations pops more than it pushes, and together they pop as often
as they push. -/
def Nested (os : List Operation) : Prop :=
  Text.Balanced (os.map bracket)

/-- The last memory that was pushed and not popped was pushed under a name. -/
def Latest (os : List Operation) (name : Text) : Prop :=
  ∃ before nested, os = before ++ push name :: nested ∧ Nested nested

theorem nested_nil : Nested [] :=
  Text.closes_nil.2 rfl

theorem Nested.append {os os' : List Operation} (h : Nested os) (h' : Nested os') :
    Nested (os ++ os') := by
  rw [Nested, List.map_append]
  exact Text.Closes.append h h'

theorem nested_pokes (ps : List Poke) : Nested [pokes ps] :=
  Text.balanced_of_not_mem (by simp [bracket]) (by simp [bracket])

/-- Operations between a push and its pop nest. -/
theorem Nested.push_pop {os : List Operation} (h : Nested os) (name : Text) :
    Nested (push name :: (os ++ [pop])) := by
  have hbracket := Text.Balanced.bracket h
  simpa [Nested, bracket] using hbracket

end Operation

open Operation

namespace Stack

/-- The stack after an operation.  Where no memory is left to bring back, it stays as it is. -/
def after (s : Stack) : Operation → Stack
  | .push name => s.push name
  | .pop => s.pop.toOption.getD s
  | .pokes ps => s.modify (Poke.applyAll · ps)

/-- The stack after some operations. -/
def run (s : Stack) (os : List Operation) : Stack :=
  os.foldl after s

/-- How often the operations bring back a memory. -/
def popped (s : Stack) : List Operation → Nat
  | [] => 0
  | o :: os => (if o = .pop ∧ s.pop.isOk then 1 else 0) + popped (s.after o) os

@[simp] theorem run_nil (s : Stack) : s.run [] = s := rfl

@[simp] theorem run_cons (s : Stack) (o : Operation) (os : List Operation) :
    s.run (o :: os) = (s.after o).run os := rfl

theorem run_append (s : Stack) (os os' : List Operation) :
    s.run (os ++ os') = (s.run os).run os' :=
  List.foldl_append

/-- The depth counts the memory at the bottom as well. -/
theorem depth_eq (s : Stack) : s.depth = s.pushed.length + 1 := by
  simp [depth, saved]

/-- The memory at the bottom cannot be popped. -/
theorem pop_of_pushed_eq_nil {s : Stack} (h : s.pushed = []) : s.pop = .error .underflow := by
  rw [pop, h]

/-- A pop brings back the memory that was pushed last. -/
theorem pop_of_pushed_eq_cons {s : Stack} {m : Memory} {name : Text} {rest : List (Memory × Text)}
    (h : s.pushed = (m, name) :: rest) : s.pop = .ok { s with current := m, pushed := rest } := by
  rw [pop, h]

/-- A pop takes away the memory that was pushed last, if there is one. -/
theorem pushed_after_pop (s : Stack) : (s.after .pop).pushed = s.pushed.tail := by
  cases h : s.pushed with
  | nil => simp [after, pop_of_pushed_eq_nil h, Except.toOption, h]
  | cons top rest => simp [after, pop_of_pushed_eq_cons h, Except.toOption]

/-- The name at the bottom is never lost. -/
theorem base_after (s : Stack) (o : Operation) : (s.after o).base = s.base := by
  cases o with
  | push name => rfl
  | pokes ps => rfl
  | pop =>
    cases h : s.pushed with
    | nil => simp [after, pop_of_pushed_eq_nil h, Except.toOption]
    | cons top rest => simp [after, pop_of_pushed_eq_cons h, Except.toOption]

/-- **The memory at the bottom is never taken away.** -/
theorem base_run (s : Stack) (os : List Operation) : (s.run os).base = s.base := by
  induction os generalizing s with
  | nil => rfl
  | cons o os ih => rw [run_cons, ih, base_after]

/-- A push adds one to the depth, a pop that succeeds takes one off, and nothing else counts. -/
theorem depth_after (s : Stack) (o : Operation) :
    (s.after o).depth + (if o = .pop ∧ s.pop.isOk then 1 else 0) =
      s.depth + if o.isPush then 1 else 0 := by
  cases o with
  | push name => rfl
  | pokes ps => rfl
  | pop =>
    rw [depth_eq, depth_eq, pushed_after_pop]
    cases h : s.pushed with
    | nil => simp [pop_of_pushed_eq_nil h, Except.isOk, Except.toBool, isPush]
    | cons top rest => simp [pop_of_pushed_eq_cons h, Except.isOk, Except.toBool, isPush]

/-- **Each push adds a memory, and each pop that succeeds takes one away.** -/
theorem depth_run (s : Stack) (os : List Operation) :
    (s.run os).depth + s.popped os = s.depth + os.countP isPush := by
  induction os generalizing s with
  | nil => rfl
  | cons o os ih =>
    have hrun := ih (s.after o)
    have hafter := s.depth_after o
    rw [run_cons, popped, List.countP_cons]
    omega

/-! ## Nested operations -/

/-- Operations that close `depth` more brackets than they open take away as many memories. -/
theorem pushed_run_of_closes {depth : Nat} {os : List Operation} {s : Stack}
    (h : Text.Closes depth (os.map bracket)) (hdepth : depth ≤ s.pushed.length) :
    (s.run os).pushed = s.pushed.drop depth := by
  -- A pop that closes nothing of these operations takes off a memory that was there before.
  induction os generalizing depth s with
  | nil => rw [Text.closes_nil.1 h, run_nil, List.drop_zero]
  | cons o os ih =>
    rw [List.map_cons] at h
    rw [run_cons]
    cases o with
    | push name =>
      have hpush : (s.after (.push name)).pushed = (s.current, name) :: s.pushed := rfl
      rw [ih (Text.closes_cons_open.1 h) (by rw [hpush, List.length_cons]; omega), hpush,
        List.drop_succ_cons]
    | pop =>
      obtain ⟨d, rfl, hd⟩ := Text.closes_cons_close.1 h
      have htail : (s.after .pop).pushed = s.pushed.tail := s.pushed_after_pop
      rw [ih hd (by rw [htail, List.length_tail]; omega), htail, List.drop_tail]
    | pokes ps =>
      have hclosed : Text.Closes depth (os.map bracket) :=
        (Text.closes_cons_other (c := '.') (by decide) (by decide)).1 h
      exact ih hclosed hdepth

/-- **A pop brings back what was pushed,** whatever nested operations were done in between. -/
theorem pop_run_push {os : List Operation} (h : Nested os) (s : Stack) (name : Text) :
    ((s.push name).run os).pop = .ok s := by
  have hpushed : ((s.push name).run os).pushed = (s.current, name) :: s.pushed :=
    pushed_run_of_closes h (Nat.zero_le _)
  have hbase : ((s.push name).run os).base = s.base := base_run _ _
  rw [pop_of_pushed_eq_cons hpushed, hbase]

/-! ## The latest push -/

/-- **Nested operations leave the memories that were pushed before them as they are.** -/
theorem pushed_run_of_latest {nested : List Operation} (h : Nested nested) (s : Stack)
    (before : List Operation) (name : Text) : (s.run (before ++ .push name :: nested)).pushed =
      ((s.run before).current, name) :: (s.run before).pushed := by
  rw [run_append, run_cons]
  exact pushed_run_of_closes h (Nat.zero_le _)

/-- If a memory is left to bring back, there is a push that was not popped. -/
theorem exists_latest {s : Stack} (hs : s.pushed = []) (os : List Operation)
    (h : (s.run os).pushed ≠ []) : ∃ name, Latest os name := by
  induction hlength : os.length using Nat.strongRecOn generalizing os with
  | _ n ih =>
  rcases List.eq_nil_or_concat os with rfl | ⟨init, o, rfl⟩
  · exact absurd hs h
  rw [List.concat_eq_append] at h hlength ⊢
  rw [List.length_append, List.length_singleton] at hlength
  rw [run_append, run_cons, run_nil] at h
  cases o with
  | push name => exact ⟨name, init, [], rfl, nested_nil⟩
  | pokes ps =>
    obtain ⟨name, before, nested, rfl, hnested⟩ := ih _ (by omega) init h rfl
    exact ⟨name, before, nested ++ [.pokes ps], by simp, hnested.append (nested_pokes ps)⟩
  | pop =>
    -- The last push before is popped, so the latest is one that was not popped before that.
    rw [pushed_after_pop] at h
    obtain ⟨top, before, nested, rfl, hnested⟩ :=
      ih _ (by omega) init (fun hnil => h (by rw [hnil]; rfl)) rfl
    rw [pushed_run_of_latest hnested, List.tail_cons] at h
    rw [List.length_append] at hlength
    obtain ⟨name, before, nested', rfl, hnested'⟩ := ih _ (by omega) before h rfl
    refine ⟨name, before, nested' ++ .push top :: (nested ++ [.pop]), by simp, ?_⟩
    exact hnested'.append (hnested.push_pop top)

/-! ## All operations -/

/-- What is so of a stack after some operations, over a memory at its bottom. -/
structure Follows (base : Memory) (os : List Operation) (s : Stack) : Prop where
  depth_pos : 1 ≤ s.depth
  depth_add : s.depth + (ofMemory base).popped os = 1 + os.countP isPush
  /-- The bottom is the memory that the stack was made with, without a name. -/
  bottom : s.saved.getLast? = some (base, [])
  pop_fails_iff : (∃ e, s.pop = .error e) ↔ s.depth = 1
  /-- A pop that fails changes nothing. -/
  after_pop : s.depth = 1 → s.after .pop = s
  name_bottom : s.depth = 1 → s.name = []
  latest_iff : ∀ name, Latest os name ↔ 1 < s.depth ∧ s.name = name

/-- **A stack after any operations.** -/
theorem follows_run (base : Memory) (os : List Operation) :
    Follows base os ((ofMemory base).run os) := by
  have hname {s : Stack} {m : Memory} {name : Text} {rest : List (Memory × Text)}
      (h : s.pushed = (m, name) :: rest) : s.name = name := by
    rw [Stack.name, h]
  generalize hs : (ofMemory base).run os = s
  have hdepth := s.depth_eq
  constructor
  · omega
  · rw [← hs]
    exact depth_run (ofMemory base) os
  · rw [saved, List.getLast?_append, ← hs, base_run]
    rfl
  · cases hpushed : s.pushed with
    | nil => exact iff_of_true ⟨_, pop_of_pushed_eq_nil hpushed⟩ (by rw [hdepth, hpushed]; rfl)
    | cons top rest => simp [pop_of_pushed_eq_cons hpushed, hdepth, hpushed]
  · -- With one memory there is nothing to pop, and the name is that of the bottom.
    intro hone
    have hpushed : s.pushed = [] := List.length_eq_zero_iff.1 (by omega)
    rw [after, pop_of_pushed_eq_nil hpushed]
    rfl
  · intro hone
    have hpushed : s.pushed = [] := List.length_eq_zero_iff.1 (by omega)
    rw [Stack.name, hpushed]
  · intro name
    constructor
    · -- The latest push is on top, since what is nested behind it comes back to it.
      rintro ⟨before, nested, rfl, hnested⟩
      have hpushed := pushed_run_of_latest hnested (ofMemory base) before name
      rw [hs] at hpushed
      refine ⟨?_, hname hpushed⟩
      rw [hdepth, hpushed, List.length_cons]
      omega
    · rintro ⟨hone, rfl⟩
      have hne : s.pushed ≠ [] := by
        intro hpushed
        rw [hdepth, hpushed] at hone
        exact absurd hone (by decide)
      -- The memory on top was pushed some time, and the push that did it is the latest.
      obtain ⟨name, hlatest⟩ := exists_latest (s := ofMemory base) rfl os (hs ▸ hne)
      obtain ⟨before, nested, rfl, hnested⟩ := hlatest
      have hpushed := pushed_run_of_latest hnested (ofMemory base) before name
      rw [hs] at hpushed
      rw [hname hpushed]
      exact ⟨before, nested, rfl, hnested⟩

end Stack

end Memory

/-! ## Sessions -/

/-- What a macro does with the memories. -/
def Dispatch.operation? {σ : Type} (d : Dispatch σ) : Option Memory.Operation :=
  match MacroName.ofName? d.letters with
  | some .pokes => some (.pokes (Poke.clauses d.arguments).1)
  | some .pushs => some (.push (d.arguments.takeWhile Text.isWordChar))
  | some .pops => some .pop
  | _ => none

namespace Session

open Memory (Operation)

variable {σ : Type} {env : Environment σ}

/-- A macro leaves the memories as its operation does, if it has one. -/
theorem memory_takeTurn (d : Turn σ) :
    (takeTurn env d).2.memory = d.session.memory.run d.operation?.toList := by
  unfold takeTurn Dispatch.operation?
  rw [replace_snd]
  cases MacroName.ofName? d.letters with
  | none => rfl
  | some m =>
    cases m with
    | text m => rfl
    | picture m => exact memory_run_picture rfl
    | pokes => rfl
    | pushs => rfl
    | pops =>
      show (runPop d.arguments d.session).2.memory = d.session.memory.after .pop
      unfold runPop Memory.Stack.after
      cases d.session.memory.pop <;> rfl

/-- One more macro adds its operation. -/
theorem memory_takeTurn_of_run {s : Session σ} {ds : List (Turn σ)} {d : Turn σ}
    (h : d.session.memory = s.memory.run (ds.filterMap (·.operation?))) :
    (takeTurn env d).2.memory = s.memory.run ((ds ++ [d]).filterMap (·.operation?)) := by
  rw [memory_takeTurn, h, List.filterMap_append, Memory.Stack.run_append]
  rfl

/-- **The memories of a session are those that the operations of its macros leave.** -/
theorem memory_reachedAll (s : Session σ) (fuel : Nat) (calls : List Call) :
    (reachedAll env fuel calls s).memory =
      s.memory.run ((history env fuel calls s).filterMap (·.operation?)) :=
  reachedAll_induction (P := fun ds t => t.memory = s.memory.run (ds.filterMap (·.operation?)))
    rfl (fun _ _ => memory_takeTurn_of_run) fuel calls

/-- The memories that a macro finds are those that the operations of the macros before it leave. -/
theorem memory_of_history {s : Session σ} {fuel : Nat} {calls : List Call} {ds rest : List (Turn σ)}
    {d : Turn σ} (h : history env fuel calls s = ds ++ d :: rest) :
    d.session.memory = s.memory.run (ds.filterMap (·.operation?)) :=
  history_induction (P := fun ds t => t.memory = s.memory.run (ds.filterMap (·.operation?)))
    rfl (fun _ _ => memory_takeTurn_of_run) fuel calls h

/-- **Saved memories nest.**  After any pushes, pops and pokes over a memory, there are as many saved
memories as there were pushes without a pop that succeeded, and the memory at the bottom.  That stays
as it was and has no name; a pop fails exactly if nothing else is left, and then changes nothing; the
current name is that of the latest push that was not popped.  A pop brings back what was pushed, to
the last byte, whatever nested operations were done in between.  The memories of a session, at its
end and at every macro on the way, are those that the operations of its macros leave, also if
expansions fail or never end. -/
theorem savedMemories_nest :
    (∀ (base : Memory) (os : List Operation),
      Memory.Stack.Follows base os ((Memory.Stack.ofMemory base).run os)) ∧
    (∀ (s : Memory.Stack) (name : Text) (os : List Operation), Operation.Nested os →
      ((s.push name).run os).pop = .ok s) ∧
    ∀ (env : Environment σ) (fuel : Nat) (calls : List Call) (s : Session σ),
      (reachedAll env fuel calls s).memory =
        s.memory.run ((history env fuel calls s).filterMap (·.operation?)) ∧
      ∀ ds d rest, history env fuel calls s = ds ++ d :: rest →
        d.session.memory = s.memory.run (ds.filterMap (·.operation?)) :=
  ⟨Memory.Stack.follows_run, fun s name _ h => Memory.Stack.pop_run_push h s name,
    fun _ fuel calls s => ⟨memory_reachedAll s fuel calls, fun _ _ _ h => memory_of_history h⟩⟩

/-- Operations that poke, save and bring back. -/
def pokedTwice : List Operation :=
  [.pokes [⟨1, 1, 1, 1⟩], .push "inner", .pokes [⟨1, 2, 1, 1⟩], .pop]

/-- Texts that do the same, saving the memory before.  The second fails when it has poked. -/
def savedAndPoked : List Call :=
  [⟨"#PUSHSouter#POKES1,1", []⟩, ⟨"#PUSHSinner#POKES1,2;x", []⟩, ⟨"#POPS", []⟩]

/-- Pokes behind a push are undone by its pop, with a push and a pop of their own in between. -/
theorem savedMemories_nest_pokedTwice :
    Operation.Nested pokedTwice ∧
      (((Memory.Stack.ofMemory .zeros).push "outer").run pokedTwice).pop = .ok (.ofMemory .zeros) ∧
      (reachedAll (.usual ({} : Store.Listed).store) 3 savedAndPoked (start .zeros [])).memory =
        ((Memory.Stack.ofMemory .zeros).push "outer").run pokedTwice := by
  have hnested : Operation.Nested pokedTwice :=
    ((Operation.nested_pokes _).append ((Operation.nested_pokes _).push_pop "inner"))
  obtain ⟨-, hpop, hsession⟩ := savedMemories_nest (σ := List Text)
  have hoperations : (history (.usual ({} : Store.Listed).store) 3 savedAndPoked
      (start .zeros [])).filterMap (·.operation?) = .push "outer" :: pokedTwice := by
    decide +kernel
  refine ⟨hnested, hpop _ "outer" _ hnested, ?_⟩
  rw [(hsession (.usual ({} : Store.Listed).store) 3 savedAndPoked (start .zeros [])).1, hoperations]
  rfl

end Session

end MemoryDoc
