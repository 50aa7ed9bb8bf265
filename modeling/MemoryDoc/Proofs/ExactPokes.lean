/-
# Pokes without an end

The pokes of a clause end after 64K at the latest, and the addresses between them go round at the end
of a word.  Here the same is done with numbers that have no end: as many pokes as the clause says, each
at a number that is only taken round at 64K to find its place.

Main statement: the macro that pokes does what is said without an end, and up to the first clause that
cannot be read (`pokes_exact`).
-/
import MemoryDoc.Macro.Advance
import MemoryDoc.Memory.Addresses
import MemoryDoc.Proofs.Calls
import MemoryDoc.Proofs.PrintedParameters
import MemoryDoc.Store.Listed

namespace MemoryDoc

namespace Memory

variable {m : Memory} {address step value length n k : Nat}

/-- Set a value at `length` numbers, each `step` further than the one before. -/
def setAll (m : Memory) (address step value length : Nat) : Memory :=
  (List.range length).foldl (fun m n => m.setByte (address + n * step) value) m

/-- The place of the number `k` is among those of `length` numbers, each `step` further than the one
before. -/
def Hits (address step length k : Nat) : Prop :=
  ∃ n < length, (address + n * step) % 65536 = k % 65536

/-- One more byte is set behind all the others. -/
theorem setAll_succ (m : Memory) (address step value length : Nat) :
    m.setAll address step value (length + 1) =
      (m.setAll address step value length).setByte (address + length * step) value := by
  rw [setAll, List.range_succ, List.foldl_append]
  rfl

/-- One more step hits one more place. -/
theorem hits_succ :
    Hits address step (length + 1) k ↔
      Hits address step length k ∨ (address + length * step) % 65536 = k % 65536 := by
  constructor
  · rintro ⟨n, hn, hplace⟩
    rcases Nat.lt_succ_iff_lt_or_eq.1 hn with hn | rfl
    · exact .inl ⟨n, hn, hplace⟩
    · exact .inr hplace
  · rintro (⟨n, hn, hplace⟩ | hplace)
    · exact ⟨n, Nat.lt_succ_of_lt hn, hplace⟩
    · exact ⟨length, Nat.lt_succ_self _, hplace⟩

/-- **The value is where it was set, and nothing changed elsewhere.** -/
theorem byteAt_setAll (m : Memory) (address step value length k : Nat) :
    (Hits address step length k →
      (m.setAll address step value length).byteAt k = UInt8.ofNat (value % 256)) ∧
    (¬ Hits address step length k →
      (m.setAll address step value length).byteAt k = m.byteAt k) := by
  induction length with
  | zero => exact ⟨fun ⟨n, hn, _⟩ => absurd hn n.not_lt_zero, fun _ => rfl⟩
  | succ length ih =>
    rw [setAll_succ, byteAt_setByte, hits_succ]
    split
    · next hplace => exact ⟨fun _ => rfl, fun hnot => absurd (.inr hplace) hnot⟩
    · next hplace =>
      refine ⟨fun hhits => ih.1 (hhits.resolve_right hplace), fun hnot => ih.2 fun hhits => ?_⟩
      exact hnot (.inl hhits)

/-- After 64K numbers the places come again, whatever the step is. -/
theorem hits_min : Hits address step (min length 65536) k ↔ Hits address step length k := by
  constructor
  · rintro ⟨n, hn, hplace⟩
    exact ⟨n, Nat.lt_of_lt_of_le hn (Nat.min_le_left _ _), hplace⟩
  · rintro ⟨n, hn, hplace⟩
    -- Every 64K numbers make a whole number of rounds, so that what is left over hits the same place.
    refine ⟨n % 65536, ?_, ?_⟩
    · have hle := Nat.mod_le n 65536
      have hlt := Nat.mod_lt n (show 0 < 65536 by decide)
      omega
    · rw [← hplace, Nat.add_mod, Nat.mod_mul_mod, ← Nat.add_mod]

/-- **No more than 64K values need to be set.** -/
theorem setAll_min (m : Memory) (address step value length : Nat) :
    m.setAll address step value (min length 65536) = m.setAll address step value length := by
  apply ext_byteAt
  intro k
  obtain ⟨hset, hleft⟩ := m.byteAt_setAll address step value length k
  obtain ⟨hset', hleft'⟩ := m.byteAt_setAll address step value (min length 65536) k
  rw [hits_min] at hset' hleft'
  by_cases hhits : Hits address step length k
  · rw [hset hhits, hset' hhits]
  · rw [hleft hhits, hleft' hhits]

/-- **Pokes at words set a byte at numbers.** -/
theorem fill_eq_setAll (m : Memory) (address step byte : UInt32) (count : Nat) :
    m.fill address step byte.toUInt8 count =
      m.setAll address.toNat step.toNat byte.toNat count := by
  have hpoke : (fun (m : Memory) n => m.poke (address + n.toUInt32 * step) byte.toUInt8) =
      fun m n => m.setByte (address.toNat + n * step.toNat) byte.toNat :=
    funext fun m => funext fun n => m.poke_eq_setByte byte (toNat_add_mul_mod address step n)
  rw [fill, hpoke]
  rfl

end Memory

namespace Poke

/-- The memory after a clause of four numbers, with no end of pokes or of words. -/
def exactly (m : Memory) (numbers : Parameter.Values) : Memory :=
  m.setAll (numbers.number 0).toNat (numbers.number 3).toNat (numbers.number 1).toNat
    (numbers.number 2).toNat

/-- **The pokes of a clause can end after 64K.** -/
theorem apply_ofValues (m : Memory) (numbers : Parameter.Values) :
    apply m (ofValues numbers) = exactly m numbers :=
  (m.fill_eq_setAll _ _ _ _).trans (m.setAll_min _ _ _ _)

/-- All clauses set what each sets on its own, one after the other. -/
theorem applyAll_ofValues (m : Memory) (clauses : List Parameter.Values) :
    applyAll m (clauses.map ofValues) = clauses.foldl exactly m := by
  rw [applyAll, List.foldl_map]
  simp only [apply_ofValues]

/-! ## Clauses -/

/-- Clauses that are read from a text one after the other, with what is left behind the last or what is
wrong with the next. -/
inductive Reads : (t : Text) → (clauses : List Parameter.Values) → Except Fault Text → Prop where
  /-- The next clause cannot be read. -/
  | failed {t : Text} {fault : Fault} (hread : spec.read t = .error fault) : Reads t [] (.error fault)
  /-- There is no `;` behind the clause. -/
  | last {t rest : Text} {numbers : Parameter.Values} (hread : spec.read t = .ok (numbers, rest))
      (hrest : rest.head? ≠ some ';') : Reads t [numbers] (.ok rest)
  | next {t rest : Text} {numbers : Parameter.Values} {more : List Parameter.Values}
      {outcome : Except Fault Text} (hread : spec.read t = .ok (numbers, ';' :: rest))
      (hmore : Reads rest more outcome) : Reads t (numbers :: more) outcome

variable {t behind rest : Text} {clauses more : List Parameter.Values}
  {outcome : Except Fault Text}

/-- The clauses of a text that is read are those of its values, with the same outcome. -/
theorem clauses_of_reads (h : Reads t clauses outcome) :
    Poke.clauses t = (clauses.map ofValues, outcome) := by
  -- The function tells one of three outcomes, and of these the reading leaves one.
  induction h with
  | failed hread =>
    rw [Poke.clauses]
    split
    · next h =>
      cases hread.symm.trans h
      rfl
    · next h => cases hread.symm.trans h
    · next h => cases hread.symm.trans h
  | last hread hrest =>
    rw [Poke.clauses]
    split
    · next h => cases hread.symm.trans h
    · next h =>
      cases hread.symm.trans h
      exact absurd rfl hrest
    · next h =>
      cases hread.symm.trans h
      rfl
  | next hread _ ih =>
    rw [Poke.clauses]
    split
    · next h => cases hread.symm.trans h
    · next h =>
      cases hread.symm.trans h
      rw [ih]
      rfl
    · next hnext h =>
      cases hread.symm.trans h
      exact absurd rfl (hnext _)

/-- From every text some clauses are read. -/
theorem exists_reads (t : Text) : ∃ clauses outcome, Reads t clauses outcome := by
  fun_induction Poke.clauses t with
  | case1 t fault hread => exact ⟨[], .error fault, .failed hread⟩
  | case2 t numbers rest hread more outcome hclauses ih =>
    obtain ⟨more, outcome, hmore⟩ := ih
    exact ⟨numbers :: more, outcome, .next hread hmore⟩
  | case3 t numbers rest hrest hread =>
    refine ⟨[numbers], .ok rest, .last hread fun hhead => ?_⟩
    obtain ⟨behind, rfl⟩ := List.head?_eq_some_iff.1 hhead
    exact hrest behind rfl

/-! ## Clauses as they are written -/

open Parameter (Arguments)

theorem plain_spec : spec.Plain where
  texts_eq := rfl
  nodup_names := by decide
  isLower := Parameter.Spec.isLower_of_all (by decide)

/-- A clause of four numbers, as it is printed. -/
def printed (address byte length step : UInt32) : Arguments spec where
  first := [address, byte, length, step].map fun n =>
    ⟨Numeral.decimal n.toNat, n, Numeral.writes_decimal n⟩
  named := []
  required_le := by simp [Parameter.Spec.required, spec]
  length_le := by simp [spec]
  named_of_ne_nil := nofun
  slot_ge := nofun
  slot_lt := nofun
  nodup_slots := List.nodup_nil

/-- **A printed clause sets its byte as often as it says.** -/
theorem exactly_printed (m : Memory) (address byte length step : UInt32) :
    exactly m (printed address byte length step).values =
      m.setAll address.toNat step.toNat byte.toNat length.toNat :=
  rfl

/-- Written clauses, each with `;` behind it. -/
def text (written : List (Arguments spec)) : Text :=
  written.flatMap fun clause => clause.text ++ [';']

/-- **Clauses are read as they are written,** and then what is read behind them. -/
theorem reads_text_append (written : List (Arguments spec)) (h : Reads behind more outcome) :
    Reads (text written ++ behind) (written.map (·.values) ++ more) outcome := by
  induction written with
  | nil => exact h
  | cons clause written ih =>
    have htext : text (clause :: written) ++ behind =
        clause.text ++ ';' :: (text written ++ behind) := by simp [text]
    rw [htext]
    refine .next (Parameter.spec_read_text plain_spec fun c hc => ?_) ih
    cases hc
    decide

/-- The last clause ends where no parameter goes on and no clause follows. -/
theorem reads_text (clause : Arguments spec)
    (hrest : ∀ c, rest.head? = some c → c ≠ ';' ∧ spec.accepts [] c = false) :
    Reads (clause.text ++ rest) [clause.values] (.ok rest) :=
  .last (Parameter.spec_read_text plain_spec fun c hc => (hrest c hc).2)
    fun hhead => (hrest ';' hhead).1 rfl

end Poke

namespace Session

variable {σ : Type}

/-- The session after clauses were poked into the current memory, with no end of pokes or of words. -/
def poked (s : Session σ) (clauses : List Parameter.Values) : Session σ :=
  { s with memory := { s.memory with current := clauses.foldl Poke.exactly s.memory.current } }

/-- **The macro sets what its text is read as, and fails or goes on as the text says.** -/
theorem run_pokes_of_reads (env : Environment σ) (cwd : Text) (s : Session σ) {arguments : Text}
    {clauses : List Parameter.Values} {outcome : Except Fault Text}
    (h : Poke.Reads arguments clauses outcome) :
    run env cwd .pokes arguments s =
      ((outcome.mapError MacroError.fault).map fun rest => ([], rest), s.poked clauses) := by
  change runPokes arguments s = _
  simp only [runPokes, Poke.clauses_of_reads h, Memory.Stack.modify, Poke.applyAll_ofValues, poked]

open Parameter (Arguments)

/-- **The macro that pokes does what it would do without an end of pokes and of words.**  From every
text it reads clauses, one after the other, and the current memory becomes what the clauses make of it
in order, each by setting its byte as often as it says, at numbers a step apart that are taken round at
64K.  Nothing else of the session changes, the saved memories neither.  Clauses that are written are
all read, and if what follows them is no clause, the macro fails with what is wrong there and has poked
those that are written before it. -/
theorem pokes_exact (env : Environment σ) (cwd : Text) (s : Session σ) :
    (∀ arguments, ∃ clauses outcome, Poke.Reads arguments clauses outcome ∧
      run env cwd .pokes arguments s =
        ((outcome.mapError MacroError.fault).map fun rest => ([], rest), s.poked clauses)) ∧
    (∀ (written : List (Arguments Poke.spec)) (last : Arguments Poke.spec) (rest : Text),
      (∀ c, rest.head? = some c → c ≠ ';' ∧ Poke.spec.accepts [] c = false) →
      run env cwd .pokes (Poke.text written ++ (last.text ++ rest)) s =
        (.ok ([], rest), s.poked ((written ++ [last]).map (·.values)))) ∧
    (∀ (written : List (Arguments Poke.spec)) (behind : Text) (fault : Fault),
      Poke.spec.read behind = .error fault →
      run env cwd .pokes (Poke.text written ++ behind) s =
        (.error (.fault fault), s.poked (written.map (·.values)))) := by
  refine ⟨fun arguments => ?_, fun written last rest hrest => ?_,
    fun written behind fault hread => ?_⟩
  · obtain ⟨clauses, outcome, h⟩ := Poke.exists_reads arguments
    exact ⟨clauses, outcome, h, run_pokes_of_reads env cwd s h⟩
  · have hreads := Poke.reads_text_append written (Poke.reads_text last hrest)
    rw [run_pokes_of_reads env cwd s hreads, List.map_append]
    rfl
  · have hreads := Poke.reads_text_append written (Poke.Reads.failed hread)
    rw [run_pokes_of_reads env cwd s hreads, List.append_nil]
    rfl

/-- Four numbers whose pokes go round in the memory again and again. -/
def goingRound : Arguments Poke.spec :=
  Poke.printed 65535 258 4294967295 16384

/-- The clause is followed by one that has no byte.  It sets a byte at every 16384th place. -/
theorem pokes_exact_goingRound :
    run (.usual ({} : Store.Listed).store) [] .pokes "65535,258,4294967295,16384;7;0,1"
        (start .zeros []) =
      (.error (.fault (.tooFewParameters 2 "7")), (start .zeros []).poked [goingRound.values]) ∧
    (Poke.exactly .zeros goingRound.values).byteAt 16383 = 2 ∧
    (Poke.exactly .zeros goingRound.values).byteAt 0 = 0 := by
  have hset := Memory.byteAt_setAll .zeros 65535 16384 258 4294967295
  refine ⟨?_, ?_, ?_⟩
  · have hfails : Poke.spec.read "7;0,1" = .error (.tooFewParameters 2 "7") := rfl
    exact (pokes_exact (.usual ({} : Store.Listed).store) [] (start .zeros [])).2.2 [goingRound]
      "7;0,1" _ hfails
  · rw [goingRound, Poke.exactly_printed]
    exact (hset 16383).1 ⟨1, by decide, by decide⟩
  · have hzero : ¬ Memory.Hits 65535 16384 4294967295 0 := by
      rintro ⟨n, -, hplace⟩
      omega
    rw [goingRound, Poke.exactly_printed]
    exact ((hset 0).2 hzero).trans (by decide +kernel)

end Session

end MemoryDoc
