/-
# Expanding a text in place

Expansion as it works on one text that is changed in place.  The first macro is found among the
bytes of the text.  Its handler is given the whole text and the place behind the name, and what the
macro turns into is put between the place of its `#` and the place where the handler stopped.
Nothing comes of a step in which a part of a text is taken that is none.

Main statements: a macro stops at a boundary behind its name (`exists_run?_eq`), and expanding in
place always comes to something, which is what expansion comes to (`expand?_eq`).
-/
import MemoryDoc.Expansion
import MemoryDoc.Proofs.Bytewise.Pictures
import MemoryDoc.Proofs.Bytewise.Tables
import MemoryDoc.Proofs.Bytewise.Wording

namespace MemoryDoc

open Scanner (Lands Follows)
open Text (IsBoundary ToldBy byteSize bytes dropBytes? slice? splice?)

/-! ## Handlers -/

/-- The scanner of a macro that turns into text. -/
def TextMacro.scanner (p : Page) : TextMacro → Scanner MacroError Text
  | .bug => Scanner.item p .bug
  | .fact => Scanner.item p .fact
  | .poke => Scanner.item p .poke
  | .link => Scanner.page p
  | .r => Scanner.routine p
  | .refs => Scanner.referrers p
  | .erefs => Scanner.entryPointReferrers p
  | .d => Scanner.description p
  | .chr => Scanner.character
  | .space => Scanner.spaces
  | .html => Scanner.html
  | .reg => Scanner.register p
  | .call => Scanner.call p
  | .list => Scanner.block "LIST#" "list" Scanner.listMarkup?
  | .table | .udgtable => Scanner.block "TABLE#" "table" Scanner.tableMarkup?

/-- The scanner of a macro that makes a picture. -/
def PictureMacro.scanner (p : Page) : PictureMacro → Scanner MacroError PictureJob
  | .udg => Scanner.tile p
  | .udgarray => Scanner.arrayOrAnimation p
  | .font => Scanner.font p
  | .scr => Scanner.screen p

/-- Each macro that turns into text is scanned place by place as it is read. -/
theorem TextMacro.follows_scanner (p : Page) (m : TextMacro) :
    Follows (m.scanner p) (m.handler p) := by
  cases m with
  | bug => exact Scanner.follows_item p .bug
  | fact => exact Scanner.follows_item p .fact
  | poke => exact Scanner.follows_item p .poke
  | link => exact Scanner.follows_page p
  | r => exact Scanner.follows_routine p
  | refs => exact Scanner.follows_referrers p
  | erefs => exact Scanner.follows_entryPointReferrers p
  | d => exact Scanner.follows_description p
  | chr => exact Scanner.follows_character
  | space => exact Scanner.follows_spaces
  | html => exact Scanner.follows_html
  | reg => exact Scanner.follows_register p
  | call => exact Scanner.follows_call p
  | list => exact Scanner.follows_list
  | table => exact Scanner.follows_table
  | udgtable => exact Scanner.follows_table

/-- Each macro that makes a picture is scanned place by place as it is read. -/
theorem PictureMacro.follows_scanner (p : Page) (m : PictureMacro) :
    Follows (m.scanner p) (m.handler p) := by
  cases m with
  | udg => exact Scanner.follows_tile p
  | udgarray => exact Scanner.follows_arrayOrAnimation p
  | font => exact Scanner.follows_font p
  | scr => exact Scanner.follows_screen p

/-! ## Pokes -/

namespace Poke

/-- The clauses from a place on, with the place behind the last or what is wrong with the next.
More rounds than given come to nothing. -/
def clauses? (t : Text) :
    (rounds start : Nat) → Option (List Poke × Except Fault (Text × Nat))
  | 0, _ => none
  | rounds + 1, start =>
    match Scanner.parameters spec t start with
    | none => none
    | some (.error fault) => some ([], .error fault)
    | some (.ok (values, stop)) => do
      let rest ← slice? t stop (byteSize t)
      if rest.head? = some ';' then
        let (more, outcome) ← clauses? t rounds (stop + 1)
        return (ofValues values :: more, outcome)
      else
        return ([ofValues values], .ok ([], stop))

/-- There are enough rounds if there are more than characters. -/
theorem exists_clauses?_eq {t rest : Text} {start rounds : Nat} (hrounds : rest.length < rounds)
    (hn : dropBytes? start t = some rest) :
    ∃ outcome, clauses? t rounds start = some ((clauses rest).1, outcome) ∧
      Lands t start (some outcome) ((clauses rest).2.map fun left => ([], left)) := by
  -- Each clause leaves less text than it got, so the rounds are never used up.
  induction rounds generalizing start rest with
  | zero => omega
  | succ rounds ih =>
    have hread := Scanner.follows_parameters spec hn
    have hlen {values : Parameter.Values} {left : Text} (h : spec.read rest = .ok (values, left)) :=
      spec.advances_read.length_le h
    unfold clauses?
    rw [clauses]
    generalize Scanner.parameters spec t start = o at hread ⊢
    generalize spec.read rest = x at hread hlen ⊢
    cases hread with
    | error e => exact ⟨_, rfl, .error e⟩
    | @ok values stop left hle hstop =>
      have := hlen rfl
      simp only
      rw [Text.slice?_end hstop]
      by_cases hhead : left.head? = some ';'
      · obtain ⟨behind, rfl⟩ := List.head?_eq_some_iff.1 hhead
        rw [List.length_cons] at this
        obtain ⟨outcome, hmore, hland⟩ := ih (by omega) (Text.dropBytes?_cons hstop)
        have hsemi : ';'.utf8Size = 1 := rfl
        rw [hsemi] at hmore hland
        refine ⟨outcome, ?_, hland.of_le (by omega)⟩
        simp only [Option.bind_eq_bind, Option.bind_some]
        rw [if_pos hhead, hmore]
        rfl
      · refine ⟨.ok ([], stop), ?_⟩
        simp only [Option.bind_eq_bind, Option.bind_some]
        rw [if_neg hhead]
        split
        · next h => cases h
        · next h =>
          cases h
          exact absurd rfl hhead
        · next h =>
          cases h
          exact ⟨rfl, .ok hle hstop⟩

end Poke

/-! ## Places of macros -/

namespace Marker

/-- A byte that the name of a macro is written with. -/
def isNameByte (b : UInt8) : Bool :=
  0x41 ≤ b && b ≤ 0x5a

/-- The place of the first `#`. -/
def hash? (t : Text) : Option Nat :=
  if '#' ∈ t then some (byteSize (t.takeWhile (· != '#'))) else none

/-- The places before the first macro from a place on and behind its name.  More rounds than given
come to nothing. -/
def placesFrom? (t : Text) : (rounds start : Nat) → Option (Option (Nat × Nat))
  | 0, _ => none
  | rounds + 1, start => do
    let ahead ← slice? t start (byteSize t)
    match hash? ahead with
    | none => return none
    | some offset =>
      let start := start + offset
      if start + 1 ≤ (bytes t).length then
        let letters := (((bytes t).drop (start + 1)).takeWhile isNameByte).length
        if 0 < letters then
          return some (start, start + 1 + letters)
        else
          placesFrom? t rounds (start + 1)
      else none

/-- The places before the first macro of a text and behind its name. -/
def places? (t : Text) : Option (Option (Nat × Nat)) :=
  placesFrom? t (byteSize t + 1) 0

/-- A letter of a name is told by its byte. -/
theorem toldBy_nameLetter : ToldBy isNameByte isNameLetter where
  ascii := by decide +kernel
  byte b hb := by
    have hnot : ¬ b ≤ 0x5a := by
      rw [UInt8.le_iff_toNat_le]
      have h90 : (0x5a : UInt8).toNat = 90 := rfl
      omega
    rw [isNameByte, decide_eq_false hnot, Bool.and_false]
  char c hc := by
    have hnot : ¬ c ≤ 'Z' := by
      rw [Char.le_def, UInt32.le_iff_toNat_le]
      have hval : c.toNat = c.val.toNat := rfl
      have h90 : ('Z'.val).toNat = 90 := rfl
      omega
    rw [isNameLetter, decide_eq_false hnot, Bool.and_false]

/-- The first sharp of a text is where the text without sharps ends. -/
theorem hash?_append_hash {front : Text} (h : '#' ∉ front) (behind : Text) :
    hash? (front ++ '#' :: behind) = some (byteSize front) := by
  have hfront : ∀ c ∈ front, (c != '#') = true := by
    intro c hc
    rw [bne_iff_ne]
    rintro rfl
    exact h hc
  have htake : (front ++ '#' :: behind).takeWhile (· != '#') = front := by
    rw [List.takeWhile_append_of_pos hfront, List.takeWhile_cons, if_neg (by decide),
      List.append_nil]
  rw [hash?, if_pos (by simp), htake]

/-- There are enough rounds if there are more than characters. -/
theorem placesFrom?_eq {t ahead : Text} {start rounds : Nat} (hrounds : ahead.length < rounds)
    (hn : dropBytes? start t = some ahead) :
    placesFrom? t rounds start = some ((find? ahead).map fun (before, letters, _) =>
      (start + byteSize before, start + byteSize before + 1 + byteSize letters)) := by
  induction rounds generalizing start ahead with
  | zero => omega
  | succ rounds ih =>
    unfold placesFrom?
    rw [Text.slice?_end hn]
    simp only [Option.bind_eq_bind, Option.bind_some]
    by_cases hmem : '#' ∈ ahead
    · obtain ⟨front, behind, rfl, hfront⟩ := List.eq_append_cons_of_mem hmem
      have hhash := Text.dropBytes?_append hn
      have hnext : dropBytes? (start + byteSize front + 1) t = some behind :=
        Text.dropBytes?_cons hhash
      have hbound : start + byteSize front + 1 ≤ (bytes t).length := by
        rw [Text.length_bytes, ← Text.add_byteSize hnext]
        omega
      rw [hash?_append_hash hfront]
      simp only
      rw [if_pos hbound, Text.drop_bytes hnext, toldBy_nameLetter.length_takeWhile,
        find?_append_hash hfront]
      -- Without a letter behind it the `#` is no macro, and the search goes on behind it.
      by_cases hletters : behind.takeWhile isNameLetter = []
      · rw [hletters, Text.byteSize_nil, if_neg (Nat.lt_irrefl 0), if_neg (by simp)]
        rw [List.length_append, List.length_cons] at hrounds
        rw [ih (by omega) hnext, Option.map_map]
        congr 1
        refine congrFun (congrArg Option.map (funext fun found => ?_)) _
        have hsharp : '#'.utf8Size = 1 := rfl
        simp only [Function.comp_apply, Text.byteSize_append, Text.byteSize_cons, hsharp,
          Nat.add_assoc]
      · have hpos : 0 < byteSize (behind.takeWhile isNameLetter) := by
          have := List.length_pos_iff.2 hletters
          have := Text.length_le_byteSize (behind.takeWhile isNameLetter)
          omega
        rw [if_pos hpos, if_pos hletters]
        rfl
    · rw [hash?, if_neg hmem, find?_of_not_mem hmem]
      rfl

/-- **The places of a marker are those that its parts tell.** -/
theorem places?_eq (t : Text) :
    places? t = some ((find? t).map fun (before, letters, _) =>
      (byteSize before, byteSize before + 1 + byteSize letters)) := by
  have hrounds : t.length < byteSize t + 1 := Nat.lt_succ_of_le (Text.length_le_byteSize t)
  have := placesFrom?_eq hrounds (Text.dropBytes?_zero t)
  rw [places?, this]
  simp only [Nat.zero_add]

example : places? "é#CHR233".toList = some (some (2, 6)) := by
  decide +kernel

end Marker

/-! ## One macro -/

namespace Session

variable {σ : Type}

/-- Run a macro on the text from a place on: what it turns into, and the place where it stopped. -/
def run? (env : Environment σ) (cwd : Text) (name : MacroName) (t : Text) (index : Nat)
    (s : Session σ) : Option (Except MacroError (Text × Nat) × Session σ) :=
  match name with
  | .text m => do
    let outcome ← m.scanner (page env cwd) t index
    return (outcome, s)
  | .picture m =>
    if env.site.settings.pictures then do
      match ← m.scanner (page env cwd) t index with
      | .error e => return (.error e, s)
      | .ok (job, stop) =>
        match perform env job s with
        | (.error e, s) => return (.error e, s)
        | (.ok (), s) => return (.ok (job.markup cwd, stop), s)
    else some (.error .unsupported, s)
  | .pokes => do
    let (pokes, outcome) ← Poke.clauses? t (byteSize t + 1) index
    return (outcome.mapError .fault, { s with memory := s.memory.modify (Poke.applyAll · pokes) })
  | .pushs => do
    match ← Scanner.readWhile Text.isWordChar t index with
    | .error fault => return (.error (.fault fault), s)
    | .ok (name, stop) => return (.ok ([], stop), { s with memory := s.memory.push name })
  | .pops =>
    match s.memory.pop with
    | .error e => some (.error (.underflow e), s)
    | .ok memory => some (.ok ([], index), { s with memory })

/-- **A macro that is run on a text from a boundary on comes to what it comes to on what is behind
the boundary, and it stops before what it leaves.** -/
theorem exists_run?_eq (env : Environment σ) (cwd : Text) (name : MacroName) {t arguments : Text}
    {index : Nat} (hn : dropBytes? index t = some arguments) (s : Session σ) :
    ∃ outcome, run? env cwd name t index s = some (outcome, (run env cwd name arguments s).2) ∧
      Lands t index (some outcome) (run env cwd name arguments s).1 := by
  cases name with
  | text m =>
    have hland := m.follows_scanner (page env cwd) hn
    rw [run?, run, runText]
    generalize m.scanner (page env cwd) t index = o at hland ⊢
    generalize m.handler (page env cwd) arguments = x at hland ⊢
    cases hland with
    | error e => exact ⟨_, rfl, .error e⟩
    | ok hle hstop => exact ⟨_, rfl, .ok hle hstop⟩
  | picture m =>
    have hland := m.follows_scanner (page env cwd) hn
    rw [run?, run, runPicture]
    split
    · generalize m.scanner (page env cwd) t index = o at hland ⊢
      generalize m.handler (page env cwd) arguments = x at hland ⊢
      cases hland with
      | error e => exact ⟨_, rfl, .error e⟩
      | @ok job stop left hle hstop =>
        -- Both do the same job, and what comes of it is not told by the place.
        simp only [Option.bind_eq_bind, Option.bind_some]
        obtain ⟨outcome, s'⟩ := perform env job s
        cases outcome with
        | error e => exact ⟨_, rfl, .error e⟩
        | ok u => exact ⟨_, rfl, .ok hle hstop⟩
    · exact ⟨_, rfl, .error _⟩
  | pokes =>
    -- There are at most as many clauses as characters, and no more characters than bytes.
    have hrounds : arguments.length < byteSize t + 1 := by
      have := Text.add_byteSize hn
      have := Text.length_le_byteSize arguments
      omega
    obtain ⟨outcome, hclauses, hland⟩ := Poke.exists_clauses?_eq hrounds hn
    rw [run?, run, runPokes, hclauses]
    refine ⟨_, rfl, ?_⟩
    simp only
    generalize (Poke.clauses arguments).2 = x at hland ⊢
    cases x with
    | error fault =>
      cases hland
      exact .error _
    | ok left =>
      cases hland with
      | ok hle hstop => exact .ok hle hstop
  | pushs =>
    rw [run?, run, runPush, Scanner.readWhile_apply _ hn]
    exact ⟨_, rfl, .ok (Nat.le_add_right _ _) (Scanner.dropBytes?_readWhile _ hn)⟩
  | pops =>
    rw [run?, run, runPop]
    cases s.memory.pop with
    | error e => exact ⟨_, rfl, .error _⟩
    | ok memory => exact ⟨_, rfl, .ok (Nat.le_refl index) hn⟩

/-! ## Steps -/

/-- The text of a macro from the place of its `#` to the next blank. -/
def span? (t : Text) (start : Nat) : Option Text := do
  let rest ← slice? t start (byteSize t)
  slice? rest 0 (byteSize (rest.takeWhile fun c => !Text.isBlank c))

/-- Put what the macro between two places turns into in its place. -/
def replace? (env : Environment σ) (cwd t : Text) (start index : Nat) (s : Session σ) :
    Option (Except ExpansionError Text × Session σ) := do
  let marker ← slice? t start index
  let letters ← slice? marker 1 (byteSize marker)
  match MacroName.ofName? letters with
  | none => return (.error (.unknown marker), s)
  | some name =>
    match ← run? env cwd name t index s with
    | (.error .unsupported, s) => return (.error (.unsupported marker), s)
    | (.error e, s) => return (.error (.inMacro marker (← span? t start) e), s)
    | (.ok (markup, stop), s) => return (.ok (← splice? t start stop markup), s)

/-- Replace macros in place until there are none left.  There is no answer if that takes more than
`fuel` steps. -/
def expand? (env : Environment σ) (cwd : Text) :
    (fuel : Nat) → (t : Text) → Session σ → Option (Option (Except ExpansionError Text × Session σ))
  | 0, _, _ => some none
  | fuel + 1, t, s => do
    match ← Marker.places? t with
    | none => return some (.ok t, s)
    | some (start, index) =>
      match ← replace? env cwd t start index s with
      | (.error e, s) => return some (.error e, s)
      | (.ok t, s) => expand? env cwd fuel t s

/-- What a marker replaces is cut out between its places. -/
theorem span?_eq {t marker after : Text} {start : Nat}
    (hn : dropBytes? start t = some (marker ++ after)) :
    span? t start = some (span marker after) := by
  rw [span?, Text.slice?_end hn, span]
  exact Text.slice?_zero List.takeWhile_append_dropWhile.symm

/-- What a macro turns into is put between what stands before it and what it leaves. -/
theorem replace?_eq (env : Environment σ) (cwd before letters after : Text) (s : Session σ) :
    replace? env cwd (before ++ '#' :: (letters ++ after)) (byteSize before)
        (byteSize before + 1 + byteSize letters) s =
      some ((replace env cwd letters after s).1.map (before ++ ·),
        (replace env cwd letters after s).2) := by
  generalize ht : before ++ '#' :: (letters ++ after) = t
  have hstart : dropBytes? (byteSize before) t = some (('#' :: letters) ++ after) := by
    rw [← ht]
    exact Text.dropBytes?_byteSize _ _
  have hsize :
      byteSize before + byteSize ('#' :: letters) = byteSize before + 1 + byteSize letters := by
    rw [Text.byteSize_cons, ← Nat.add_assoc]
    rfl
  have hmarker := Text.slice?_append hstart
  have hindex := Text.dropBytes?_append hstart
  rw [hsize] at hmarker hindex
  have hletters : slice? ('#' :: letters) 1 (byteSize ('#' :: letters)) = some letters :=
    Text.slice?_end (Text.dropBytes?_cons (Text.dropBytes?_zero ('#' :: letters)))
  unfold replace? replace
  rw [hmarker]
  simp only [Option.bind_eq_bind, Option.bind_some]
  rw [hletters]
  simp only [Option.bind_some]
  cases MacroName.ofName? letters with
  | none => rfl
  | some name =>
    obtain ⟨outcome, hrun, hland⟩ := exists_run?_eq env cwd name hindex s
    simp only
    rw [hrun, Option.bind_some]
    generalize run env cwd name after s = x at hland ⊢
    obtain ⟨result, s'⟩ := x
    simp only at hland
    cases hland with
    | error e =>
      have hspan := span?_eq hstart
      cases e <;> simp only [hspan, Option.bind_some] <;> rfl
    | @ok markup stop left hle hstop =>
      -- What is replaced is the marker with the part of the arguments that the macro took.
      obtain ⟨part, rfl, hpart⟩ := Text.exists_append_of_le hle hindex hstop
      have hsplit : t = before ++ (('#' :: (letters ++ part)) ++ left) := by simp [← ht]
      have hsplice := Text.splice?_eq markup hsplit
      have hstopped : byteSize before + byteSize ('#' :: (letters ++ part)) = stop := by
        rw [← hpart, ← hsize, Text.byteSize_cons, Text.byteSize_cons, Text.byteSize_append]
        omega
      rw [hstopped] at hsplice
      simp only
      rw [hsplice, Option.bind_some, List.append_assoc]
      rfl

/-- **Expanding in place always comes to something, and to what expansion comes to.** -/
theorem expand?_eq (env : Environment σ) (cwd : Text) (fuel : Nat) (t : Text) (s : Session σ) :
    expand? env cwd fuel t s = some (expand env cwd fuel t s) := by
  induction fuel generalizing t s with
  | zero => rfl
  | succ fuel ih =>
    rw [expand?, Marker.places?_eq, expand, step]
    cases hf : Marker.find? t with
    | none => rfl
    | some found =>
      obtain ⟨before, letters, after⟩ := found
      simp only [Option.map_some, Option.bind_eq_bind, Option.bind_some]
      rw [Marker.eq_of_find?_eq_some hf, replace?_eq]
      obtain ⟨answer, s'⟩ := replace env cwd letters after s
      cases answer with
      | error e => rfl
      | ok after => exact ih (before ++ after) s'

/-- A macro stops at a boundary behind its name or there, and can be replaced up to it. -/
theorem bounds_of_run? {env : Environment σ} {cwd t arguments markup : Text} {name : MacroName}
    {start index stop : Nat} {s s' : Session σ} (hstart : IsBoundary t start) (hle : start ≤ index)
    (hindex : dropBytes? index t = some arguments)
    (h : run? env cwd name t index s = some (.ok (markup, stop), s')) :
    index ≤ stop ∧ stop ≤ byteSize t ∧ IsBoundary t stop ∧
      (splice? t start stop markup).isSome := by
  obtain ⟨outcome, hrun, hland⟩ := exists_run?_eq env cwd name hindex s
  rw [h, Option.some.injEq, Prod.mk.injEq] at hrun
  rw [← hrun.1] at hland
  generalize (run env cwd name arguments s).1 = x at hland
  cases hland with
  | ok hstop hleft =>
    have hsize := Text.add_byteSize hleft
    obtain ⟨after, hafter⟩ := Text.isBoundary_iff.1 hstart
    obtain ⟨mid, rfl, hmid⟩ := Text.exists_append_of_le (Nat.le_trans hle hstop) hafter hleft
    obtain ⟨before, rfl, rfl⟩ := Text.dropBytes?_eq_some_iff.1 hafter
    rw [← hmid, Text.splice?_eq markup rfl]
    exact ⟨by omega, by omega, Text.isBoundary_of_dropBytes? (by rwa [hmid]), rfl⟩

/-- **No part of a text is ever taken that is none.**  The search for a macro comes to something,
and if it finds one, to boundaries with a `#` and a letter at least between them.  Whatever macro is
run from behind the name on comes to something, and if it does not fail, it stops at a boundary
there or behind, so that what it turns into can be put in its place.  All steps of an expansion come
to something. -/
theorem inBounds (env : Environment σ) (cwd t : Text) (s : Session σ) :
    (∃ found, Marker.places? t = some found ∧
      ∀ start index, found = some (start, index) →
        IsBoundary t start ∧ IsBoundary t index ∧ start + 1 < index ∧
        ∀ name, ∃ outcome s', run? env cwd name t index s = some (outcome, s') ∧
          ∀ markup stop, outcome = .ok (markup, stop) →
            index ≤ stop ∧ stop ≤ byteSize t ∧ IsBoundary t stop ∧
              (splice? t start stop markup).isSome) ∧
    ∀ fuel, expand? env cwd fuel t s = some (expand env cwd fuel t s) := by
  refine ⟨⟨_, Marker.places?_eq t, fun start index hfound => ?_⟩, fun fuel => expand?_eq ..⟩
  obtain ⟨⟨before, letters, after⟩, hf, hplaces⟩ := Option.map_eq_some_iff.1 hfound
  cases hplaces
  have ht := Marker.eq_of_find?_eq_some hf
  have hletters : 0 < byteSize letters := by
    have := List.length_pos_iff.2 (Marker.ne_nil_of_find? hf)
    have := Text.length_le_byteSize letters
    omega
  have hstart : dropBytes? (byteSize before) t = some ('#' :: (letters ++ after)) :=
    Text.dropBytes?_eq_some_iff.2 ⟨before, ht, rfl⟩
  have hindex : dropBytes? (byteSize before + 1 + byteSize letters) t = some after :=
    Text.dropBytes?_append (Text.dropBytes?_cons hstart)
  have hbefore := Text.isBoundary_of_dropBytes? hstart
  refine ⟨hbefore, Text.isBoundary_of_dropBytes? hindex, by omega, fun name => ?_⟩
  obtain ⟨outcome, hrun, -⟩ := exists_run?_eq env cwd name hindex s
  refine ⟨outcome, _, hrun, fun markup stop hok => ?_⟩
  rw [hok] at hrun
  exact bounds_of_run? hbefore (by omega) hindex hrun

end Session

end MemoryDoc
