/-
# Sharps

What a text can still turn into is told by its `#`s.  A `#` before a digit begins no macro, and no
macro that is run elsewhere in the text changes that.  A `#` before `R` and a digit begins the macro
that links to an address, and nothing else.  Any other `#` is open: it may come to begin any macro.

The `#`s of a class are counted.  Two texts side by side have the `#`s of both, unless the second
begins with a character that tells the last `#` of the first what it is.

Main statements: counts add up where a text breaks (`count_append`), open `#`s never get more when
texts are put together (`count_isOpen_append_le`), and blocks cut out of a text have no more `#`s
than the text (`sum_count_blocks_le`).
-/
import MemoryDoc.Macro.TableText
import Mathlib.Algebra.Ring.Nat

namespace MemoryDoc.Sharp

/-! ## Classes of `#`s -/

/-- The number of `#`s with text of class `p` behind them. -/
def count (p : Text → Bool) : Text → Nat
  | [] => 0
  | c :: t => (if c = '#' ∧ p t = true then 1 else 0) + count p t

/-- The text behind a `#` is `R` and a digit: the `#` begins the macro that links to an address. -/
def isRoutine : Text → Bool
  | 'R' :: c :: _ => c.isDigit
  | _ => false

/-- The text behind a `#` is neither a digit nor `R` and a digit: the `#` is open. -/
def isOpen (t : Text) : Bool :=
  !t.head?.any Char.isDigit && !isRoutine t

/-- Text that does not tell a `#` before it what it is. -/
def Breaks (t : Text) : Prop :=
  ∀ c, t.head? = some c → c.isDigit = false ∧ c ≠ 'R'

/-- A class of `#`s, given by the texts behind them: it is told by what stands before a break, and
no `#` before a digit is in it. -/
structure IsClass (p : Text → Bool) : Prop where
  append : ∀ x b, Breaks b → p (x ++ b) = p x
  digit : ∀ c t, c.isDigit = true → p (c :: t) = false

/-- Whether a text breaks is told by its first character. -/
theorem breaks_cons {c : Char} {t : Text} (h : c.isDigit = false ∧ c ≠ 'R') : Breaks (c :: t) := by
  intro d hd
  cases hd
  exact h

/-- Text that breaks does not make a routine of what stands in front of it, nor anything else. -/
theorem isRoutine_append (x : Text) {b : Text} (hb : Breaks b) :
    isRoutine (x ++ b) = isRoutine x := by
  match x with
  | [] =>
    cases b with
    | nil => rfl
    | cons c b =>
      have hc := (hb c rfl).2
      show isRoutine (c :: b) = false
      unfold isRoutine
      split
      · next he => exact absurd (List.cons.inj he).1 hc
      · rfl
  | [c] =>
    by_cases hc : c = 'R'
    · subst hc
      cases b with
      | nil => rfl
      | cons d b => exact (hb d rfl).1
    · simp [isRoutine, hc]
  | c :: d :: x => by_cases hc : c = 'R' <;> simp [isRoutine, hc]

theorem isClass_isRoutine : IsClass isRoutine where
  append x _ hb := isRoutine_append x hb
  digit c t hc := by
    unfold isRoutine
    split
    · next he =>
      obtain ⟨rfl, -⟩ := List.cons.inj he
      exact absurd hc (by decide)
    · rfl

theorem isClass_isOpen : IsClass isOpen where
  append x b hb := by
    rw [isOpen, isOpen, isRoutine_append x hb]
    cases x with
    | cons c x => rfl
    | nil =>
      cases b with
      | nil => rfl
      | cons c b => simp [(hb c rfl).1]
  digit c t hc := by simp [isOpen, hc]

/-- A `#` that is open stays open if less text stands behind it. -/
theorem isOpen_of_append {x b : Text} (h : isOpen (x ++ b) = true) : isOpen x = true := by
  match x with
  | [] => rfl
  | [c] => by_cases hc : c = 'R' <;> simp_all [isOpen, isRoutine]
  | c :: d :: x => by_cases hc : c = 'R' <;> simp_all [isOpen, isRoutine]

/-! ## Counts of texts put together -/

variable {p : Text → Bool}

/-- A front without sharps does not count. -/
theorem count_append_of_not_mem {a : Text} (h : '#' ∉ a) (b : Text) :
    count p (a ++ b) = count p b := by
  induction a with
  | nil => rfl
  | cons c a ih =>
    rw [List.mem_cons, not_or] at h
    rw [List.cons_append, count, if_neg fun hc => h.1 hc.1.symm, ih h.2, Nat.zero_add]

theorem count_eq_zero {a : Text} (h : '#' ∉ a) : count p a = 0 := by
  simpa [count] using count_append_of_not_mem (p := p) h []

/-- **Counts add up where a text breaks.** -/
theorem count_append (hp : IsClass p) (a : Text) {b : Text} (hb : Breaks b) :
    count p (a ++ b) = count p a + count p b := by
  induction a with
  | nil => exact (Nat.zero_add _).symm
  | cons c a ih => rw [List.cons_append, count, count, hp.append a b hb, ih, Nat.add_assoc]

/-- Counts add up on both sides of a word at which a text breaks. -/
theorem count_around (hp : IsClass p) (a b : Text) {c : Char} {w : Text}
    (hc : c.isDigit = false ∧ c ≠ 'R') (hw : '#' ∉ c :: w) :
    count p (a ++ (c :: w ++ b)) = count p a + count p b := by
  rw [count_append hp a (b := c :: w ++ b) (breaks_cons hc), count_append_of_not_mem hw]

/-- **Two texts put together have no more open `#`s than both.** -/
theorem count_isOpen_append_le (a b : Text) :
    count isOpen (a ++ b) ≤ count isOpen a + count isOpen b := by
  induction a with
  | nil => simp [count]
  | cons c a ih =>
    rw [List.cons_append, count, count]
    split
    · next h => rw [if_pos ⟨h.1, isOpen_of_append h.2⟩]; omega
    · omega

/-- The end of a text counts no more than the text. -/
theorem count_append_right_le (a b : Text) : count p b ≤ count p (a ++ b) := by
  induction a with
  | nil => exact Nat.le_refl _
  | cons c a ih =>
    rw [List.cons_append, count]
    omega

/-- A text that is left counts no more than all of it. -/
theorem count_le_of_suffix {a b : Text} (h : b <:+ a) : count p b ≤ count p a := by
  obtain ⟨front, rfl⟩ := h
  exact count_append_right_le front b

/-- Text without a `#` in front of another and behind it adds no open `#`. -/
theorem count_isOpen_between_le {a b : Text} (ha : '#' ∉ a) (hb : '#' ∉ b) (t : Text) :
    count isOpen (a ++ t ++ b) ≤ count isOpen t := by
  rw [List.append_assoc, count_append_of_not_mem ha]
  have hle := count_isOpen_append_le t b
  rw [count_eq_zero hb] at hle
  exact hle

/-- Texts that are joined without sharps count no more than each on its own. -/
theorem count_isOpen_join_le {sep : Text} (hsep : '#' ∉ sep) (ts : List Text) :
    count isOpen (Text.join sep ts) ≤ (ts.map (count isOpen)).sum := by
  induction ts with
  | nil => exact Nat.le_refl _
  | cons t ts ih =>
    cases ts with
    | nil => simp [Text.join]
    | cons u us =>
      rw [Text.join, List.intercalate_cons_cons, List.map_cons, List.sum_cons, List.append_assoc]
      have hfirst := count_isOpen_append_le t (sep ++ sep.intercalate (u :: us))
      rw [count_append_of_not_mem hsep] at hfirst
      rw [Text.join] at ih
      omega

/-! ## Counts of parts of a text -/

/-- A blank does not tell a `#` before it what it is. -/
theorem breaks_of_isBlank {c : Char} (h : Text.isBlank c = true) : c.isDigit = false ∧ c ≠ 'R' := by
  constructor
  · cases hd : c.isDigit with
    | false => rfl
    | true =>
      exfalso
      simp only [Char.isDigit, Bool.and_eq_true, decide_eq_true_eq, ge_iff_le,
        UInt32.le_iff_toNat_le] at hd
      simp only [Text.isBlank, Bool.or_eq_true, Bool.and_eq_true, beq_iff_eq, decide_eq_true_eq,
        Char.le_def, UInt32.le_iff_toNat_le, Char.ext_iff, ← UInt32.toNat_inj] at h
      simp at h hd
      omega
  · rintro rfl
    simp [Text.isBlank] at h

theorem count_trimmed_le (hp : IsClass p) (t : Text) :
    count p (TableText.trimmed t) ≤ count p t := by
  unfold TableText.trimmed Text.trim Text.trimFront
  refine Nat.le_trans ?_ (count_le_of_suffix (List.dropWhile_suffix Text.isBlank))
  generalize t.dropWhile Text.isBlank = u
  -- What is cut off at the end are blanks, and a `#` is the same before a blank as at the end.
  have hu : (u.reverse.dropWhile Text.isBlank).reverse ++ (u.reverse.takeWhile Text.isBlank).reverse
      = u := by
    rw [← List.reverse_append, List.takeWhile_append_dropWhile, List.reverse_reverse]
  have hblank : ∀ c ∈ (u.reverse.takeWhile Text.isBlank).reverse, Text.isBlank c = true := by
    intro c hc
    exact (List.all_eq_true.1 List.all_takeWhile) c (List.mem_reverse.1 hc)
  have hbreaks : Breaks (u.reverse.takeWhile Text.isBlank).reverse := fun c hc =>
    breaks_of_isBlank (hblank c (List.mem_of_mem_head? hc))
  calc count p (u.reverse.dropWhile Text.isBlank).reverse
      ≤ count p (u.reverse.dropWhile Text.isBlank).reverse
          + count p (u.reverse.takeWhile Text.isBlank).reverse := Nat.le_add_right _ _
    _ = count p u := by rw [← count_append hp _ hbreaks, hu]

/-- The blocks that are still to come have no more `#`s than what has been read of the first and
what is left to be read. -/
theorem sum_count_blocksFrom_le (hp : IsClass p) (inside : Option Text) (prev : Option Char)
    (t : Text) :
    ((TableText.blocksFrom inside prev t).map (count p)).sum
      ≤ count p ((inside.getD []).reverse ++ t) := by
  -- The block that is being read counts with what is ahead, as it may still grow.
  fun_induction TableText.blocksFrom inside prev t with
  | case1 => exact Nat.zero_le _
  | case2 prev block =>
    simp only [List.map_cons, List.map_nil, List.sum_cons, List.sum_nil, Nat.add_zero,
      Option.getD_some, List.append_nil]
    exact count_trimmed_le hp _
  | case3 prev c t hopen ih => exact Nat.le_trans ih (count_append_right_le [c] t)
  | case4 prev c t hopen ih => exact Nat.le_trans ih (count_append_right_le [c] t)
  | case5 block prev c t hclose ih =>
    rw [List.map_cons, List.sum_cons, Option.getD_some,
      count_append hp _ (breaks_cons (by rw [hclose.1]; decide))]
    have htrim := count_trimmed_le hp block.reverse
    have hrest := count_append_right_le (p := p) [c] t
    simp only [Option.getD_none, List.reverse_nil, List.nil_append] at ih
    rw [List.singleton_append] at hrest
    omega
  | case6 block prev c t hclose ih =>
    simpa only [Option.getD_some, List.reverse_cons, List.append_assoc, List.singleton_append]
      using ih

/-- **The blocks between braces have no more `#`s than the text that they stand in.** -/
theorem sum_count_blocks_le (hp : IsClass p) (t : Text) :
    ((TableText.blocks t).map (count p)).sum ≤ count p t :=
  sum_count_blocksFrom_le hp none none t

end MemoryDoc.Sharp
