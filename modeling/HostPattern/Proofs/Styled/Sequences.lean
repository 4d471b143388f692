import HostPattern.Decimal
import HostPattern.Proofs.Text.Case
import HostPattern.Styled
import HostPattern.Styled.Plain

/-!
# Attribute sequences in a text

Every attribute sequence begins with an escape character.  So a text without this character
is passed over as a whole, and a sequence that stands after it is found where it begins.
-/

namespace HostPattern.Styled

open Text

def IsNumber (digits : List Char) : Prop :=
  digits ≠ [] ∧ ∀ c ∈ digits, c.isDigit = true

def sequenceOf (digits : List Char) : List Char :=
  '\x1b' :: '[' :: (digits ++ ['m'])

def resetSequence : List Char :=
  sequenceOf ['0']

theorem isNumber_zero : IsNumber ['0'] :=
  ⟨by simp, by simp⟩

section Found

variable {digits rest text : List Char}

theorem afterSequence?_sequence (number : IsNumber digits) (rest : List Char) :
    afterSequence? (sequenceOf digits ++ rest) = some rest := by
  obtain ⟨filled, all⟩ := number
  obtain ⟨first, others, split⟩ := List.exists_cons_of_ne_nil filled
  have taken : (digits ++ 'm' :: rest).takeWhile Char.isDigit = digits := by
    rw [List.takeWhile_append_of_pos all, List.takeWhile_cons_of_neg (by decide),
      List.append_nil]
  have left : (digits ++ 'm' :: rest).dropWhile Char.isDigit = 'm' :: rest := by
    rw [List.dropWhile_append_of_pos all, List.dropWhile_cons_of_neg (by decide)]
  have whole : sequenceOf digits ++ rest = '\x1b' :: '[' :: (digits ++ 'm' :: rest) := by
    simp [sequenceOf]
  rw [whole, afterSequence?, taken, left, split]
  rfl

theorem exists_sequence_of_afterSequence? (found : afterSequence? text = some rest) :
    ∃ digits, IsNumber digits ∧ text = sequenceOf digits ++ rest := by
  unfold afterSequence? at found
  split at found
  · rename_i tail
    split at found
    · rename_i first others after taken left
      cases found
      have whole := List.takeWhile_append_dropWhile (p := Char.isDigit) (l := tail)
      rw [taken, left] at whole
      refine ⟨first :: others, ⟨by simp, ?_⟩, ?_⟩
      · intro c member
        rw [← taken] at member
        exact List.mem_takeWhile_imp member
      · rw [← whole]
        simp [sequenceOf]
    · cases found
  · cases found

theorem afterSequence?_eq_none {c : Char} (plain : c ≠ '\x1b') (text : List Char) :
    afterSequence? (c :: text) = none := by
  rw [Option.eq_none_iff_forall_ne_some]
  intro rest found
  obtain ⟨digits, _, whole⟩ := exists_sequence_of_afterSequence? found
  exact plain (List.cons.inj whole).1

end Found

section Plain

theorem plain_append {content : List Char} (clean : '\x1b' ∉ content) (rest : List Char) :
    plain (content ++ rest) = content ++ plain rest := by
  induction content with
  | nil => rfl
  | cons c content inductionHypothesis =>
    rw [List.mem_cons, not_or] at clean
    rw [List.cons_append, plain]
    split
    · rename_i found
      rw [afterSequence?_eq_none (Ne.symm clean.1)] at found
      cases found
    · rw [inductionHypothesis clean.2, List.cons_append]

theorem plain_sequence_append {digits : List Char} (number : IsNumber digits)
    (rest : List Char) : plain (sequenceOf digits ++ rest) = plain rest := by
  have found := afterSequence?_sequence number rest
  rw [sequenceOf, List.cons_append] at found ⊢
  rw [plain]
  split
  · rename_i after same
    rw [found] at same
    cases same
    rfl
  · rename_i none
    rw [found] at none
    cases none

end Plain

section Attributes

def switch (set : List Nat) (digits : List Char) : List Nat :=
  if Decimal.value digits = 0 then [] else Decimal.value digits :: set

/-- The attributes that a text sets and does not unset, the latest first, where `set` are
those from before. -/
def leftSet (set : List Nat) (text : List Char) : List Nat :=
  match text with
  | [] => set
  | c :: rest =>
    match _ : afterSequence? (c :: rest) with
    | some after => leftSet (switch set (rest.tail.takeWhile Char.isDigit)) after
    | none => leftSet set rest
termination_by text.length
decreasing_by
  · exact length_lt_of_afterSequence? ‹_›
  · simp

theorem leftSet_append {content : List Char} (clean : '\x1b' ∉ content) (set : List Nat)
    (rest : List Char) : leftSet set (content ++ rest) = leftSet set rest := by
  induction content with
  | nil => rfl
  | cons c content inductionHypothesis =>
    rw [List.mem_cons, not_or] at clean
    rw [List.cons_append, leftSet]
    split
    · rename_i found
      rw [afterSequence?_eq_none (Ne.symm clean.1)] at found
      cases found
    · exact inductionHypothesis clean.2

theorem leftSet_sequence_append {digits : List Char} (number : IsNumber digits)
    (set : List Nat) (rest : List Char) :
    leftSet set (sequenceOf digits ++ rest) = leftSet (switch set digits) rest := by
  have found := afterSequence?_sequence number rest
  have read : (('[' :: (digits ++ ['m'])) ++ rest).tail.takeWhile Char.isDigit = digits := by
    rw [List.cons_append, List.tail_cons, List.append_assoc,
      List.takeWhile_append_of_pos number.2, List.singleton_append,
      List.takeWhile_cons_of_neg (by decide), List.append_nil]
  rw [sequenceOf, List.cons_append] at found ⊢
  rw [leftSet]
  split
  · rename_i after same
    rw [found] at same
    cases same
    rw [read]
  · rename_i none
    rw [found] at none
    cases none

end Attributes

section Places

variable {content rest before digits after text : List Char}

theorem exists_before_of_append (clean : '\x1b' ∉ content)
    (same : content ++ rest = before ++ '\x1b' :: after) :
    ∃ middle, before = content ++ middle ∧ rest = middle ++ '\x1b' :: after := by
  rcases List.append_eq_append_iff.mp same with ⟨middle, front, back⟩ | ⟨middle, front, back⟩
  · exact ⟨middle, front, back⟩
  · cases middle with
    | nil =>
      rw [List.append_nil] at front
      exact ⟨[], by rw [front, List.append_nil], back.symm⟩
    | cons c middle =>
      obtain ⟨rfl, -⟩ := List.cons.inj back
      exact absurd (front ▸ List.mem_append_right _ List.mem_cons_self) clean

theorem escape_not_mem_tail_sequence {number : List Char} (isNumber : IsNumber number) :
    '\x1b' ∉ '[' :: (number ++ ['m']) := by
  intro inside
  rcases List.mem_cons.mp inside with bracket | inside
  · cases bracket
  · rcases List.mem_append.mp inside with digit | letter
    · exact absurd (isNumber.2 _ digit) (by decide)
    · cases List.mem_singleton.mp letter

theorem first_or_later {number : List Char} (isNumber : IsNumber number)
    (other : IsNumber digits)
    (same : sequenceOf number ++ rest = before ++ (sequenceOf digits ++ after)) :
    before = [] ∧ number = digits ∧ rest = after ∨
      ∃ middle, before = sequenceOf number ++ middle ∧
        rest = middle ++ (sequenceOf digits ++ after) := by
  cases before with
  | nil =>
    left
    have numbers : number ++ 'm' :: rest = digits ++ 'm' :: after := by
      simpa [sequenceOf] using same
    obtain ⟨digitsEq, rests⟩ :=
      append_cons_inj Char.isDigit isNumber.2 other.2 (by decide) (by decide) numbers
    exact ⟨rfl, digitsEq, (List.cons.inj rests).2⟩
  | cons c before =>
    right
    obtain ⟨rfl, tails⟩ := List.cons.inj same
    obtain ⟨middle, front, back⟩ :=
      exists_before_of_append (escape_not_mem_tail_sequence isNumber) tails
    exact ⟨middle, by rw [front]; rfl, back⟩

def HasSequence (text : List Char) : Prop :=
  ∃ before digits after, IsNumber digits ∧ text = before ++ (sequenceOf digits ++ after)

theorem HasSequence.append (front : List Char) (has : HasSequence text) :
    HasSequence (front ++ text) := by
  obtain ⟨before, digits, after, number, rfl⟩ := has
  exact ⟨front ++ before, digits, after, number, (List.append_assoc _ _ _).symm⟩

theorem hasSequence_sequence_append (number : IsNumber digits) (rest : List Char) :
    HasSequence (sequenceOf digits ++ rest) :=
  ⟨[], digits, rest, number, rfl⟩

/-- An attribute is set right after all are unset, and the last sequence unsets all. -/
structure Tidy (text : List Char) : Prop where
  resetBefore : ∀ before digits after, IsNumber digits → digits ≠ ['0'] →
    text = before ++ (sequenceOf digits ++ after) → resetSequence <:+ before
  resetLast : ∀ before digits after, IsNumber digits → ¬ HasSequence after →
    text = before ++ (sequenceOf digits ++ after) → digits = ['0']

theorem tidy_of_escape_not_mem (clean : '\x1b' ∉ text) : Tidy text := by
  have absent (before digits after : List Char) :
      text ≠ before ++ (sequenceOf digits ++ after) := by
    rintro rfl
    exact clean (List.mem_append_right _ List.mem_cons_self)
  exact ⟨fun before digits after _ _ same => (absent before digits after same).elim,
    fun before digits after _ _ same => (absent before digits after same).elim⟩

end Places

end HostPattern.Styled
