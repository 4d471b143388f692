import HostPattern.Proofs.Text.Case
import HostPattern.SerialRange.Text

/-!
# The parts of a range's text

`form` admits exactly the texts of well-formed parts, and `split?` takes such a text
apart as it was put together.  Hence a text has its parts in one way only, whichever
way the right side is scanned for its digits and letters.
-/

namespace HostPattern.SerialRange.Parts

open Text

theorem separator_not_isAlphanum : separator.isAlphanum = false := rfl

section Form

theorem admitsFrom_letters_iff {text : List Char} :
    form.admitsFrom .letters text = true ↔ ∀ c ∈ text, c.isAlpha = true := by
  induction text with
  | nil => simp [form]
  | cons c text inductionHypothesis =>
    rw [Form.admitsFrom_cons, List.forall_mem_cons, ← inductionHypothesis]
    simp only [form, Option.ite_none_right_eq_some, Option.some.injEq]
    constructor
    · intro admitted
      rcases admitted with ⟨_, ⟨letter, rfl⟩, rest⟩
      exact ⟨letter, rest⟩
    · intro both
      rcases both with ⟨letter, rest⟩
      exact ⟨_, ⟨letter, rfl⟩, rest⟩

theorem admitsFrom_digits_iff {text : List Char} :
    form.admitsFrom .digits text = true ↔
      ∃ digits letters, text = digits ++ letters ∧ (∀ c ∈ digits, c.isDigit = true) ∧
        ∀ c ∈ letters, c.isAlpha = true := by
  induction text with
  | nil =>
    constructor
    · exact fun _ => ⟨[], [], rfl, by simp, by simp⟩
    · exact fun _ => rfl
  | cons c text inductionHypothesis =>
    rw [Form.admitsFrom_cons]
    constructor
    · intro admitted
      rcases admitted with ⟨next, step, rest⟩
      simp only [form] at step
      split at step
      case isTrue digit =>
        cases step
        obtain ⟨digits, letters, rfl, digitsAll, lettersAll⟩ := inductionHypothesis.mp rest
        exact ⟨c :: digits, letters, rfl, List.forall_mem_cons.mpr ⟨digit, digitsAll⟩, lettersAll⟩
      case isFalse =>
        split at step
        case isTrue letter =>
          cases step
          exact ⟨[], c :: text, rfl, by simp,
            List.forall_mem_cons.mpr ⟨letter, admitsFrom_letters_iff.mp rest⟩⟩
        case isFalse => cases step
    · intro cut
      rcases cut with ⟨digits, letters, split, digitsAll, lettersAll⟩
      cases digits with
      | nil =>
        rw [List.nil_append] at split
        subst split
        obtain ⟨letter, rest⟩ := List.forall_mem_cons.mp lettersAll
        exact ⟨.letters, by simp [form, letter, not_isDigit_of_isAlpha letter],
          admitsFrom_letters_iff.mpr rest⟩
      | cons d digits =>
        rw [List.cons_append, List.cons.injEq] at split
        obtain ⟨rfl, rfl⟩ := split
        obtain ⟨digit, rest⟩ := List.forall_mem_cons.mp digitsAll
        exact ⟨.digits, by simp [form, digit],
          inductionHypothesis.mpr ⟨digits, letters, rfl, rest, lettersAll⟩⟩

theorem admitsFrom_separator_iff {text : List Char} :
    form.admitsFrom .separator text = true ↔
      ∃ digits letters, text = digits ++ letters ∧ digits ≠ [] ∧
        (∀ c ∈ digits, c.isDigit = true) ∧ ∀ c ∈ letters, c.isAlpha = true := by
  constructor
  · intro admitted
    cases text with
    | nil => cases admitted
    | cons c text =>
      obtain ⟨next, step, rest⟩ := (Form.admitsFrom_cons _ _ _ _).mp admitted
      simp only [form, Option.ite_none_right_eq_some, Option.some.injEq] at step
      obtain ⟨digit, rfl⟩ := step
      obtain ⟨digits, letters, rfl, digitsAll, lettersAll⟩ := admitsFrom_digits_iff.mp rest
      exact ⟨c :: digits, letters, rfl, List.cons_ne_nil _ _,
        List.forall_mem_cons.mpr ⟨digit, digitsAll⟩, lettersAll⟩
  · intro cut
    rcases cut with ⟨digits, letters, rfl, nonempty, digitsAll, lettersAll⟩
    obtain ⟨d, digits, rfl⟩ := List.exists_cons_of_ne_nil nonempty
    obtain ⟨digit, rest⟩ := List.forall_mem_cons.mp digitsAll
    rw [List.cons_append, Form.admitsFrom_cons]
    exact ⟨.digits, by simp [form, digit],
      admitsFrom_digits_iff.mpr ⟨digits, letters, rfl, rest, lettersAll⟩⟩

theorem admitsFrom_left_iff {text : List Char} :
    form.admitsFrom .left text = true ↔
      ∃ left right, text = left ++ separator :: right ∧ (∀ c ∈ left, c.isAlphanum = true) ∧
        form.admitsFrom .separator right = true := by
  induction text with
  | nil =>
    constructor
    · exact fun absurd => nomatch absurd
    · intro cut
      rcases cut with ⟨left, right, split, _⟩
      simp at split
  | cons c text inductionHypothesis =>
    rw [Form.admitsFrom_cons]
    constructor
    · intro admitted
      rcases admitted with ⟨next, step, rest⟩
      simp only [form] at step
      split at step
      case isTrue plain =>
        cases step
        obtain ⟨left, right, rfl, leftAll, rightAdmitted⟩ := inductionHypothesis.mp rest
        exact ⟨c :: left, right, rfl, List.forall_mem_cons.mpr ⟨plain, leftAll⟩, rightAdmitted⟩
      case isFalse =>
        split at step
        case isTrue separates =>
          cases step
          exact ⟨[], text, by rw [separates]; rfl, by simp, rest⟩
        case isFalse => cases step
    · intro cut
      rcases cut with ⟨left, right, split, leftAll, rightAdmitted⟩
      cases left with
      | nil =>
        rw [List.nil_append, List.cons.injEq] at split
        obtain ⟨rfl, rfl⟩ := split
        exact ⟨.separator, by simp [form, separator_not_isAlphanum], rightAdmitted⟩
      | cons d left =>
        rw [List.cons_append, List.cons.injEq] at split
        obtain ⟨rfl, rfl⟩ := split
        obtain ⟨plain, rest⟩ := List.forall_mem_cons.mp leftAll
        exact ⟨.left, by simp [form, plain],
          inductionHypothesis.mpr ⟨left, right, rfl, rest, rightAdmitted⟩⟩

theorem admits_iff {text : List Char} :
    form.admits text = true ↔ ∃ parts : Parts, parts.WellFormed ∧ text = parts.write := by
  constructor
  · intro admitted
    cases text with
    | nil => cases admitted
    | cons c text =>
      obtain ⟨next, step, rest⟩ := (Form.admitsFrom_cons _ _ _ _).mp admitted
      simp only [form, Option.ite_none_right_eq_some, Option.some.injEq] at step
      obtain ⟨plain, rfl⟩ := step
      obtain ⟨left, right, rfl, leftAll, rightAdmitted⟩ := admitsFrom_left_iff.mp rest
      obtain ⟨digits, letters, rfl, nonempty, digitsAll, lettersAll⟩ :=
        admitsFrom_separator_iff.mp rightAdmitted
      have wholeAll : ∀ d ∈ c :: left, d.isAlphanum = true :=
        List.forall_mem_cons.mpr ⟨plain, leftAll⟩
      exact ⟨⟨c :: left, digits, letters⟩,
        ⟨List.cons_ne_nil _ _, wholeAll, nonempty, digitsAll, lettersAll⟩, rfl⟩
  · intro ranges
    rcases ranges with ⟨⟨left, digits, letters⟩, wellFormed, rfl⟩
    obtain ⟨leftNonempty, leftAll, nonempty, digitsAll, lettersAll⟩ := wellFormed
    obtain ⟨c, left, rfl⟩ := List.exists_cons_of_ne_nil leftNonempty
    obtain ⟨plain, rest⟩ := List.forall_mem_cons.mp leftAll
    rw [Form.admits, write, List.cons_append, Form.admitsFrom_cons]
    refine ⟨.left, by simp [form, plain], ?_⟩
    apply admitsFrom_left_iff.mpr
    refine ⟨left, _, rfl, rest, ?_⟩
    apply admitsFrom_separator_iff.mpr
    exact ⟨digits, letters, rfl, nonempty, digitsAll, lettersAll⟩

end Form

theorem takeWhile_append_eq_left {front back : List Char} {keep : Char → Bool}
    (frontAll : ∀ c ∈ front, keep c = true) (backNone : ∀ c ∈ back, keep c = false) :
    (front ++ back).takeWhile keep = front := by
  rw [List.takeWhile_append_of_pos frontAll]
  cases back with
  | nil => rw [List.takeWhile_nil, List.append_nil]
  | cons c back =>
    rw [List.takeWhile_cons_of_neg (by simp [backNone c]), List.append_nil]

section Separator

variable {parts : Parts}

theorem ne_separator_of_mem_left (wellFormed : parts.WellFormed) :
    ∀ c ∈ parts.left, (c != separator) = true := by
  intro c member
  rw [bne_iff_ne]
  rintro rfl
  have plain := wellFormed.2.1 _ member
  rw [separator_not_isAlphanum] at plain
  cases plain

theorem takeWhile_write (wellFormed : parts.WellFormed) :
    parts.write.takeWhile (· != separator) = parts.left := by
  rw [write, List.takeWhile_append_of_pos (ne_separator_of_mem_left wellFormed),
    List.takeWhile_cons_of_neg (by simp), List.append_nil]

theorem dropWhile_write (wellFormed : parts.WellFormed) :
    parts.write.dropWhile (· != separator) = separator :: (parts.digits ++ parts.letters) := by
  rw [write, List.dropWhile_append_of_pos (ne_separator_of_mem_left wellFormed),
    List.dropWhile_cons_of_neg (by simp)]

end Separator

theorem split?_write {parts : Parts} (wellFormed : parts.WellFormed) :
    split? parts.write = some parts := by
  have left := takeWhile_write wellFormed
  have right := dropWhile_write wellFormed
  obtain ⟨_, _, _, digitsAll, lettersAll⟩ := wellFormed
  have lettersOther : ∀ c ∈ parts.letters, c.isDigit = false := fun c member =>
    not_isDigit_of_isAlpha (lettersAll c member)
  have digits : (parts.digits ++ parts.letters).takeWhile Char.isDigit = parts.digits :=
    takeWhile_append_eq_left digitsAll lettersOther
  have letters : ((parts.digits ++ parts.letters).reverse.takeWhile (!·.isDigit)).reverse =
      parts.letters := by
    rw [List.reverse_append, takeWhile_append_eq_left, List.reverse_reverse]
    · intro c member
      simp [lettersOther c (List.mem_reverse.mp member)]
    · intro c member
      simp [digitsAll c (List.mem_reverse.mp member)]
  simp only [split?, right, left, digits, letters]

theorem read?_eq_some_iff {text : List Char} {parts : Parts} :
    read? text = some parts ↔ parts.WellFormed ∧ text = parts.write := by
  rw [read?, Option.ite_none_right_eq_some, admits_iff]
  constructor
  · intro reading
    rcases reading with ⟨⟨written, wellFormed, rfl⟩, found⟩
    rw [split?_write wellFormed] at found
    cases found
    exact ⟨wellFormed, rfl⟩
  · intro writing
    rcases writing with ⟨wellFormed, rfl⟩
    exact ⟨⟨parts, wellFormed, rfl⟩, split?_write wellFormed⟩

theorem read?_eq_none_iff {text : List Char} :
    read? text = none ↔ ¬ ∃ parts : Parts, parts.WellFormed ∧ text = parts.write := by
  simp only [Option.eq_none_iff_forall_ne_some, ne_eq, read?_eq_some_iff, not_exists]

theorem write_injective {first second : Parts} (firstFormed : first.WellFormed)
    (secondFormed : second.WellFormed) (same : first.write = second.write) : first = second := by
  have split := split?_write firstFormed
  rw [same, split?_write secondFormed] at split
  exact (Option.some.inj split).symm

end HostPattern.SerialRange.Parts
