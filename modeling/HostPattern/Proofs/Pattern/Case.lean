import HostPattern.Proofs.Pattern.Reading
import HostPattern.Proofs.SerialRange.Members
import HostPattern.Proofs.Wildcard.Search

/-!
# Case in patterns and names

Texts that are equal up to ASCII case are read alike: as the same kind of pattern with the
same numbers, or for the same reason as none.  `SameOutcome` relates such results, part by
part, and patterns that are so related accept the same names, in any case.
-/

namespace HostPattern

open Text

namespace SerialRange

namespace Parts

/-- The parts differ at most in the case of their letters. -/
structure Alike (parts other : Parts) : Prop where
  left : fold parts.left = fold other.left
  digits : parts.digits = other.digits
  letters : fold parts.letters = fold other.letters

theorem Alike.length_left {parts other : Parts} (alike : Alike parts other) :
    parts.left.length = other.left.length := by
  simpa using congrArg List.length alike.left

theorem Alike.needed {parts other : Parts} (alike : Alike parts other) :
    parts.needed = other.needed := by
  have letters : parts.letters.length = other.letters.length := by
    simpa using congrArg List.length alike.letters
  rw [Parts.needed, Parts.needed, alike.digits, letters]

theorem Alike.wellFormed {parts other : Parts} (alike : Alike parts other)
    (wellFormed : parts.WellFormed) : other.WellFormed := by
  obtain ⟨filled, leftAll, nonempty, digitsAll, lettersAll⟩ := wellFormed
  refine ⟨?_, ?_, ?_, ?_, ?_⟩
  · rw [← List.length_pos_iff, ← alike.length_left]
    exact List.length_pos_iff.mpr filled
  · exact (forall_mem_of_fold_eq isAlphanum_toLower alike.left).mp leftAll
  · rw [← alike.digits]
    exact nonempty
  · rw [← alike.digits]
    exact digitsAll
  · exact (forall_mem_of_fold_eq Char.isAlpha_toLower_eq_isAlpha alike.letters).mp lettersAll

/-- A text that is equal to a written one up to case is written from parts that are so. -/
theorem exists_alike_of_fold_eq {parts : Parts} {text : List Char} (wellFormed : parts.WellFormed)
    (same : fold text = fold parts.write) :
    ∃ other : Parts, Alike parts other ∧ other.WellFormed ∧ text = other.write := by
  have digitsAll := wellFormed.2.2.2.1
  have marks : separator.toLower = separator := rfl
  rw [write, fold_append, fold_cons, fold_append, marks] at same
  obtain ⟨left, right, rfl, sameLeft, sameRight⟩ := List.map_eq_append_iff.mp same
  obtain ⟨mark, ends, rfl, sameMark, sameEnds⟩ := List.map_eq_cons_iff.mp sameRight
  obtain ⟨digits, letters, rfl, sameDigits, sameLetters⟩ := List.map_eq_append_iff.mp sameEnds
  obtain rfl : mark = separator := eq_of_toLower_eq rfl (sameMark.trans marks.symm)
  obtain rfl : digits = parts.digits :=
    eq_of_fold_eq (fun c member => not_isAlpha_of_isDigit (digitsAll c member)) sameDigits
  have alike : Alike parts ⟨left, parts.digits, letters⟩ :=
    ⟨sameLeft.symm, rfl, sameLetters.symm⟩
  exact ⟨_, alike, alike.wellFormed wellFormed, rfl⟩

end Parts

/-- The ranges have the same numbers and differ at most in the case of their letters. -/
structure Alike (range other : SerialRange) : Prop where
  before : fold range.before.toList = fold other.before.toList
  after : fold range.after.toList = fold other.after.toList
  width : range.width = other.width
  first : range.first = other.first
  last : range.last = other.last

theorem firstValue_of_fold_eq {number other : List Char} (same : fold number = fold other) :
    (if number.all Char.isDigit = true ∧ Decimal.value number < 2 ^ 64 then
      Decimal.value number else 0) =
    if other.all Char.isDigit = true ∧ Decimal.value other < 2 ^ 64 then
      Decimal.value other else 0 := by
  by_cases digits : ∀ c ∈ number, c.isDigit = true
  · have plain : other = number :=
      eq_of_fold_eq (fun c member => not_isAlpha_of_isDigit (digits c member)) same.symm
    rw [plain]
  · have otherwise : ¬ ∀ c ∈ other, c.isDigit = true := by
      rw [← forall_mem_of_fold_eq isDigit_toLower same]
      exact digits
    rw [if_neg fun both => digits (List.all_eq_true.mp both.1),
      if_neg fun both => otherwise (List.all_eq_true.mp both.1)]

theorem Parts.Alike.describes {parts other : Parts} {range otherRange : SerialRange}
    (alike : Parts.Alike parts other) (described : parts.Describes range)
    (otherwise : other.Describes otherRange) : SerialRange.Alike range otherRange := by
  rcases described with ⟨number, rest, split, numberSize, restSize, after, width, last, first⟩
  rcases otherwise with
    ⟨number', rest', split', numberSize', restSize', after', width', last', first'⟩
  have sameLeft := alike.left
  have sameLetters : parts.letters.length = other.letters.length := by
    simpa using congrArg List.length alike.letters
  have sameDigits := congrArg List.length alike.digits
  rw [split, split', fold_append, fold_append, fold_append, fold_append] at sameLeft
  obtain ⟨before, ends⟩ := List.append_inj' sameLeft (by simp; omega)
  obtain ⟨sameNumber, _⟩ := List.append_inj' ends (by simp; omega)
  refine ⟨before, ?_, ?_, ?_, ?_⟩
  · rw [after, after']
    exact alike.letters
  · rw [width, width', sameDigits]
  · apply UInt64.toNat_inj.mp
    rw [first, first', firstValue_of_fold_eq sameNumber]
  · apply UInt64.toNat_inj.mp
    rw [last, last', alike.digits]

theorem Alike.matches_iff {range other : SerialRange} (alike : Alike range other)
    {name otherName : String} (same : fold name.toList = fold otherName.toList) :
    range.Matches name ↔ other.Matches otherName := by
  simp only [Matches, toList_nameAt, fold_append, alike.before, alike.after, alike.width,
    alike.first, alike.last, same]

theorem Alike.size {range other : SerialRange} (alike : Alike range other) :
    range.size = other.size := by
  rw [SerialRange.size, SerialRange.size, alike.first, alike.last]

end SerialRange

namespace Wildcard

/-- The pieces differ at most in the case of their letters. -/
def Alike (wildcard other : Wildcard) : Prop :=
  (wildcard.pieces.map String.toList).map fold = (other.pieces.map String.toList).map fold

/-- The search looks at folded texts only. -/
theorem Alike.accepts_eq {wildcard other : Wildcard} (alike : Alike wildcard other)
    {name otherName : String} (same : fold name.toList = fold otherName.toList) :
    wildcard.accepts name = other.accepts otherName := by
  simp only [Alike, pieces, List.cons_append, List.map_cons, List.map_append, List.map_nil,
    List.map_map, List.cons.injEq] at alike
  obtain ⟨front, rest⟩ := alike
  obtain ⟨middle, back⟩ := List.append_inj' rest rfl
  rw [List.singleton_inj] at back
  have pieces (wildcard : Wildcard) : (wildcard.middle.map fun piece => fold piece.toList) =
      wildcard.middle.map (fold ∘ String.toList) := rfl
  rw [accepts, accepts, front, same, back, pieces wildcard, middle, pieces other]

def isTextChar (c : Char) : Bool :=
  isPieceChar c || c == mark

theorem isText_iff {text : List Char} :
    IsText text ↔ (∀ c ∈ text, isTextChar c = true) ∧ mark ∈ text := by
  simp only [IsText, isTextChar, Bool.or_eq_true, isPieceChar_iff, beq_iff_eq, or_assoc]

theorem isTextChar_toLower (c : Char) : isTextChar c.toLower = isTextChar c := by
  have unchanged {d : Char} (plain : d.isAlpha = false) : (c.toLower == d) = (c == d) := by
    rw [Bool.eq_iff_iff, beq_iff_eq, beq_iff_eq]
    constructor
    · intro lowered
      exact eq_of_toLower_eq plain (lowered.trans (toLower_of_not_isAlpha plain).symm)
    · rintro rfl
      exact toLower_of_not_isAlpha plain
  rw [isTextChar, isTextChar, isPieceChar, isPieceChar, isAlphanum_toLower, unchanged rfl,
    unchanged rfl]

theorem isText_of_fold_eq {text other : List Char} (same : fold text = fold other)
    (isText : IsText text) : IsText other := by
  rw [isText_iff] at isText ⊢
  exact ⟨(forall_mem_of_fold_eq isTextChar_toLower same).mp isText.1,
    (mem_of_fold_eq rfl same).mp isText.2⟩

/-- Folding keeps the marks, and so the places where the text is split. -/
theorem map_fold_splitOn (text : List Char) :
    (text.splitOn mark).map fold = (fold text).splitOn mark := by
  induction text with
  | nil => rfl
  | cons c text inductionHypothesis =>
    rw [fold_cons, List.splitOn_cons_eq_if_modifyHead, List.splitOn_cons_eq_if_modifyHead,
      ← inductionHypothesis]
    by_cases marks : c = mark
    · subst marks
      rfl
    · have lowered : c.toLower ≠ mark := fun same => marks (eq_of_toLower_eq rfl same)
      rw [if_neg (by simpa using marks), if_neg (by simpa using lowered)]
      cases text.splitOn mark <;> rfl

theorem count_mark_eq_of_fold_eq {text other : List Char} (same : fold text = fold other) :
    text.count mark = other.count mark := by
  have pieces := congrArg (fun chars => (List.splitOn mark chars).length) same
  simp only [← map_fold_splitOn, List.length_map, length_splitOn] at pieces
  omega

end Wildcard

namespace Pattern

open SerialRange

/-- The results are the same kind of pattern with the same numbers, or the same kind of error,
and differ at most in the case of their letters. -/
inductive SameOutcome : Except PatternError Pattern → Except PatternError Pattern → Prop
  | leftTooShort {left other : String} {needed : Nat} :
      fold left.toList = fold other.toList →
      SameOutcome (.error (.leftTooShort left needed)) (.error (.leftTooShort other needed))
  | endTooLarge {digits : String} :
      SameOutcome (.error (.endTooLarge digits)) (.error (.endTooLarge digits))
  | tooManyGaps : SameOutcome (.error .tooManyGaps) (.error .tooManyGaps)
  | unrecognized {raw other : String} :
      fold raw.toList = fold other.toList →
      SameOutcome (.error (.unrecognized raw)) (.error (.unrecognized other))
  | serial {range other : SerialRange} :
      SerialRange.Alike range other → SameOutcome (.ok (.serial range)) (.ok (.serial other))
  | wild {wildcard other : Wildcard} :
      Wildcard.Alike wildcard other → SameOutcome (.ok (.wild wildcard)) (.ok (.wild other))

section Parse

variable {raw other : String}

/-- One case for each reading: what it asks of the text does not depend on case. -/
theorem Reading.sameOutcome_parse {result : Except PatternError Pattern}
    (reading : Reading raw result) (same : fold other.toList = fold raw.toList) :
    SameOutcome result (parse other) := by
  cases reading with
  | leftTooShort wellFormed written short =>
    rw [written] at same
    obtain ⟨parts, alike, formed, writing⟩ := Parts.exists_alike_of_fold_eq wellFormed same
    have shorter : parts.left.length < parts.needed := by
      rw [← alike.length_left, ← alike.needed]
      exact short
    rw [(Reading.leftTooShort formed writing shorter).parse_eq]
    have needed := alike.needed
    unfold Parts.needed at needed
    rw [needed]
    apply SameOutcome.leftTooShort
    rw [String.toList_ofList, String.toList_ofList]
    exact alike.left
  | endTooLarge wellFormed written room large =>
    rw [written] at same
    obtain ⟨parts, alike, formed, writing⟩ := Parts.exists_alike_of_fold_eq wellFormed same
    have otherRoom : parts.needed ≤ parts.left.length := by
      rw [← alike.length_left, ← alike.needed]
      exact room
    rw [alike.digits] at large ⊢
    rw [(Reading.endTooLarge formed writing otherRoom large).parse_eq]
    exact .endTooLarge
  | serial wellFormed written described =>
    rw [written] at same
    obtain ⟨parts, alike, formed, writing⟩ := Parts.exists_alike_of_fold_eq wellFormed same
    have room : parts.needed ≤ parts.left.length := by
      rw [← alike.length_left, ← alike.needed]
      exact described.needed_le
    have small := described.value_lt
    rw [alike.digits] at small
    obtain ⟨range, made⟩ := exists_ofParts formed room small
    have otherwise := (ofParts_eq_ok_iff formed).mp made
    rw [(Reading.serial formed writing otherwise).parse_eq]
    exact .serial (alike.describes described otherwise)
  | tooManyGaps isText many =>
    have otherText := Wildcard.isText_of_fold_eq same.symm isText
    rw [← Wildcard.count_mark_eq_of_fold_eq same] at many
    rw [(Reading.tooManyGaps otherText many).parse_eq]
    exact .tooManyGaps
  | wild isText few split =>
    have otherText := Wildcard.isText_of_fold_eq same.symm isText
    obtain ⟨wildcard, pieces⟩ := exists_pieces_of_isText otherText
    rw [← Wildcard.count_mark_eq_of_fold_eq same] at few
    rw [(Reading.wild otherText few pieces).parse_eq]
    apply SameOutcome.wild
    rw [Wildcard.Alike, split, pieces, Wildcard.map_fold_splitOn, Wildcard.map_fold_splitOn, same]
  | unrecognized unwritten noText =>
    have otherUnwritten : ¬ ∃ parts : Parts, parts.WellFormed ∧ other.toList = parts.write := by
      intro ranges
      rcases ranges with ⟨parts, formed, writing⟩
      rw [writing] at same
      obtain ⟨parts, _, wellFormed, written⟩ := Parts.exists_alike_of_fold_eq formed same.symm
      exact unwritten ⟨parts, wellFormed, written⟩
    have otherNoText : ¬ Wildcard.IsText other.toList := fun isText =>
      noText (Wildcard.isText_of_fold_eq same isText)
    rw [(Reading.unrecognized otherUnwritten otherNoText).parse_eq]
    exact .unrecognized same.symm

theorem sameOutcome_parse (same : fold raw.toList = fold other.toList) :
    SameOutcome (parse raw) (parse other) :=
  (reading_parse raw).sameOutcome_parse same.symm

end Parse

theorem SameOutcome.accepts_compile_eq {raw other : String}
    (outcome : SameOutcome (parse raw) (parse other)) {name otherName : String}
    (same : fold name.toList = fold otherName.toList) :
    (compile raw).accepts name = (compile other).accepts otherName := by
  unfold compile
  generalize parse raw = result at outcome
  generalize parse other = otherResult at outcome
  cases outcome with
  | leftTooShort => rfl
  | endTooLarge => rfl
  | tooManyGaps => rfl
  | unrecognized => rfl
  | serial alike => exact SerialRange.accepts_eq_of_matches_iff (alike.matches_iff same)
  | wild alike => exact alike.accepts_eq same

/-- Case has no effect: not on what a text is read as, not on the numbers of a range, and not
on which names are accepted. -/
theorem parse_and_accepts_ignore_case {raw other : String}
    (same : fold raw.toList = fold other.toList) :
    SameOutcome (parse raw) (parse other) ∧
    (∀ range, parse raw = .ok (.serial range) →
      ∃ otherRange, parse other = .ok (.serial otherRange) ∧ range.width = otherRange.width ∧
        range.first = otherRange.first ∧ range.last = otherRange.last ∧
        range.size = otherRange.size) ∧
    ∀ name otherName, fold name.toList = fold otherName.toList →
      (compile raw).accepts name = (compile other).accepts otherName := by
  have outcome := sameOutcome_parse same
  refine ⟨outcome, ?_, fun name otherName => outcome.accepts_compile_eq⟩
  intro range read
  rw [read] at outcome
  generalize parse other = otherResult at outcome
  cases outcome with
  | serial alike => exact ⟨_, rfl, alike.width, alike.first, alike.last, alike.size⟩

/-- The left side writes no number in either case, so that both ranges begin at zero. -/
theorem parse_and_accepts_ignore_case_rack :
    fold "RackAb~05T".toList = fold "rackaB~05t".toList ∧
    SameOutcome (parse "RackAb~05T") (parse "rackaB~05t") ∧
    (compile "RackAb~05T").accepts "RAC03t" = (compile "rackaB~05t").accepts "rac03T" := by
  have same : fold "RackAb~05T".toList = fold "rackaB~05t".toList := by decide
  have ignored := parse_and_accepts_ignore_case same
  exact ⟨same, ignored.1, ignored.2.2 "RAC03t" "rac03T" (by decide)⟩

end Pattern

end HostPattern
