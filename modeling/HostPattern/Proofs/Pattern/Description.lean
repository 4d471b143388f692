import HostPattern.Proofs.Pattern.Case
import HostPattern.Proofs.SerialRange.Alignment
import HostPattern.Proofs.Wildcard.Expression
import HostPattern.Proofs.Wildcard.Source

/-!
# Descriptions

The description of a pattern says what it accepts, although it does not show all that the
pattern holds: of a range it shows the first and the last name and the number of names, and
of a wildcard the expression.  For ranges that hold names the converse is true as well.
-/

namespace HostPattern

open Text

namespace SerialRange

def countText (range : SerialRange) : String :=
  if range.isEmpty then " (empty)" else " (" ++ range.size.repr ++ " names)"

def description (range : SerialRange) : String :=
  "range " ++ range.nameAt range.first.toNat ++ "..=" ++ range.nameAt range.last.toNat ++
    range.countText

variable {range other : SerialRange}

theorem describe?_serial (narrow : range.width ≤ maxWidth) :
    (Pattern.serial range).describe? = some range.description := by
  have ends : range.endsText? =
      some (range.nameAt range.first.toNat ++ "..=" ++ range.nameAt range.last.toNat) := by
    rw [endsText?, nameAt?, nameAt?, if_pos narrow, if_pos narrow]
    rfl
  rw [Pattern.describe?, ends, Option.bind_eq_bind, Option.bind_some, description, countText]
  split
  · simp only [String.append_assoc]
    rfl
  · simp only [String.append_assoc]
    rfl

theorem describe?_eq_some_iff {text : String} :
    (Pattern.serial range).describe? = some text ↔
      range.width ≤ maxWidth ∧ text = range.description := by
  by_cases narrow : range.width ≤ maxWidth
  · rw [describe?_serial narrow, Option.some.injEq, eq_comm]
    exact (and_iff_right narrow).symm
  · have wide : range.endsText? = none := by
      rw [endsText?, nameAt?, if_neg narrow]
      rfl
    rw [Pattern.describe?, wide]
    simp [narrow]

theorem exists_countText (range : SerialRange) :
    ∃ words, range.countText.toList = ' ' :: words := by
  unfold countText
  split
  · exact ⟨_, rfl⟩
  · rw [String.toList_append, String.toList_append]
    exact ⟨_, rfl⟩

theorem fold_description (range : SerialRange) :
    fold range.description.toList = "range ".toList ++
      (fold (range.nameAt range.first.toNat).toList ++ '.' :: '.' :: '=' ::
        (fold (range.nameAt range.last.toNat).toList ++ fold range.countText.toList)) := by
  have label : fold "range ".toList = "range ".toList := by decide
  have dots : fold "..=".toList = ['.', '.', '='] := by decide
  simp only [description, String.toList_append, fold_append, label, dots, List.append_assoc,
    List.cons_append, List.nil_append]

/-- A name ends before the next character that is no letter or digit. -/
theorem sameEnds_of_fold_description_eq (writable : range.Writable) (otherWritable : other.Writable)
    (same : fold range.description.toList = fold other.description.toList) :
    SameEnds range other := by
  rw [fold_description, fold_description] at same
  obtain ⟨first, rest⟩ := append_cons_inj Char.isAlphanum
    (isAlphanum_of_mem_fold_nameAt writable _) (isAlphanum_of_mem_fold_nameAt otherWritable _)
    rfl rfl (List.append_cancel_left same)
  obtain ⟨words, count⟩ := exists_countText range
  obtain ⟨otherWords, otherCount⟩ := exists_countText other
  simp only [List.cons.injEq, true_and, count, otherCount, fold_cons] at rest
  obtain ⟨last, _⟩ := append_cons_inj Char.isAlphanum
    (isAlphanum_of_mem_fold_nameAt writable _) (isAlphanum_of_mem_fold_nameAt otherWritable _)
    rfl rfl rest
  exact ⟨first, last⟩

theorem SameEnds.fold_description_eq (ends : SameEnds range other) (writable : range.Writable)
    (otherWritable : other.Writable) :
    fold range.description.toList = fold other.description.toList := by
  have count : range.countText = other.countText := by
    rw [countText, countText, ends.isEmpty_eq writable otherWritable,
      ends.size_eq writable otherWritable]
  rw [fold_description, fold_description, ends.first, ends.last, count]

theorem first_le_last_of_filled (filled : range.isEmpty = false) :
    range.first.toNat ≤ range.last.toNat := by
  simpa [isEmpty, UInt64.le_iff_toNat_le] using filled

end SerialRange

namespace Wildcard

theorem isPlain_of_mem_splitOn {text piece : List Char} (isText : IsText text)
    (member : piece ∈ text.splitOn mark) : IsPlain piece := by
  intro c inside
  rcases isText.1 c (mem_of_mem_splitOn member inside) with alphanum | rfl | rfl
  · constructor
    · rintro rfl
      cases alphanum
    · rintro rfl
      cases alphanum
  · decide
  · decide

/-- Expressions with the same text have the same pieces. -/
theorem alike_of_fold_regex_eq {wildcard other : Wildcard} {text otherText : List Char}
    (isText : IsText text) (otherIsText : IsText otherText)
    (split : wildcard.pieces.map String.toList = text.splitOn mark)
    (otherSplit : other.pieces.map String.toList = otherText.splitOn mark)
    (same : fold wildcard.regex.toList = fold other.regex.toList) : Alike wildcard other := by
  rw [toList_regex, toList_regex, fold_cons, fold_cons, fold_piecesSource, fold_piecesSource,
    List.cons.injEq] at same
  apply piecesSource_injective (by simp [pieces]) (by simp [pieces]) _ _ same.2
  · rw [split, map_fold_splitOn]
    exact fun _ => isPlain_of_mem_splitOn (isText_of_fold_eq (fold_fold text).symm isText)
  · rw [otherSplit, map_fold_splitOn]
    exact fun _ => isPlain_of_mem_splitOn (isText_of_fold_eq (fold_fold otherText).symm otherIsText)

end Wildcard

namespace Pattern

open SerialRange

/-- The pattern is no range, or its numbers are narrow enough to be written out. -/
def IsNarrow : Pattern → Prop
  | .unavailable => True
  | .serial range => range.width ≤ maxWidth
  | .wild _ => True

theorem exists_description {pattern : Pattern} (narrow : pattern.IsNarrow) :
    ∃ text, pattern.describe? = some text := by
  cases pattern with
  | unavailable => exact ⟨_, rfl⟩
  | serial range => exact ⟨_, describe?_serial narrow⟩
  | wild wildcard => exact ⟨_, rfl⟩

def initial : Pattern → Char
  | .unavailable => 'u'
  | .serial _ => 'r'
  | .wild _ => 'w'

theorem head?_fold_description {pattern : Pattern} {text : String}
    (described : pattern.describe? = some text) :
    (fold text.toList).head? = some pattern.initial := by
  cases pattern with
  | unavailable =>
    cases described
    decide
  | serial range =>
    have label : "range ".toList = 'r' :: "ange ".toList := by decide
    rw [(describe?_eq_some_iff.mp described).2, fold_description, label]
    rfl
  | wild wildcard =>
    cases described
    have label : fold "wildcard /".toList = 'w' :: "ildcard /".toList := by decide
    rw [String.toList_append, String.toList_append, List.append_assoc, fold_append, label]
    rfl

variable {raw other : String}

theorem accepts_eq_of_fold_description_eq {text otherText : String}
    (described : (compile raw).describe? = some text)
    (otherDescribed : (compile other).describe? = some otherText)
    (same : fold text.toList = fold otherText.toList) (name : String) :
    (compile raw).accepts name = (compile other).accepts name := by
  have initials := congrArg List.head? same
  rw [head?_fold_description described, head?_fold_description otherDescribed] at initials
  cases found : compile raw <;> cases otherFound : compile other <;>
    rw [found] at described initials <;> rw [otherFound] at otherDescribed initials
  case serial.serial range otherRange =>
    rw [(describe?_eq_some_iff.mp described).2, (describe?_eq_some_iff.mp otherDescribed).2] at same
    have writable := writable_of_parse (parse_of_compile found (by simp))
    have otherWritable := writable_of_parse (parse_of_compile otherFound (by simp))
    have ends := sameEnds_of_fold_description_eq writable otherWritable same
    exact SerialRange.accepts_eq_of_matches_iff (ends.matches_iff writable otherWritable name)
  case wild.wild wildcard otherWildcard =>
    cases described
    cases otherDescribed
    obtain ⟨isText, split⟩ := pieces_of_parse (parse_of_compile found (by simp))
    obtain ⟨otherIsText, otherSplit⟩ := pieces_of_parse (parse_of_compile otherFound (by simp))
    simp only [String.toList_append, fold_append] at same
    have regexes := List.append_cancel_left (List.append_cancel_right same)
    have alike := Wildcard.alike_of_fold_regex_eq isText otherIsText split otherSplit regexes
    exact alike.accepts_eq rfl
  all_goals simp [initial] at initials

theorem fold_description_eq_of_accepts_eq {range otherRange : SerialRange}
    (found : compile raw = .serial range) (otherFound : compile other = .serial otherRange)
    (filled : range.isEmpty = false) (otherFilled : otherRange.isEmpty = false)
    (same : ∀ name, (compile raw).accepts name = (compile other).accepts name) :
    fold range.description.toList = fold otherRange.description.toList := by
  have writable := writable_of_parse (parse_of_compile found (by simp))
  have otherWritable := writable_of_parse (parse_of_compile otherFound (by simp))
  have names (name : String) : range.Matches name ↔ otherRange.Matches name := by
    rw [← SerialRange.accepts_eq_true_iff_matches,
      ← SerialRange.accepts_eq_true_iff_matches]
    have verdict := same name
    rw [found, otherFound] at verdict
    exact Bool.eq_iff_iff.mp verdict
  have ends := sameEnds_of_matches_iff writable otherWritable (first_le_last_of_filled filled)
    (first_le_last_of_filled otherFilled) names
  exact ends.fold_description_eq writable otherWritable

/-- Patterns that can be described accept the same names if their descriptions are equal up
to case; ranges that hold names do so only then. -/
theorem description_determines_accepts (narrow : (compile raw).IsNarrow)
    (otherNarrow : (compile other).IsNarrow) :
    ∃ text otherText, (compile raw).describe? = some text ∧
      (compile other).describe? = some otherText ∧
      (fold text.toList = fold otherText.toList →
        ∀ name, (compile raw).accepts name = (compile other).accepts name) ∧
      ∀ range otherRange, compile raw = .serial range → compile other = .serial otherRange →
        range.isEmpty = false → otherRange.isEmpty = false →
        (∀ name, (compile raw).accepts name = (compile other).accepts name) →
        fold text.toList = fold otherText.toList := by
  obtain ⟨text, described⟩ := exists_description narrow
  obtain ⟨otherText, otherDescribed⟩ := exists_description otherNarrow
  refine ⟨text, otherText, described, otherDescribed, ?_, ?_⟩
  · exact accepts_eq_of_fold_description_eq described otherDescribed
  · intro range otherRange found otherFound filled otherFilled same
    have texts := fold_description_eq_of_accepts_eq found otherFound filled otherFilled same
    rw [found] at described
    rw [otherFound] at otherDescribed
    rw [(describe?_eq_some_iff.mp described).2, (describe?_eq_some_iff.mp otherDescribed).2]
    exact texts

/-- The digit in front of the number belongs to the number in one range only. -/
theorem description_determines_accepts_rack :
    (compile "Rack001~20").IsNarrow ∧ (compile "RACK001~020").IsNarrow ∧
    compile "Rack001~20" ≠ compile "RACK001~020" ∧
    ∀ name, (compile "Rack001~20").accepts name = (compile "RACK001~020").accepts name := by
  have narrow : (compile "Rack001~20").IsNarrow := by
    have found : compile "Rack001~20" = .serial ⟨"Rack0", "", 2, 1, 20⟩ := by decide
    rw [found, IsNarrow]
    decide
  have otherNarrow : (compile "RACK001~020").IsNarrow := by
    have found : compile "RACK001~020" = .serial ⟨"RACK", "", 3, 1, 20⟩ := by decide
    rw [found, IsNarrow]
    decide
  obtain ⟨text, otherText, described, otherDescribed, determined, _⟩ :=
    description_determines_accepts narrow otherNarrow
  have first : text = "range Rack001..=Rack020 (20 names)" :=
    Option.some.inj (described.symm.trans (by decide))
  have second : otherText = "range RACK001..=RACK020 (20 names)" :=
    Option.some.inj (otherDescribed.symm.trans (by decide))
  refine ⟨narrow, otherNarrow, by decide, determined ?_⟩
  rw [first, second]
  decide

end Pattern

end HostPattern
