import HostPattern.Proofs.SerialRange.Described
import HostPattern.Proofs.Wildcard.Pieces

/-!
# Readings of texts

`Reading` lists what a text may be read as and under which condition on the text
alone.  The conditions exclude each other, and `parse` follows them.
-/

namespace HostPattern

namespace Pattern

open SerialRange

/-- What a text is read as: parts with a left side, digits and letters around a separator
are a range or one of two errors; other characters with a mark are a wildcard or have
too many marks; every other text is not recognized. -/
inductive Reading (raw : String) : Except PatternError Pattern → Prop
  | leftTooShort {parts : Parts} :
      parts.WellFormed → raw.toList = parts.write →
      parts.left.length < parts.digits.length + parts.letters.length →
      Reading raw (.error (.leftTooShort (String.ofList parts.left)
        (parts.digits.length + parts.letters.length)))
  | endTooLarge {parts : Parts} :
      parts.WellFormed → raw.toList = parts.write →
      parts.digits.length + parts.letters.length ≤ parts.left.length →
      2 ^ 64 ≤ Decimal.value parts.digits →
      Reading raw (.error (.endTooLarge (String.ofList parts.digits)))
  | serial {parts : Parts} {range : SerialRange} :
      parts.WellFormed → raw.toList = parts.write → parts.Describes range →
      Reading raw (.ok (.serial range))
  | tooManyGaps :
      Wildcard.IsText raw.toList → maxGaps < raw.toList.count Wildcard.mark →
      Reading raw (.error .tooManyGaps)
  | wild {wildcard : Wildcard} :
      Wildcard.IsText raw.toList → raw.toList.count Wildcard.mark ≤ maxGaps →
      wildcard.pieces.map String.toList = raw.toList.splitOn Wildcard.mark →
      Reading raw (.ok (.wild wildcard))
  | unrecognized :
      (¬ ∃ parts : Parts, parts.WellFormed ∧ raw.toList = parts.write) →
      ¬ Wildcard.IsText raw.toList →
      Reading raw (.error (.unrecognized raw))

variable {raw : String}

/-- The separator keeps ranges from being wildcards. -/
theorem not_isText_write (parts : Parts) : ¬ Wildcard.IsText parts.write := by
  intro isText
  rcases isText with ⟨allowed, _⟩
  have separates : Parts.separator ∈ parts.write := by
    rw [Parts.write]
    exact List.mem_append_right _ List.mem_cons_self
  rcases allowed _ separates with alphanum | hyphen | marks
  · rw [Parts.separator_not_isAlphanum] at alphanum
    cases alphanum
  · exact absurd hyphen (by decide)
  · exact absurd marks (by decide)

theorem not_write_of_isText (isText : Wildcard.IsText raw.toList) :
    ¬ ∃ parts : Parts, parts.WellFormed ∧ raw.toList = parts.write := by
  intro ranges
  rcases ranges with ⟨parts, _, written⟩
  rw [written] at isText
  exact not_isText_write parts isText

theorem parse_of_write {parts : Parts} (wellFormed : parts.WellFormed)
    (written : raw.toList = parts.write) : parse raw = (ofParts parts).map .serial := by
  rw [parse, Parts.read?_eq_some_iff.mpr ⟨wellFormed, written⟩]

theorem parse_of_isText {wildcard : Wildcard} (isText : Wildcard.IsText raw.toList)
    (split : wildcard.pieces.map String.toList = raw.toList.splitOn Wildcard.mark) :
    parse raw =
      if raw.toList.count Wildcard.mark ≤ maxGaps then .ok (.wild wildcard)
      else .error .tooManyGaps := by
  have read := Wildcard.read?_eq_some_iff.mpr ⟨isText, split⟩
  rw [parse, Parts.read?_eq_none_iff.mpr (not_write_of_isText isText), read,
    ← Wildcard.gaps_eq_count read]

theorem exists_pieces_of_isText (isText : Wildcard.IsText raw.toList) :
    ∃ wildcard : Wildcard,
      wildcard.pieces.map String.toList = raw.toList.splitOn Wildcard.mark := by
  obtain ⟨wildcard, read⟩ : ∃ wildcard, Wildcard.read? raw.toList = some wildcard := by
    apply Option.ne_none_iff_exists'.mp
    intro unread
    exact Wildcard.read?_eq_none_iff.mp unread isText
  exact ⟨wildcard, (Wildcard.read?_eq_some_iff.mp read).2⟩

theorem parse_of_other
    (unwritten : ¬ ∃ parts : Parts, parts.WellFormed ∧ raw.toList = parts.write)
    (other : ¬ Wildcard.IsText raw.toList) : parse raw = .error (.unrecognized raw) := by
  rw [parse, Parts.read?_eq_none_iff.mpr unwritten, Wildcard.read?_eq_none_iff.mpr other]

theorem Reading.parse_eq {result : Except PatternError Pattern} (reading : Reading raw result) :
    parse raw = result := by
  cases reading with
  | leftTooShort wellFormed written short =>
    rw [parse_of_write wellFormed written, ofParts_of_short short]
    rfl
  | endTooLarge wellFormed written room large =>
    rw [parse_of_write wellFormed written, ofParts_of_large wellFormed room large]
    rfl
  | serial wellFormed written described =>
    rw [parse_of_write wellFormed written, (ofParts_eq_ok_iff wellFormed).mpr described]
    rfl
  | tooManyGaps isText many =>
    obtain ⟨wildcard, split⟩ := exists_pieces_of_isText isText
    rw [parse_of_isText isText split, if_neg (Nat.not_le.mpr many)]
  | wild isText few split => rw [parse_of_isText isText split, if_pos few]
  | unrecognized unwritten other => exact parse_of_other unwritten other

theorem reading_parse (raw : String) : Reading raw (parse raw) := by
  by_cases ranges : ∃ parts : Parts, parts.WellFormed ∧ raw.toList = parts.write
  · obtain ⟨parts, wellFormed, written⟩ := ranges
    rw [parse_of_write wellFormed written]
    rcases Nat.lt_or_ge parts.left.length parts.needed with short | room
    · rw [ofParts_of_short short]
      exact .leftTooShort wellFormed written short
    · rcases Nat.lt_or_ge (Decimal.value parts.digits) (2 ^ 64) with small | large
      · obtain ⟨range, made⟩ := exists_ofParts wellFormed room small
        rw [made]
        apply Reading.serial wellFormed written
        exact (ofParts_eq_ok_iff wellFormed).mp made
      · rw [ofParts_of_large wellFormed room large]
        exact .endTooLarge wellFormed written room large
  · by_cases isText : Wildcard.IsText raw.toList
    · obtain ⟨wildcard, split⟩ := exists_pieces_of_isText isText
      rw [parse_of_isText isText split]
      split
      case isTrue few => exact .wild isText few split
      case isFalse many => exact .tooManyGaps isText (Nat.not_le.mp many)
    · rw [parse_of_other ranges isText]
      exact .unrecognized ranges isText

theorem parse_eq_iff {result : Except PatternError Pattern} :
    parse raw = result ↔ Reading raw result := by
  constructor
  · rintro rfl
    exact reading_parse raw
  · exact Reading.parse_eq

/-- The left side is measured before the end is read. -/
example : parse "Rack7~99999999999999999999" = .error (.leftTooShort "Rack7" 20) := by decide

theorem compile_eq_iff {pattern : Pattern} :
    compile raw = pattern ↔
      Reading raw (.ok pattern) ∨
        pattern = .unavailable ∧ ∃ error, Reading raw (.error error) := by
  simp only [compile, ← parse_eq_iff]
  cases found : parse raw with
  | ok other => simp
  | error error => simp [eq_comm]

theorem parse_of_compile {pattern : Pattern} (compiled : compile raw = pattern)
    (available : pattern ≠ .unavailable) : parse raw = .ok pattern := by
  unfold compile at compiled
  split at compiled
  · rename_i found
    rw [found, compiled]
  · exact absurd compiled.symm available

/-- Every text falls under exactly one of the conditions: it is a range in one way, or it
has the characters of a wildcard, or neither; the pattern or the error follows from this. -/
theorem parse_and_compile_by_reading (raw : String) :
    (∀ result, parse raw = result ↔ Reading raw result) ∧
    (∀ pattern, compile raw = pattern ↔
      Reading raw (.ok pattern) ∨
        pattern = .unavailable ∧ ∃ error, Reading raw (.error error)) ∧
    ((∃! parts : Parts, parts.WellFormed ∧ raw.toList = parts.write) ∧
        ¬ Wildcard.IsText raw.toList ∨
      (¬ ∃ parts : Parts, parts.WellFormed ∧ raw.toList = parts.write) ∧
        Wildcard.IsText raw.toList ∨
      (¬ ∃ parts : Parts, parts.WellFormed ∧ raw.toList = parts.write) ∧
        ¬ Wildcard.IsText raw.toList) := by
  refine ⟨fun _ => parse_eq_iff, fun _ => compile_eq_iff, ?_⟩
  by_cases ranges : ∃ parts : Parts, parts.WellFormed ∧ raw.toList = parts.write
  · obtain ⟨parts, wellFormed, written⟩ := ranges
    refine .inl ⟨⟨parts, ⟨wellFormed, written⟩, ?_⟩, ?_⟩
    · rintro other ⟨otherFormed, otherWritten⟩
      apply Parts.write_injective otherFormed wellFormed
      rw [← otherWritten, written]
    · rw [written]
      exact not_isText_write parts
  · by_cases isText : Wildcard.IsText raw.toList
    · exact .inr (.inl ⟨ranges, isText⟩)
    · exact .inr (.inr ⟨ranges, isText⟩)

end Pattern

end HostPattern
