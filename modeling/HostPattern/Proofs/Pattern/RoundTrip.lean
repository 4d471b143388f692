import HostPattern.Proofs.Pattern.Reading

/-!
# Ranges and their texts

`Writable` is what reading leaves of a range: letters and digits in front, letters at
the end, and numbers that the width has room for.  The `text` of such a range is read
as the range itself, whatever digits or letters stand beside its numbers.
-/

namespace HostPattern

namespace SerialRange

open Text

structure Writable (range : SerialRange) : Prop where
  before : ∀ c ∈ range.before.toList, c.isAlphanum = true
  after : ∀ c ∈ range.after.toList, c.isAlpha = true
  width : 1 ≤ range.width
  first : range.first.toNat < 10 ^ range.width
  last : range.last.toNat < 10 ^ range.width

/-- The first name in full and the last one without what stands before its number. -/
def text (range : SerialRange) : String :=
  range.before ++ String.ofList (Decimal.padded range.width range.first.toNat) ++ range.after ++
    "~" ++ String.ofList (Decimal.padded range.width range.last.toNat) ++ range.after

def textParts (range : SerialRange) : Parts where
  left := range.before.toList ++
    (Decimal.padded range.width range.first.toNat ++ range.after.toList)
  digits := Decimal.padded range.width range.last.toNat
  letters := range.after.toList

theorem toList_text (range : SerialRange) : range.text.toList = range.textParts.write := by
  have separates : "~".toList = [Parts.separator] := rfl
  simp [text, textParts, Parts.write, separates]

theorem Writable.textParts_wellFormed {range : SerialRange} (writable : range.Writable) :
    range.textParts.WellFormed := by
  refine ⟨?_, ?_, Decimal.padded_ne_nil _ _, fun c => Decimal.isDigit_of_mem_padded,
    writable.after⟩
  · simp [textParts, Decimal.padded_ne_nil]
  · intro c member
    rcases List.mem_append.mp member with front | member
    · exact writable.before c front
    · rcases List.mem_append.mp member with digit | letter
      · apply isAlphanum_of_isDigit
        exact Decimal.isDigit_of_mem_padded digit
      · apply isAlphanum_of_isAlpha
        exact writable.after c letter

/-- Numbers below the power of ten fill the width exactly, so that the cut from the right
falls where they begin. -/
theorem Writable.textParts_describes {range : SerialRange} (writable : range.Writable) :
    range.textParts.Describes range := by
  have firstSize := Decimal.length_padded_of_lt writable.width writable.first
  have lastSize := Decimal.length_padded_of_lt writable.width writable.last
  have digits : ∀ c ∈ Decimal.padded range.width range.first.toNat, c.isDigit = true :=
    fun c => Decimal.isDigit_of_mem_padded
  have small : Decimal.value (Decimal.padded range.width range.first.toNat) < 2 ^ 64 := by
    rw [Decimal.value_padded]
    exact range.first.toNat_lt_size
  refine ⟨_, _, rfl, firstSize.trans lastSize.symm, rfl, rfl, lastSize.symm,
    (Decimal.value_padded _ _).symm, ?_⟩
  rw [if_pos ⟨List.all_eq_true.mpr digits, small⟩, Decimal.value_padded]

theorem Parts.Describes.writable {parts : Parts} {range : SerialRange}
    (described : parts.Describes range) (wellFormed : parts.WellFormed) : range.Writable := by
  obtain ⟨number, rest, split, numberSize, _, after, width, last, first⟩ := described
  obtain ⟨_, leftAll, nonempty, digitsAll, lettersAll⟩ := wellFormed
  constructor
  case before =>
    intro c member
    apply leftAll
    rw [split]
    exact List.mem_append_left _ member
  case after =>
    rw [after]
    exact lettersAll
  case width =>
    rw [width]
    exact List.length_pos_iff.mpr nonempty
  case first =>
    rw [first, width, ← numberSize]
    split
    case isTrue digits => exact Decimal.value_lt (List.all_eq_true.mp digits.1)
    case isFalse => exact Nat.pow_pos (by decide)
  case last =>
    rw [last, width]
    exact Decimal.value_lt digitsAll

end SerialRange

namespace Pattern

open SerialRange

theorem parse_text {range : SerialRange} (writable : range.Writable) :
    parse range.text = .ok (.serial range) := by
  apply parse_eq_iff.mpr
  apply Reading.serial writable.textParts_wellFormed
  · exact toList_text range
  · exact writable.textParts_describes

theorem writable_of_parse {raw : String} {range : SerialRange}
    (read : parse raw = .ok (.serial range)) : range.Writable := by
  cases parse_eq_iff.mp read with
  | serial wellFormed _ described => exact described.writable wellFormed

/-- What can be written is read as it was written, and what is read can be written: from
the first name, the separator, and the last name less what stands before its number. -/
theorem serial_text_round_trip :
    (∀ range : SerialRange, range.Writable → parse range.text = .ok (.serial range)) ∧
    ∀ (raw : String) (range : SerialRange), parse raw = .ok (.serial range) →
      range.Writable ∧
      (range.width ≤ maxWidth →
        ∃ firstName rest, range.nameAt? range.first = some firstName ∧
          range.nameAt? range.last = some (range.before ++ rest) ∧
          parse (firstName ++ "~" ++ rest) = .ok (.serial range)) := by
  refine ⟨fun range => parse_text, ?_⟩
  intro raw range read
  have writable := writable_of_parse read
  refine ⟨writable, fun narrow => ?_⟩
  refine ⟨range.nameAt range.first.toNat,
    String.ofList (Decimal.padded range.width range.last.toNat) ++ range.after,
    if_pos narrow, ?_, ?_⟩
  · rw [nameAt?, if_pos narrow, nameAt, String.append_assoc]
  · rw [← String.append_assoc]
    exact parse_text writable

/-- The digit in front of the number stays where it is. -/
theorem serial_text_round_trip_rack :
    (SerialRange.mk "Rack1" "a" 2 5 17).Writable ∧
    parse (SerialRange.mk "Rack1" "a" 2 5 17).text =
      .ok (.serial (SerialRange.mk "Rack1" "a" 2 5 17)) ∧
    ∃ rest, (SerialRange.mk "Rack1" "a" 2 5 17).nameAt? 17 = some ("Rack1" ++ rest) ∧
      parse ("Rack105a" ++ "~" ++ rest) =
        .ok (.serial (SerialRange.mk "Rack1" "a" 2 5 17)) := by
  have writable : (SerialRange.mk "Rack1" "a" 2 5 17).Writable :=
    ⟨by simp, by simp, by decide, by decide, by decide⟩
  have read := serial_text_round_trip.1 _ writable
  obtain ⟨_, shown⟩ := serial_text_round_trip.2 _ _ read
  obtain ⟨firstName, rest, named, lastNamed, again⟩ := shown (by decide)
  have first : firstName = "Rack105a" := Option.some.inj (named.symm.trans (by decide))
  rw [first] at again
  exact ⟨writable, read, rest, lastNamed, again⟩

end Pattern

end HostPattern
