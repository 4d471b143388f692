import HostPattern.Proofs.SerialRange.Described
import Mathlib.Data.Nat.Digits.Defs

/-!
# Numbers in patterns and in names

The numbers of a pattern are read with their exact value, the number in a name byte by byte
with a check at each step.  Both readings give what the places of the digits add up to,
however many zeros stand in front, and both give nothing where that does not fit a word.
-/

namespace HostPattern

open Text

namespace Decimal

/-- The number that digits write: each counts for its place, and the last for itself. -/
def placeValue (digits : List Char) : Nat :=
  Nat.ofDigits 10 (digits.reverse.map fun c => c.toNat - '0'.toNat)

theorem value_eq_placeValue (digits : List Char) : value digits = placeValue digits := by
  induction digits using List.reverseRecOn with
  | nil => rfl
  | append_singleton digits c inductionHypothesis =>
    have last : '0'.toNat = 48 := rfl
    rw [value_concat, inductionHypothesis, placeValue, placeValue, List.reverse_append,
      List.reverse_singleton, List.singleton_append, List.map_cons, Nat.ofDigits_cons, last]
    omega

end Decimal

namespace SerialRange

section Ends

variable {parts : Parts} {range : SerialRange}

theorem map_last_ofParts (room : parts.needed ≤ parts.left.length) :
    (ofParts parts).toOption.map last = Decimal.parse? parts.digits := by
  rw [ofParts, if_neg (Nat.not_lt.mpr room)]
  cases Decimal.parse? parts.digits <;> rfl

theorem first_of_ofParts (made : ofParts parts = .ok range) :
    range.first = (Decimal.parse? parts.firstDigits).getD 0 := by
  unfold ofParts at made
  split at made
  · cases made
  · split at made
    · cases made
    · cases made
      rfl

end Ends

/-- Digits met byte by byte give the number that they write, and nothing exactly where it does
not fit a word.  Read as a text they give the same, so that the ends of a range are the numbers
that these digits stand for in a name. -/
theorem numbers_read_alike {digits : List Char} (nonempty : digits ≠ [])
    (all : ∀ c ∈ digits, c.isDigit = true) :
    (∀ n : UInt64, Decimal.accumulate? (Utf8.encodeChars digits) = some n ↔
      n.toNat = Decimal.placeValue digits) ∧
    (Decimal.accumulate? (Utf8.encodeChars digits) = none ↔
      2 ^ 64 ≤ Decimal.placeValue digits) ∧
    Decimal.parse? digits = Decimal.accumulate? (Utf8.encodeChars digits) ∧
    ∀ parts : Parts, parts.needed ≤ parts.left.length →
      (parts.digits = digits →
        (ofParts parts).toOption.map last = Decimal.accumulate? (Utf8.encodeChars digits)) ∧
      (parts.firstDigits = digits → ∀ range, ofParts parts = .ok range →
        range.first = (Decimal.accumulate? (Utf8.encodeChars digits)).getD 0) := by
  have bytes := Decimal.accumulate?_encodeChars all
  have alike : Decimal.parse? digits = Decimal.accumulate? (Utf8.encodeChars digits) :=
    (Decimal.parse?_of_isDigit nonempty all).trans bytes.symm
  rw [Decimal.value_eq_placeValue] at bytes
  refine ⟨?_, ?_, alike, ?_⟩
  · intro n
    rw [bytes]
    exact Decimal.word?_eq_some_iff
  · rw [bytes]
    exact Decimal.word?_eq_none_iff
  · intro parts room
    constructor
    · rintro rfl
      rw [map_last_ofParts room]
      exact alike
    · rintro rfl range made
      rw [first_of_ofParts made, alike]

/-- The largest word behind zeros, also as the last number of a range. -/
theorem numbers_read_alike_largest :
    let digits := "00018446744073709551615".toList
    digits ≠ [] ∧ (∀ c ∈ digits, c.isDigit = true) ∧
      Decimal.accumulate? (Utf8.encodeChars digits) = some 18446744073709551615 ∧
      (ofParts ⟨digits, digits, []⟩).toOption.map last = some 18446744073709551615 := by
  intro digits
  have nonempty : digits ≠ [] := by decide
  have all : ∀ c ∈ digits, c.isDigit = true := List.all_eq_true.mp (by decide)
  obtain ⟨bytes, _, _, ends⟩ := numbers_read_alike nonempty all
  have largest : Decimal.accumulate? (Utf8.encodeChars digits) = some 18446744073709551615 := by
    apply (bytes _).mpr
    decide
  refine ⟨nonempty, all, largest, ?_⟩
  rw [← largest]
  exact (ends ⟨digits, digits, []⟩ (by decide)).1 rfl

end SerialRange

end HostPattern
