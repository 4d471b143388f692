import HostPattern.Pattern
import HostPattern.Proofs.Decimal.Accumulation
import HostPattern.Proofs.SerialRange.Parts

/-!
# The range that parts describe

`Describes` says by lengths and values which range the parts of a text stand for, and
`ofParts` gives this range, or says why there is none.
-/

namespace HostPattern.SerialRange

namespace Parts

theorem length_before (parts : Parts) :
    parts.before.length = parts.left.length - parts.needed := by
  rw [before, List.length_take]
  exact Nat.min_eq_left (Nat.sub_le _ _)

theorem length_firstDigits {parts : Parts} (room : parts.needed ≤ parts.left.length) :
    parts.firstDigits.length = parts.digits.length := by
  rw [firstDigits, List.length_take, List.length_drop]
  unfold needed at room ⊢
  omega

/-- The cuts of the left side leave nothing out. -/
theorem left_eq_cuts (parts : Parts) :
    parts.left = parts.before ++ (parts.firstDigits ++
      (parts.left.drop (parts.left.length - parts.needed)).drop parts.digits.length) := by
  rw [firstDigits, List.take_append_drop, before, List.take_append_drop]

end Parts

/-- The left side ends with a number as long as the digits and with as many characters
as there are letters; the number begins the range if it is one that fits a word, and
the digits end it. -/
def Parts.Describes (parts : Parts) (range : SerialRange) : Prop :=
  ∃ number rest : List Char,
    parts.left = range.before.toList ++ (number ++ rest) ∧
    number.length = parts.digits.length ∧ rest.length = parts.letters.length ∧
    range.after.toList = parts.letters ∧ range.width = parts.digits.length ∧
    range.last.toNat = Decimal.value parts.digits ∧
    range.first.toNat =
      if number.all Char.isDigit = true ∧ Decimal.value number < 2 ^ 64 then
        Decimal.value number
      else 0

theorem Parts.Describes.needed_le {parts : Parts} {range : SerialRange}
    (described : parts.Describes range) : parts.needed ≤ parts.left.length := by
  obtain ⟨number, rest, split, numberSize, restSize, _⟩ := described
  rw [split, List.length_append, List.length_append, needed]
  omega

theorem Parts.Describes.value_lt {parts : Parts} {range : SerialRange}
    (described : parts.Describes range) : Decimal.value parts.digits < 2 ^ 64 := by
  obtain ⟨_, _, _, _, _, _, _, last, _⟩ := described
  rw [← last]
  exact range.last.toNat_lt_size

theorem Parts.Describes.unique {parts : Parts} {range other : SerialRange}
    (described : parts.Describes range) (otherwise : parts.Describes other) : range = other := by
  rcases described with ⟨number, rest, split, numberSize, restSize, after, width, last, first⟩
  rcases otherwise with
    ⟨number', rest', split', numberSize', restSize', after', width', last', first'⟩
  rw [split] at split'
  obtain ⟨before, ends⟩ := List.append_inj' split' (by simp; omega)
  obtain ⟨rfl, rfl⟩ := List.append_inj' ends (by omega)
  cases range
  cases other
  rw [SerialRange.mk.injEq]
  exact ⟨String.toList_inj.mp before, String.toList_inj.mp (after.trans after'.symm),
    width.trans width'.symm, UInt64.toNat_inj.mp (first.trans first'.symm),
    UInt64.toNat_inj.mp (last.trans last'.symm)⟩

theorem ofParts_of_short {parts : Parts} (short : parts.left.length < parts.needed) :
    ofParts parts = .error (.leftTooShort (String.ofList parts.left) parts.needed) :=
  if_pos short

theorem ofParts_of_large {parts : Parts} (wellFormed : parts.WellFormed)
    (room : parts.needed ≤ parts.left.length) (large : 2 ^ 64 ≤ Decimal.value parts.digits) :
    ofParts parts = .error (.endTooLarge (String.ofList parts.digits)) := by
  obtain ⟨_, _, nonempty, digitsAll, _⟩ := wellFormed
  rw [ofParts, if_neg (Nat.not_lt.mpr room), Decimal.parse?_of_isDigit nonempty digitsAll,
    Decimal.word?_eq_none_iff.mpr large]

theorem exists_ofParts {parts : Parts} (wellFormed : parts.WellFormed)
    (room : parts.needed ≤ parts.left.length) (small : Decimal.value parts.digits < 2 ^ 64) :
    ∃ range, ofParts parts = .ok range := by
  obtain ⟨_, _, nonempty, digitsAll, _⟩ := wellFormed
  rw [ofParts, if_neg (Nat.not_lt.mpr room), Decimal.parse?_of_isDigit nonempty digitsAll]
  cases fits : Decimal.word? (Decimal.value parts.digits) with
  | none => exact absurd small (Nat.not_lt.mpr (Decimal.word?_eq_none_iff.mp fits))
  | some last => exact ⟨_, rfl⟩

theorem describes_of_ofParts {parts : Parts} {range : SerialRange}
    (wellFormed : parts.WellFormed) (made : ofParts parts = .ok range) :
    parts.Describes range := by
  obtain ⟨_, _, nonempty, digitsAll, _⟩ := wellFormed
  have digitsPos : 0 < parts.digits.length := List.length_pos_iff.mpr nonempty
  unfold ofParts at made
  split at made
  · cases made
  · rename_i room
    have numberSize := Parts.length_firstDigits (Nat.not_lt.mp room)
    rw [Decimal.parse?_of_isDigit nonempty digitsAll] at made
    split at made
    · cases made
    · rename_i last fits
      cases made
      refine ⟨parts.firstDigits,
        (parts.left.drop (parts.left.length - parts.needed)).drop parts.digits.length,
        ?_, numberSize, ?_, ?_, rfl, Decimal.word?_eq_some_iff.mp fits, ?_⟩
      · rw [String.toList_ofList]
        exact parts.left_eq_cuts
      · simp only [Parts.needed, List.length_drop] at room ⊢
        omega
      · rw [String.toList_ofList]
      · apply Decimal.toNat_getD_parse?
        rw [← List.length_pos_iff, numberSize]
        exact digitsPos

theorem ofParts_eq_ok_iff {parts : Parts} {range : SerialRange}
    (wellFormed : parts.WellFormed) : ofParts parts = .ok range ↔ parts.Describes range := by
  constructor
  · exact describes_of_ofParts wellFormed
  · intro described
    obtain ⟨made, found⟩ := exists_ofParts wellFormed described.needed_le described.value_lt
    rw [found, (describes_of_ofParts wellFormed found).unique described]

end HostPattern.SerialRange
