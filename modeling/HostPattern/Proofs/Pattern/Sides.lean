import HostPattern.Proofs.SerialRange.Count

/-!
# The two sides of a range's text

The left side is as long as every name that the range accepts, and what stands before the
number, with the right side behind it, is the last name.  The left side itself need not be
a name: one that ends in no number makes the range begin at zero, and one that ends in other
letters than the right side has its own ignored.
-/

namespace HostPattern

open Text

namespace SerialRange

section Names

variable {range : SerialRange} {name : String} {n : Nat}

theorem Writable.length_padded (writable : range.Writable) (high : n ≤ range.last.toNat) :
    (Decimal.padded range.width n).length = range.width := by
  apply Decimal.length_padded_of_lt writable.width
  exact Nat.lt_of_le_of_lt high writable.last

theorem Writable.length_of_matches (writable : range.Writable) (named : range.Matches name) :
    name.toList.length =
      range.before.toList.length + (range.width + range.after.toList.length) := by
  obtain ⟨n, _, high, same⟩ := named
  have lengths := congrArg List.length same
  simpa [writable.length_padded high, Nat.add_assoc] using lengths

theorem Writable.isAlphanum_of_matches (writable : range.Writable) (named : range.Matches name) :
    ∀ c ∈ name.toList, c.isAlphanum = true := by
  obtain ⟨n, _, _, same⟩ := named
  apply (forall_mem_fold isAlphanum_toLower).mp
  rw [same]
  exact isAlphanum_of_mem_fold_nameAt writable n

theorem Writable.not_acceptsDigits_of_wider (writable : range.Writable) {digits : Bytes}
    (wider : range.width < digits.length) : range.acceptsDigits digits = false := by
  apply Bool.eq_false_iff.mpr
  intro accepted
  obtain ⟨n, _, high, rfl⟩ := acceptsDigits_eq_true_iff.mp accepted
  rw [Decimal.length_encodeChars_of_isDigit fun c => Decimal.isDigit_of_mem_padded,
    writable.length_padded high] at wider
  exact Nat.lt_irrefl _ wider

/-- Where a number stands that is as long as the width, a name has its own. -/
theorem Writable.fold_eq_fold_nameAt_iff (writable : range.Writable)
    (high : n ≤ range.last.toNat) {number rest : List Char} (size : number.length = range.width) :
    fold (range.before.toList ++ (number ++ rest)) = fold (range.nameAt n).toList ↔
      number = Decimal.padded range.width n ∧ fold rest = fold range.after.toList := by
  rw [fold_toList_nameAt, fold_append, fold_append]
  constructor
  · intro same
    obtain ⟨sameNumber, sameRest⟩ := List.append_inj (List.append_cancel_left same) (by
      rw [length_fold, size, writable.length_padded high])
    refine ⟨?_, sameRest⟩
    rw [← fold_padded] at sameNumber
    apply eq_of_fold_eq _ sameNumber
    intro c member
    apply not_isAlpha_of_isDigit
    exact Decimal.isDigit_of_mem_padded member
  · rintro ⟨rfl, sameRest⟩
    rw [fold_padded, sameRest]

end Names

section Described

variable {parts : Parts} {range : SerialRange}

theorem Parts.Describes.nameAt_last (described : parts.Describes range)
    (wellFormed : parts.WellFormed) :
    range.before ++ String.ofList (parts.digits ++ parts.letters) =
      range.nameAt range.last.toNat := by
  obtain ⟨_, _, _, _, _, after, width, last, _⟩ := described
  obtain ⟨_, _, nonempty, digitsAll, _⟩ := wellFormed
  apply String.toList_inj.mp
  rw [toList_nameAt, width, last, after, Decimal.padded_value nonempty digitsAll]
  simp

theorem Parts.Describes.length_left (described : parts.Describes range) :
    parts.left.length =
      range.before.toList.length + (range.width + range.after.toList.length) := by
  obtain ⟨number, rest, split, numberSize, restSize, after, width, _, _⟩ := described
  rw [split, List.length_append, List.length_append, numberSize, restSize, width, after]

/-- The cuts of the left side, by what they leave. -/
theorem Parts.cuts_of_split {front number rest : List Char}
    (split : parts.left = front ++ (number ++ rest))
    (numberSize : number.length = parts.digits.length)
    (restSize : rest.length = parts.letters.length) :
    parts.firstDigits = number ∧ parts.left.rtake parts.letters.length = rest := by
  have size : parts.left.length = front.length + (number.length + rest.length) := by
    rw [split, List.length_append, List.length_append]
  constructor
  · have start : parts.left.length - parts.needed = front.length := by
      rw [needed, ← numberSize, ← restSize]
      omega
    rw [firstDigits, start, split, List.drop_left, ← numberSize, List.take_left]
  · have start : parts.left.length - parts.letters.length = (front ++ number).length := by
      rw [List.length_append, ← restSize]
      omega
    rw [List.rtake, start, split, ← List.append_assoc, List.drop_left]

theorem Parts.Describes.matches_left_iff (described : parts.Describes range)
    (wellFormed : parts.WellFormed) :
    range.Matches (String.ofList parts.left) ↔
      fold (parts.left.rtake parts.letters.length) = fold parts.letters ∧
        (∀ c ∈ parts.firstDigits, c.isDigit = true) ∧
        Decimal.value parts.firstDigits < 2 ^ 64 ∧
        Decimal.value parts.firstDigits ≤ range.last.toNat := by
  have writable := described.writable wellFormed
  obtain ⟨number, rest, split, numberSize, restSize, after, width, last, first⟩ := described
  have size : number.length = range.width := numberSize.trans width.symm
  obtain ⟨firstDigits, lastLetters⟩ := Parts.cuts_of_split split numberSize restSize
  rw [firstDigits, lastLetters, Matches, String.toList_ofList, split, ← after]
  constructor
  · rintro ⟨n, _, high, same⟩
    obtain ⟨written, sameRest⟩ := (writable.fold_eq_fold_nameAt_iff high size).mp same
    rw [written, Decimal.value_padded]
    exact ⟨sameRest, fun c => Decimal.isDigit_of_mem_padded,
      Nat.lt_of_le_of_lt high range.last.toNat_lt_size, high⟩
  · rintro ⟨sameRest, digits, fits, high⟩
    -- The number is one that fits a word, and so it is where the range begins.
    rw [if_pos ⟨List.all_eq_true.mpr digits, fits⟩] at first
    refine ⟨Decimal.value number, first.le, high, ?_⟩
    apply (writable.fold_eq_fold_nameAt_iff high size).mpr
    refine ⟨?_, sameRest⟩
    have filled : number ≠ [] := by
      apply List.ne_nil_of_length_pos
      rw [size]
      exact writable.width
    rw [← size, Decimal.padded_value filled digits]

end Described

end SerialRange

namespace Pattern

open SerialRange

/-- What the two sides of a range's text say of its names.  All of them are letters and digits
and as long as the left side, so that no number is wider than the right side writes it.  The
right side writes the last name, which is accepted unless the range is empty.  The left side is
accepted if it ends with the same letters as the right side, and before them with a number up
to the last. -/
theorem accepted_names_by_sides {raw : String} {parts : Parts} {range : SerialRange}
    (wellFormed : parts.WellFormed) (written : raw.toList = parts.write)
    (read : parse raw = .ok (.serial range)) :
    (∀ name, (compile raw).accepts name = true →
      (∀ c ∈ name.toList, c.isAlphanum = true) ∧ name.toList.length = parts.left.length) ∧
    (∀ digits, range.width < digits.length → range.acceptsDigits digits = false) ∧
    ((compile raw).accepts (range.before ++ String.ofList (parts.digits ++ parts.letters)) = true ↔
      range.first ≤ range.last) ∧
    ((compile raw).accepts (String.ofList parts.left) = true ↔
      fold (parts.left.rtake parts.letters.length) = fold parts.letters ∧
        (∀ c ∈ parts.firstDigits, c.isDigit = true) ∧
        Decimal.value parts.firstDigits < 2 ^ 64 ∧
        Decimal.value parts.firstDigits ≤ range.last.toNat) := by
  have described : parts.Describes range := by
    apply describes_of_ofParts wellFormed
    rw [parse_of_write wellFormed written] at read
    cases made : ofParts parts with
    | error error =>
      rw [made] at read
      cases read
    | ok other =>
      rw [made] at read
      cases read
      rfl
  have writable := described.writable wellFormed
  have compiled : compile raw = .serial range := by
    rw [compile, read]
  have accepts (name : String) :
      (compile raw).accepts name = true ↔ range.Matches name := by
    rw [compiled]
    exact accepts_eq_true_iff_matches
  refine ⟨?_, ?_, ?_, ?_⟩
  · intro name accepted
    have named := (accepts name).mp accepted
    rw [described.length_left]
    exact ⟨writable.isAlphanum_of_matches named, writable.length_of_matches named⟩
  · exact fun digits => writable.not_acceptsDigits_of_wider
  · rw [compiled, described.nameAt_last wellFormed, UInt64.le_iff_toNat_le]
    exact accepts_nameAt_iff.trans (and_iff_left (Nat.le_refl _))
  · rw [accepts]
    exact described.matches_left_iff wellFormed

/-- The left side ends with the letter and with digits, which are too large for a number. -/
theorem accepted_names_by_sides_nines :
    let raw := "A99999999999999999999b~00000000000000000005B"
    let parts : Parts :=
      ⟨"A99999999999999999999b".toList, "00000000000000000005".toList, "B".toList⟩
    parts.WellFormed ∧ raw.toList = parts.write ∧
      parse raw = .ok (.serial ⟨"A", "B", 20, 0, 5⟩) ∧
      (compile raw).accepts "A00000000000000000005B" = true ∧
      (compile raw).accepts "A99999999999999999999b" = false ∧
      ∀ name, (compile raw).accepts name = true → name.toList.length = 22 := by
  intro raw parts
  obtain ⟨wellFormed, written⟩ : parts.WellFormed ∧ raw.toList = parts.write :=
    Parts.read?_eq_some_iff.mp (by decide)
  have read : parse raw = .ok (.serial ⟨"A", "B", 20, 0, 5⟩) := by decide
  obtain ⟨names, _, right, left⟩ := accepted_names_by_sides wellFormed written read
  refine ⟨wellFormed, written, read, right.mpr (by decide), ?_,
    fun name accepted => (names name accepted).2⟩
  apply Bool.eq_false_iff.mpr
  intro accepted
  have fits := (left.mp accepted).2.2.1
  exact absurd fits (by decide)

end Pattern

end HostPattern
