import HostPattern.Proofs.Pattern.RoundTrip
import HostPattern.Proofs.SerialRange.Members

/-!
# Ranges whose names agree

The same names can be cut in several ways: digits before the number may count as part of
it or of what stands in front.  `Aligned` is the relation between two such cuts.  Two
writable ranges with a name in common are aligned, and aligned ranges with the same first
and last name match the same names.  So digits can be moved from one part to the other.
-/

namespace HostPattern.SerialRange

open Text

/-- The ranges differ, case aside, only in the digits that `wide` counts as part of its
number and `narrow` as part of what stands before it. -/
structure Aligned (digits : List Char) (wide narrow : SerialRange) : Prop where
  allDigits : ∀ c ∈ digits, c.isDigit = true
  before : fold narrow.before.toList = fold wide.before.toList ++ digits
  after : fold narrow.after.toList = fold wide.after.toList
  width : wide.width = digits.length + narrow.width
  positive : 0 < narrow.width

theorem fold_padded (width n : Nat) : fold (Decimal.padded width n) = Decimal.padded width n :=
  fold_digits fun _ => Decimal.isDigit_of_mem_padded

theorem fold_toList_nameAt (range : SerialRange) (n : Nat) :
    fold (range.nameAt n).toList =
      fold range.before.toList ++ (Decimal.padded range.width n ++ fold range.after.toList) := by
  rw [toList_nameAt, fold_append, fold_append, fold_padded, List.append_assoc]

theorem isAlphanum_of_mem_fold_nameAt {range : SerialRange} (writable : range.Writable)
    (n : Nat) :
    ∀ c ∈ fold (range.nameAt n).toList, c.isAlphanum = true := by
  rw [forall_mem_fold isAlphanum_toLower, toList_nameAt]
  intro c member
  rcases List.mem_append.mp member with front | letter
  · rcases List.mem_append.mp front with before | digit
    · exact writable.before c before
    · apply isAlphanum_of_isDigit
      exact Decimal.isDigit_of_mem_padded digit
  · apply isAlphanum_of_isAlpha
    exact writable.after c letter

namespace Aligned

variable {digits : List Char} {wide narrow : SerialRange}

/-- The number in the wide range whose name is that of `n` in the narrow one. -/
def shift (digits : List Char) (narrow : SerialRange) (n : Nat) : Nat :=
  10 ^ narrow.width * Decimal.value digits + n

theorem fold_nameAt_shift (aligned : Aligned digits wide narrow) {n : Nat}
    (small : n < 10 ^ narrow.width) :
    fold (wide.nameAt (shift digits narrow n)).toList = fold (narrow.nameAt n).toList := by
  rw [fold_toList_nameAt, fold_toList_nameAt, aligned.before, aligned.after, aligned.width, shift,
    ← Decimal.append_padded aligned.allDigits aligned.positive small, List.append_assoc,
    List.append_assoc]

/-- Names agree for no other numbers. -/
theorem eq_shift (aligned : Aligned digits wide narrow) {m n : Nat} (small : n < 10 ^ narrow.width)
    (same : fold (wide.nameAt m).toList = fold (narrow.nameAt n).toList) :
    m = shift digits narrow n := by
  rw [← aligned.fold_nameAt_shift small, fold_toList_nameAt, fold_toList_nameAt] at same
  have numbers := List.append_cancel_right (List.append_cancel_left same)
  have values := congrArg Decimal.value numbers
  rw [Decimal.value_padded, Decimal.value_padded] at values
  exact values

theorem matches_iff (aligned : Aligned digits wide narrow)
    (small : narrow.last.toNat < 10 ^ narrow.width)
    (first : wide.first.toNat = shift digits narrow narrow.first.toNat)
    (last : wide.last.toNat = shift digits narrow narrow.last.toNat) (name : String) :
    wide.Matches name ↔ narrow.Matches name := by
  unfold Matches
  rw [first, last]
  constructor
  · intro named
    rcases named with ⟨m, low, high, same⟩
    obtain ⟨n, rfl⟩ : ∃ n, m = shift digits narrow n := by
      unfold shift at low ⊢
      exact ⟨m - 10 ^ narrow.width * Decimal.value digits, by omega⟩
    have lowest : narrow.first.toNat ≤ n := Nat.le_of_add_le_add_left low
    have highest : n ≤ narrow.last.toNat := Nat.le_of_add_le_add_left high
    refine ⟨n, lowest, highest, ?_⟩
    rw [same]
    exact aligned.fold_nameAt_shift (Nat.lt_of_le_of_lt highest small)
  · intro named
    rcases named with ⟨n, low, high, same⟩
    refine ⟨shift digits narrow n, Nat.add_le_add_left low _, Nat.add_le_add_left high _, ?_⟩
    rw [same]
    exact (aligned.fold_nameAt_shift (Nat.lt_of_le_of_lt high small)).symm

end Aligned

theorem exists_padded_eq_concat (width n : Nat) :
    ∃ front c, Decimal.padded width n = front ++ [c] ∧ c.isDigit = true := by
  have split := List.dropLast_concat_getLast (Decimal.padded_ne_nil width n)
  refine ⟨_, _, split.symm, ?_⟩
  apply Decimal.isDigit_of_mem_padded
  exact List.getLast_mem _

/-- Letters after a digit are found from the end of the text. -/
theorem append_letters_inj {front back letters more : List Char} {c d : Char}
    (digit : c.isDigit = true) (otherDigit : d.isDigit = true)
    (lettersAll : ∀ x ∈ letters, x.isAlpha = true) (moreAll : ∀ x ∈ more, x.isAlpha = true)
    (same : front ++ [c] ++ letters = back ++ [d] ++ more) : letters = more := by
  have reversed := congrArg List.reverse same
  simp only [List.reverse_append, List.reverse_singleton, List.singleton_append] at reversed
  have ends := append_cons_inj Char.isAlpha
    (fun x member => lettersAll x (List.mem_reverse.mp member))
    (fun x member => moreAll x (List.mem_reverse.mp member))
    (not_isAlpha_of_isDigit digit) (not_isAlpha_of_isDigit otherDigit) reversed
  exact List.reverse_inj.mp ends.1

section Common

variable {range other : SerialRange} {m n : Nat}

theorem fold_after_eq_of_common (writable : range.Writable) (otherWritable : other.Writable)
    (same : fold (range.nameAt m).toList = fold (other.nameAt n).toList) :
    fold range.after.toList = fold other.after.toList ∧
      fold range.before.toList ++ Decimal.padded range.width m =
        fold other.before.toList ++ Decimal.padded other.width n := by
  rw [fold_toList_nameAt, fold_toList_nameAt] at same
  have letters (range : SerialRange) (writable : range.Writable) :
      ∀ c ∈ fold range.after.toList, c.isAlpha = true := by
    rw [forall_mem_fold Char.isAlpha_toLower_eq_isAlpha]
    exact writable.after
  have after : fold range.after.toList = fold other.after.toList := by
    obtain ⟨front, c, split, digit⟩ := exists_padded_eq_concat range.width m
    obtain ⟨back, d, otherSplit, otherDigit⟩ := exists_padded_eq_concat other.width n
    have cut : fold range.before.toList ++ front ++ [c] ++ fold range.after.toList =
        fold other.before.toList ++ back ++ [d] ++ fold other.after.toList := by
      rw [split, otherSplit] at same
      simpa only [List.append_assoc] using same
    exact append_letters_inj digit otherDigit (letters _ writable) (letters _ otherWritable) cut
  refine ⟨after, ?_⟩
  rw [after, ← List.append_assoc, ← List.append_assoc] at same
  exact List.append_cancel_right same

/-- Two ranges with a common name are aligned, the one with the longer numbers first. -/
theorem exists_aligned (writable : range.Writable) (otherWritable : other.Writable)
    (order : other.width ≤ range.width) (small : m < 10 ^ range.width)
    (otherSmall : n < 10 ^ other.width)
    (same : fold (range.nameAt m).toList = fold (other.nameAt n).toList) :
    ∃ digits, Aligned digits range other := by
  obtain ⟨after, front⟩ := fold_after_eq_of_common writable otherWritable same
  have size := Decimal.length_padded_of_lt writable.width small
  have otherSize := Decimal.length_padded_of_lt otherWritable.width otherSmall
  have longer : (fold range.before.toList).length ≤ (fold other.before.toList).length := by
    have lengths := congrArg List.length front
    rw [List.length_append, List.length_append, size, otherSize] at lengths
    omega
  obtain ⟨digits, before⟩ : fold range.before.toList <+: fold other.before.toList := by
    apply List.prefix_of_prefix_length_le (List.prefix_append _ (Decimal.padded range.width m)) _
      longer
    rw [front]
    exact List.prefix_append _ _
  rw [← before, List.append_assoc] at front
  have number : Decimal.padded range.width m = digits ++ Decimal.padded other.width n :=
    List.append_cancel_left front
  refine ⟨digits, ?_, before.symm, after.symm, ?_, otherWritable.width⟩
  · intro c member
    have inside : c ∈ Decimal.padded range.width m := by
      rw [number]
      exact List.mem_append_left _ member
    exact Decimal.isDigit_of_mem_padded inside
  · rw [← size, number, List.length_append, otherSize]

end Common

/-- The ranges begin with the same name and end with the same name, case aside. -/
structure SameEnds (range other : SerialRange) : Prop where
  first :
    fold (range.nameAt range.first.toNat).toList = fold (other.nameAt other.first.toNat).toList
  last : fold (range.nameAt range.last.toNat).toList = fold (other.nameAt other.last.toNat).toList

theorem SameEnds.symm {range other : SerialRange} (ends : SameEnds range other) :
    SameEnds other range :=
  ⟨ends.first.symm, ends.last.symm⟩

section Ends

variable {range other : SerialRange}

/-- What the ends say of the numbers, for the range with the longer ones. -/
theorem SameEnds.exists_shift (ends : SameEnds range other) (writable : range.Writable)
    (otherWritable : other.Writable) (order : other.width ≤ range.width) :
    ∃ digits, Aligned digits range other ∧
      range.first.toNat = Aligned.shift digits other other.first.toNat ∧
      range.last.toNat = Aligned.shift digits other other.last.toNat := by
  obtain ⟨digits, aligned⟩ :=
    exists_aligned writable otherWritable order writable.first otherWritable.first ends.first
  exact ⟨digits, aligned, aligned.eq_shift otherWritable.first ends.first,
    aligned.eq_shift otherWritable.last ends.last⟩

/-- The first and the last name say which names a range matches. -/
theorem SameEnds.matches_iff (ends : SameEnds range other) (writable : range.Writable)
    (otherWritable : other.Writable) (name : String) :
    range.Matches name ↔ other.Matches name := by
  rcases Nat.le_total other.width range.width with order | order
  · obtain ⟨digits, aligned, first, last⟩ := ends.exists_shift writable otherWritable order
    exact aligned.matches_iff otherWritable.last first last name
  · obtain ⟨digits, aligned, first, last⟩ := ends.symm.exists_shift otherWritable writable order
    exact (aligned.matches_iff writable.last first last name).symm

theorem SameEnds.last_sub_first (ends : SameEnds range other) (writable : range.Writable)
    (otherWritable : other.Writable) :
    (range.last.toNat : Int) - range.first.toNat = other.last.toNat - other.first.toNat := by
  rcases Nat.le_total other.width range.width with order | order
  · obtain ⟨digits, _, first, last⟩ := ends.exists_shift writable otherWritable order
    rw [first, last, Aligned.shift, Aligned.shift]
    push_cast
    ring
  · obtain ⟨digits, _, first, last⟩ := ends.symm.exists_shift otherWritable writable order
    rw [first, last, Aligned.shift, Aligned.shift]
    push_cast
    ring

theorem SameEnds.size_eq (ends : SameEnds range other) (writable : range.Writable)
    (otherWritable : other.Writable) : range.size = other.size := by
  have span := ends.last_sub_first writable otherWritable
  unfold size
  omega

theorem SameEnds.isEmpty_eq (ends : SameEnds range other) (writable : range.Writable)
    (otherWritable : other.Writable) : range.isEmpty = other.isEmpty := by
  have span := ends.last_sub_first writable otherWritable
  simp only [isEmpty, UInt64.lt_iff_toNat_lt, decide_eq_decide]
  omega

end Ends

theorem matches_nameAt {range : SerialRange} {n : Nat} (low : range.first.toNat ≤ n)
    (high : n ≤ range.last.toNat) : range.Matches (range.nameAt n) :=
  ⟨n, low, high, rfl⟩

section Names

variable {range other : SerialRange}

/-- The names of a range that holds any have a least and a greatest number, whichever way
the names are cut. -/
theorem sameEnds_of_matches_iff_of_le (writable : range.Writable) (otherWritable : other.Writable)
    (filled : range.first.toNat ≤ range.last.toNat)
    (otherFilled : other.first.toNat ≤ other.last.toNat) (order : other.width ≤ range.width)
    (same : ∀ name, range.Matches name ↔ other.Matches name) : SameEnds range other := by
  obtain ⟨n, firstLow, firstHigh, firstName⟩ :=
    (same _).mp (matches_nameAt (Nat.le_refl range.first.toNat) filled)
  obtain ⟨k, lastLow, lastHigh, lastName⟩ :=
    (same _).mp (matches_nameAt filled (Nat.le_refl range.last.toNat))
  obtain ⟨i, leastLow, leastHigh, leastName⟩ :=
    (same _).mpr (matches_nameAt (Nat.le_refl other.first.toNat) otherFilled)
  obtain ⟨j, mostLow, mostHigh, mostName⟩ :=
    (same _).mpr (matches_nameAt otherFilled (Nat.le_refl other.last.toNat))
  have below {number : Nat} (high : number ≤ other.last.toNat) : number < 10 ^ other.width :=
    Nat.lt_of_le_of_lt high otherWritable.last
  obtain ⟨digits, aligned⟩ :=
    exists_aligned writable otherWritable order writable.first (below firstHigh) firstName
  have first := aligned.eq_shift (below firstHigh) firstName
  have last := aligned.eq_shift (below lastHigh) lastName
  have least := aligned.eq_shift otherWritable.first leastName.symm
  have most := aligned.eq_shift otherWritable.last mostName.symm
  unfold Aligned.shift at first last least most
  -- Each end of one range is a name of the other, so neither range begins earlier or ends later.
  obtain rfl : n = other.first.toNat := by omega
  obtain rfl : k = other.last.toNat := by omega
  exact ⟨firstName, lastName⟩

theorem sameEnds_of_matches_iff (writable : range.Writable) (otherWritable : other.Writable)
    (filled : range.first.toNat ≤ range.last.toNat)
    (otherFilled : other.first.toNat ≤ other.last.toNat)
    (same : ∀ name, range.Matches name ↔ other.Matches name) : SameEnds range other := by
  rcases Nat.le_total other.width range.width with order | order
  · exact sameEnds_of_matches_iff_of_le writable otherWritable filled otherFilled order same
  · apply SameEnds.symm
    apply sameEnds_of_matches_iff_of_le otherWritable writable otherFilled filled order
    exact fun name => (same name).symm

end Names

/-- The digits at the end of what stands before the number may as well begin the number: where
the width has room for the last number, and the longer numbers are still words, the ranges
accept the same names. -/
theorem accepts_eq_of_digits_moved {before after : String} {digits : List Char}
    {width first last : Nat} (allDigits : ∀ c ∈ digits, c.isDigit = true) (positive : 1 ≤ width)
    (small : last < 10 ^ width) (firstFits : Decimal.value digits * 10 ^ width + first < 2 ^ 64)
    (lastFits : Decimal.value digits * 10 ^ width + last < 2 ^ 64) (name : String) :
    (SerialRange.mk (before ++ String.ofList digits) after width
      (.ofNat first) (.ofNat last)).accepts name =
    (SerialRange.mk before after (width + digits.length)
      (.ofNat (Decimal.value digits * 10 ^ width + first))
      (.ofNat (Decimal.value digits * 10 ^ width + last))).accepts name := by
  have word {n : Nat} (fits : n < 2 ^ 64) : (UInt64.ofNat n).toNat = n :=
    UInt64.toNat_ofNat_of_lt' fits
  have firstWord := word (Nat.lt_of_le_of_lt (Nat.le_add_left _ _) firstFits)
  have lastWord := word (Nat.lt_of_le_of_lt (Nat.le_add_left _ _) lastFits)
  have aligned : Aligned digits
      ⟨before, after, width + digits.length, .ofNat (Decimal.value digits * 10 ^ width + first),
        .ofNat (Decimal.value digits * 10 ^ width + last)⟩
      ⟨before ++ String.ofList digits, after, width, .ofNat first, .ofNat last⟩ := by
    refine ⟨allDigits, ?_, rfl, Nat.add_comm _ _, positive⟩
    rw [String.toList_append, String.toList_ofList, fold_append, fold_digits allDigits]
  apply accepts_eq_of_matches_iff
  apply Iff.symm
  apply aligned.matches_iff
  case small =>
    rw [lastWord]
    exact small
  case first => rw [word firstFits, firstWord, Aligned.shift, Nat.mul_comm]
  case last => rw [word lastFits, lastWord, Aligned.shift, Nat.mul_comm]

/-- The digit in front of the number, a zero or not, belongs to it in one text of each pair. -/
theorem accepts_eq_of_digits_moved_host :
    Pattern.compile "Host001~10" ≠ Pattern.compile "Host001~010" ∧
    Pattern.compile "Host123~30" ≠ Pattern.compile "Host123~130" ∧
    ∀ name,
      (Pattern.compile "Host001~10").accepts name = (Pattern.compile "Host001~010").accepts name ∧
      (Pattern.compile "Host123~30").accepts name = (Pattern.compile "Host123~130").accepts name := by
  have zero : Pattern.compile "Host001~10" =
      .serial ⟨"Host" ++ String.ofList ['0'], "", 2, .ofNat 1, .ofNat 10⟩ := by decide
  have wideZero : Pattern.compile "Host001~010" =
      .serial ⟨"Host", "", 2 + ['0'].length, .ofNat (Decimal.value ['0'] * 10 ^ 2 + 1),
        .ofNat (Decimal.value ['0'] * 10 ^ 2 + 10)⟩ := by decide
  have one : Pattern.compile "Host123~30" =
      .serial ⟨"Host" ++ String.ofList ['1'], "", 2, .ofNat 23, .ofNat 30⟩ := by decide
  have wideOne : Pattern.compile "Host123~130" =
      .serial ⟨"Host", "", 2 + ['1'].length, .ofNat (Decimal.value ['1'] * 10 ^ 2 + 23),
        .ofNat (Decimal.value ['1'] * 10 ^ 2 + 30)⟩ := by decide
  refine ⟨by decide, by decide, fun name => ?_⟩
  rw [zero, wideZero, one, wideOne]
  constructor
  · exact accepts_eq_of_digits_moved (by simp) (by decide) (by decide) (by decide) (by decide) name
  · exact accepts_eq_of_digits_moved (by simp) (by decide) (by decide) (by decide) (by decide) name

end HostPattern.SerialRange
