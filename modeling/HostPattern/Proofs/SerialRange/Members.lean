import HostPattern.Proofs.Decimal.Accumulation
import HostPattern.SerialRange

/-!
# The members of a serial range

`accepts` cuts a name by sizes, looks at the digits and never lists the range; it
holds exactly for the names that `nameAt` gives, ASCII case aside.  A cut inside a
character is harmless, since its pieces are then no digits.
-/

namespace HostPattern.SerialRange

open Text

theorem foldByte_eq_self_of_isDigitByte {b : UInt8}
    (digit : Decimal.isDigitByte (foldByte b) = true) : foldByte b = b := by
  unfold foldByte at digit ⊢
  by_cases upper : 0x41 ≤ b ∧ b ≤ 0x5A
  · rw [if_pos upper, Decimal.isDigitByte_iff_toNat, UInt8.toNat_add] at digit
    have low := UInt8.le_iff_toNat_le.mp upper.1
    have high := UInt8.le_iff_toNat_le.mp upper.2
    simp at low high digit
    omega
  · exact if_neg upper

/-- Folding neither makes nor hides a digit. -/
theorem map_foldByte_eq_digits_iff {bytes digits : Bytes}
    (all : ∀ b ∈ digits, Decimal.isDigitByte b = true) :
    bytes.map foldByte = digits ↔ bytes = digits := by
  induction digits generalizing bytes with
  | nil => exact List.map_eq_nil_iff
  | cons d digits inductionHypothesis =>
    obtain ⟨digit, rest⟩ := List.forall_mem_cons.mp all
    cases bytes with
    | nil => simp
    | cons b bytes =>
      rw [List.map_cons, List.cons.injEq, List.cons.injEq, inductionHypothesis rest]
      constructor
      · intro folded
        rcases folded with ⟨same, others⟩
        exact ⟨(foldByte_eq_self_of_isDigitByte (same ▸ digit)).symm.trans same, others⟩
      · intro plain
        rcases plain with ⟨rfl, others⟩
        refine ⟨?_, others⟩
        unfold foldByte
        rw [if_neg]
        have bounds := Decimal.isDigitByte_iff_toNat.mp digit
        simp only [UInt8.le_iff_toNat_le]
        simp
        omega

theorem accepts_eq_true_iff_cut {range : SerialRange} {name : String} :
    range.accepts name = true ↔
      ∃ head digits tail, Utf8.encode name = head ++ (digits ++ tail) ∧
        head.map foldByte = (Utf8.encode range.before).map foldByte ∧
        tail.map foldByte = (Utf8.encode range.after).map foldByte ∧
        range.acceptsDigits digits = true := by
  simp only [accepts, List.splitAt_eq]
  constructor
  · intro accepted
    split at accepted
    · cases accepted
    · simp only [Bool.and_eq_true, sameFolded_eq_true_iff] at accepted
      obtain ⟨⟨front, back⟩, digits⟩ := accepted
      refine ⟨_, _, _, ?_, front, back, digits⟩
      rw [List.take_append_drop, List.take_append_drop]
  · intro cut
    rcases cut with ⟨head, digits, tail, joined, front, back, accepted⟩
    have frontSize : (Utf8.encode range.before).length = head.length := by
      simpa using (congrArg List.length front).symm
    have backSize : (Utf8.encode range.after).length = tail.length := by
      simpa using (congrArg List.length back).symm
    have room : ¬ (Utf8.encode name).length <
        (Utf8.encode range.before).length + (Utf8.encode range.after).length := by
      rw [joined, frontSize, backSize, List.length_append, List.length_append]
      omega
    rw [if_neg room, joined, frontSize, backSize, List.take_left, List.drop_left]
    rw [List.length_append, Nat.add_sub_cancel, List.take_left, List.drop_left]
    simp [front, back, accepted]

theorem acceptsDigits_encodeChars {range : SerialRange} {digits : List Char}
    (all : ∀ c ∈ digits, c.isDigit = true) :
    range.acceptsDigits (Utf8.encodeChars digits) = true ↔
      digits ≠ [] ∧ range.width ≤ digits.length ∧
      ¬ (range.width < digits.length ∧ 1 < digits.length ∧ digits.head? = some '0') ∧
      range.first.toNat ≤ Decimal.value digits ∧ Decimal.value digits ≤ range.last.toNat := by
  have size := Decimal.length_encodeChars_of_isDigit all
  have bytes : (Utf8.encodeChars digits).all Decimal.isDigitByte = true :=
    List.all_eq_true.mpr fun b => Decimal.isDigitByte_of_mem_encodeChars all
  have empty : (Utf8.encodeChars digits).isEmpty = digits.isEmpty := by
    rw [Bool.eq_iff_iff, List.isEmpty_iff, List.isEmpty_iff, ← List.length_eq_zero_iff, size,
      List.length_eq_zero_iff]
  have zero : ((Utf8.encodeChars digits).head? == some Decimal.zeroByte) =
      (digits.head? == some '0') := by
    rw [Bool.eq_iff_iff, beq_iff_eq, beq_iff_eq, Decimal.head?_encodeChars_of_isDigit all]
  have number : ((Decimal.accumulate? (Utf8.encodeChars digits)).any fun n =>
      decide (range.first ≤ n) && decide (n ≤ range.last)) = true ↔
      range.first.toNat ≤ Decimal.value digits ∧ Decimal.value digits ≤ range.last.toNat := by
    rw [Decimal.accumulate?_encodeChars all]
    cases word : Decimal.word? (Decimal.value digits) with
    | none =>
      have large := Decimal.word?_eq_none_iff.mp word
      have bound := range.last.toNat_lt_size
      simp
      omega
    | some n =>
      rw [← Decimal.word?_eq_some_iff.mp word]
      simp [UInt64.le_iff_toNat_le]
  have lead : (!(decide (range.width < digits.length) && decide (1 < digits.length) &&
      digits.head? == some '0')) = true ↔
      ¬ (range.width < digits.length ∧ 1 < digits.length ∧ digits.head? = some '0') := by
    rw [Bool.not_eq_true', ← Bool.not_eq_true, not_iff_not]
    simp [and_assoc]
  rw [acceptsDigits, size, bytes, empty, zero, Bool.and_eq_true, Bool.and_eq_true, lead, number]
  simp [and_assoc]

theorem acceptsDigits_eq_true_iff {range : SerialRange} {bytes : Bytes} :
    range.acceptsDigits bytes = true ↔
      ∃ n, range.first.toNat ≤ n ∧ n ≤ range.last.toNat ∧
        bytes = Utf8.encodeChars (Decimal.padded range.width n) := by
  constructor
  · intro accepted
    have all : ∀ b ∈ bytes, Decimal.isDigitByte b = true := by
      simp only [acceptsDigits, Bool.and_eq_true, List.all_eq_true] at accepted
      exact accepted.1.1.2
    obtain ⟨digits, digitsAll, rfl⟩ := Decimal.exists_digits_of_isDigitByte all
    obtain ⟨nonempty, wide, lead, low, high⟩ :=
      (acceptsDigits_encodeChars digitsAll).mp accepted
    refine ⟨Decimal.value digits, low, high, congrArg Utf8.encodeChars ?_⟩
    apply Decimal.eq_padded_iff.mpr
    exact ⟨nonempty, wide, digitsAll, lead, rfl⟩
  · intro numbered
    rcases numbered with ⟨n, low, high, rfl⟩
    obtain ⟨nonempty, wide, all, lead, number⟩ :=
      Decimal.eq_padded_iff.mp (rfl : Decimal.padded range.width n = _)
    rw [acceptsDigits_encodeChars all, number]
    exact ⟨nonempty, wide, lead, low, high⟩

theorem encode_nameAt (range : SerialRange) (n : Nat) :
    Utf8.encode (range.nameAt n) = Utf8.encode range.before ++
      (Utf8.encodeChars (Decimal.padded range.width n) ++ Utf8.encode range.after) := by
  simp only [Utf8.encode, toList_nameAt, Utf8.encodeChars_append, List.append_assoc]

/-- Bytes are those of a name up to ASCII case if they end as it does around the same digits. -/
theorem map_foldByte_eq_nameAt_iff {range : SerialRange} {n : Nat} {bytes : Bytes} :
    bytes.map foldByte = (Utf8.encode (range.nameAt n)).map foldByte ↔
      ∃ head tail,
        bytes = head ++ (Utf8.encodeChars (Decimal.padded range.width n) ++ tail) ∧
        head.map foldByte = (Utf8.encode range.before).map foldByte ∧
        tail.map foldByte = (Utf8.encode range.after).map foldByte := by
  have digits : ∀ b ∈ Utf8.encodeChars (Decimal.padded range.width n),
      Decimal.isDigitByte b = true := fun b =>
    Decimal.isDigitByte_of_mem_encodeChars fun c => Decimal.isDigit_of_mem_padded
  have folded := (map_foldByte_eq_digits_iff digits).mpr rfl
  rw [encode_nameAt, List.map_append, List.map_append, folded]
  constructor
  · intro same
    obtain ⟨head, rest, rfl, front, remaining⟩ := List.map_eq_append_iff.mp same
    obtain ⟨middle, tail, rfl, number, back⟩ := List.map_eq_append_iff.mp remaining
    refine ⟨head, tail, ?_, front, back⟩
    rw [(map_foldByte_eq_digits_iff digits).mp number]
  · intro cut
    rcases cut with ⟨head, tail, rfl, front, back⟩
    rw [List.map_append, List.map_append, front, back, folded]

/-- Deciding by digits agrees with the list of names. -/
theorem accepts_eq_true_iff_matches {range : SerialRange} {name : String} :
    range.accepts name = true ↔ range.Matches name := by
  simp only [Matches, Utf8.fold_eq_iff_map_foldByte_eq, map_foldByte_eq_nameAt_iff,
    accepts_eq_true_iff_cut, acceptsDigits_eq_true_iff]
  constructor
  · intro cut
    rcases cut with ⟨head, _, tail, joined, front, back, n, low, high, rfl⟩
    exact ⟨n, low, high, head, tail, joined, front, back⟩
  · intro named
    rcases named with ⟨n, low, high, head, tail, joined, front, back⟩
    exact ⟨head, _, tail, joined, front, back, n, low, high, rfl⟩

theorem accepts_eq_of_matches_iff {range other : SerialRange} {name otherName : String}
    (same : range.Matches name ↔ other.Matches otherName) :
    range.accepts name = other.accepts otherName := by
  rw [Bool.eq_iff_iff, accepts_eq_true_iff_matches, accepts_eq_true_iff_matches]
  exact same

/-- A range accepts a name exactly if the bytes of the name are, ASCII case aside, those
of one of the range's names, its number padded with zeros and never cut short. -/
theorem accepts_iff_bytes_of_nameAt (range : SerialRange) (name : String) :
    range.accepts name = true ↔
      ∃ n : Nat, range.first.toNat ≤ n ∧ n ≤ range.last.toNat ∧
        (Utf8.encode name).map foldByte = (Utf8.encode (range.nameAt n)).map foldByte := by
  rw [accepts_eq_true_iff_matches]
  simp only [Matches, Utf8.fold_eq_iff_map_foldByte_eq]

end HostPattern.SerialRange
