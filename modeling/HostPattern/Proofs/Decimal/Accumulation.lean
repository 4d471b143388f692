import HostPattern.Proofs.Decimal.Padding

/-!
# Words from digits

Digits take one byte each, and `accumulate?` over their bytes is the exact value
where it fits a word: a step that does not fit is never made up for later.  So it
agrees with `parse?`, which takes the value first.
-/

namespace HostPattern.Decimal

open Text

theorem utf8EncodeChar_of_lt {c : Char} (small : c.toNat < 0x80) :
    String.utf8EncodeChar c = [UInt8.ofNat c.toNat] := by
  unfold String.utf8EncodeChar
  rw [Char.toNat_val]
  exact if_pos (by omega)

theorem toNat_byte_of_lt {c : Char} (small : c.toNat < 0x80) :
    (UInt8.ofNat c.toNat).toNat = c.toNat :=
  UInt8.toNat_ofNat_of_lt' (Nat.lt_trans small (by decide))

theorem utf8EncodeChar_of_isDigit {c : Char} (digit : c.isDigit = true) :
    String.utf8EncodeChar c = [UInt8.ofNat c.toNat] := by
  have bounds := toNat_bounds_of_isDigit digit
  exact utf8EncodeChar_of_lt (by omega)

theorem toNat_digitByte {c : Char} (digit : c.isDigit = true) :
    (UInt8.ofNat c.toNat).toNat = c.toNat := by
  have bounds := toNat_bounds_of_isDigit digit
  exact toNat_byte_of_lt (by omega)

theorem isDigitByte_iff_toNat {b : UInt8} :
    isDigitByte b = true ↔ 48 ≤ b.toNat ∧ b.toNat ≤ 57 := by
  simp [isDigitByte, zeroByte, UInt8.le_iff_toNat_le]

theorem isDigitByte_digitByte {c : Char} (digit : c.isDigit = true) :
    isDigitByte (UInt8.ofNat c.toNat) = true := by
  rw [isDigitByte_iff_toNat, toNat_digitByte digit]
  exact toNat_bounds_of_isDigit digit

theorem digitByte_sub_zeroByte {c : Char} (digit : c.isDigit = true) :
    (UInt8.ofNat c.toNat - zeroByte).toNat = c.toNat - 48 := by
  have low : zeroByte ≤ UInt8.ofNat c.toNat := by
    rw [UInt8.le_iff_toNat_le, toNat_digitByte digit]
    exact (toNat_bounds_of_isDigit digit).1
  rw [UInt8.toNat_sub_of_le _ _ low, toNat_digitByte digit]
  rfl

theorem encodeChars_cons_of_isDigit {c : Char} (digit : c.isDigit = true) (chars : List Char) :
    Utf8.encodeChars (c :: chars) = UInt8.ofNat c.toNat :: Utf8.encodeChars chars := by
  rw [Utf8.encodeChars_cons, utf8EncodeChar_of_isDigit digit]
  rfl

theorem length_encodeChars_of_isDigit {digits : List Char}
    (all : ∀ c ∈ digits, c.isDigit = true) :
    (Utf8.encodeChars digits).length = digits.length := by
  induction digits with
  | nil => rfl
  | cons c digits inductionHypothesis =>
    obtain ⟨digit, rest⟩ := List.forall_mem_cons.mp all
    rw [encodeChars_cons_of_isDigit digit, List.length_cons, inductionHypothesis rest,
      List.length_cons]

theorem head?_encodeChars_of_isDigit {digits : List Char}
    (all : ∀ c ∈ digits, c.isDigit = true) :
    (Utf8.encodeChars digits).head? = some zeroByte ↔ digits.head? = some '0' := by
  cases digits with
  | nil => simp
  | cons c digits =>
    have digit := (List.forall_mem_cons.mp all).1
    rw [encodeChars_cons_of_isDigit digit, List.head?_cons, List.head?_cons, Option.some.injEq,
      Option.some.injEq, ← UInt8.toNat_inj, toNat_digitByte digit, ← Char.toNat_inj]
    rfl

theorem isDigitByte_of_mem_encodeChars {digits : List Char}
    (all : ∀ c ∈ digits, c.isDigit = true) {b : UInt8} (member : b ∈ Utf8.encodeChars digits) :
    isDigitByte b = true := by
  obtain ⟨c, inside, byte⟩ := List.mem_flatMap.mp member
  rw [utf8EncodeChar_of_isDigit (all c inside), List.mem_singleton] at byte
  rw [byte]
  exact isDigitByte_digitByte (all c inside)

theorem exists_digits_of_isDigitByte {bytes : Bytes} (all : ∀ b ∈ bytes, isDigitByte b = true) :
    ∃ digits, (∀ c ∈ digits, c.isDigit = true) ∧ Utf8.encodeChars digits = bytes := by
  induction bytes with
  | nil => exact ⟨[], by simp, rfl⟩
  | cons b bytes inductionHypothesis =>
    obtain ⟨byte, rest⟩ := List.forall_mem_cons.mp all
    obtain ⟨digits, digitsAll, encoded⟩ := inductionHypothesis rest
    have bounds := isDigitByte_iff_toNat.mp byte
    have size : (Nat.digitChar (b.toNat - 48)).toNat = b.toNat := by
      rw [Nat.toNat_digitChar_of_lt_ten (by omega)]
      omega
    have digit : (Nat.digitChar (b.toNat - 48)).isDigit = true := by
      rw [Nat.isDigit_digitChar, decide_eq_true_eq]
      omega
    refine ⟨Nat.digitChar (b.toNat - 48) :: digits, List.forall_mem_cons.mpr ⟨digit, digitsAll⟩, ?_⟩
    rw [encodeChars_cons_of_isDigit digit, encoded, size, UInt8.ofNat_toNat]

theorem word?_eq_none_iff {n : Nat} : word? n = none ↔ UInt64.size ≤ n := by
  unfold word?
  split <;> simp <;> omega

theorem append?_digitByte (n : UInt64) {c : Char} (digit : c.isDigit = true) :
    append? n (UInt8.ofNat c.toNat) = word? (10 * n.toNat + (c.toNat - 48)) := by
  rw [append?, digitByte_sub_zeroByte digit]
  cases tens : word? (10 * n.toNat) with
  | none =>
    have large := word?_eq_none_iff.mp tens
    exact (word?_eq_none_iff.mpr (by omega)).symm
  | some word =>
    rw [← word?_eq_some_iff.mp tens]
    rfl

theorem foldlM_append?_encodeChars {digits : List Char}
    (all : ∀ c ∈ digits, c.isDigit = true) (n : UInt64) :
    (Utf8.encodeChars digits).foldlM append? n =
      word? (10 ^ digits.length * n.toNat + value digits) := by
  induction digits generalizing n with
  | nil =>
    have same : word? n.toNat = some n := word?_eq_some_iff.mpr rfl
    simpa using same.symm
  | cons c digits inductionHypothesis =>
    obtain ⟨digit, rest⟩ := List.forall_mem_cons.mp all
    have total : 10 ^ (c :: digits).length * n.toNat + value (c :: digits) =
        10 ^ digits.length * (10 * n.toNat + (c.toNat - 48)) + value digits := by
      rw [← List.singleton_append, value_append, value_singleton]
      simp only [List.singleton_append, List.length_cons]
      ring
    rw [encodeChars_cons_of_isDigit digit, List.foldlM_cons, append?_digitByte n digit, total]
    cases step : word? (10 * n.toNat + (c.toNat - 48)) with
    | none =>
      have large := word?_eq_none_iff.mp step
      -- What is too large stays so, as every further digit only adds to it.
      have larger : 10 * n.toNat + (c.toNat - 48) ≤
          10 ^ digits.length * (10 * n.toNat + (c.toNat - 48)) :=
        Nat.le_mul_of_pos_left _ (Nat.pow_pos (by decide))
      exact (word?_eq_none_iff.mpr (by omega)).symm
    | some word =>
      rw [← word?_eq_some_iff.mp step]
      exact inductionHypothesis rest word

/-- Going byte by byte ends with the exact value, or with nothing if that is too large. -/
theorem accumulate?_encodeChars {digits : List Char} (all : ∀ c ∈ digits, c.isDigit = true) :
    accumulate? (Utf8.encodeChars digits) = word? (value digits) := by
  rw [accumulate?, foldlM_append?_encodeChars all]
  simp

theorem parse?_of_isDigit {digits : List Char} (nonempty : digits ≠ [])
    (all : ∀ c ∈ digits, c.isDigit = true) : parse? digits = word? (value digits) :=
  if_pos ⟨nonempty, List.all_eq_true.mpr all⟩

theorem parse?_eq_some_iff {text : List Char} {n : UInt64} :
    parse? text = some n ↔
      text ≠ [] ∧ (∀ c ∈ text, c.isDigit = true) ∧ n.toNat = value text := by
  simp only [parse?, Option.ite_none_right_eq_some, List.all_eq_true, and_assoc,
    word?_eq_some_iff]

/-- What a text that may be no number counts as, where zero stands in for none. -/
theorem toNat_getD_parse? {text : List Char} (nonempty : text ≠ []) :
    ((parse? text).getD 0).toNat =
      if text.all Char.isDigit = true ∧ value text < 2 ^ 64 then value text else 0 := by
  cases read : parse? text with
  | some n =>
    obtain ⟨_, all, same⟩ := parse?_eq_some_iff.mp read
    have bound := n.toNat_lt_size
    rw [if_pos ⟨List.all_eq_true.mpr all, same ▸ bound⟩, Option.getD_some, same]
  | none =>
    rw [if_neg, Option.getD_none]
    · rfl
    · intro fits
      rcases fits with ⟨all, small⟩
      rw [parse?_of_isDigit nonempty (List.all_eq_true.mp all), word?_eq_none_iff] at read
      exact absurd small (Nat.not_lt.mpr read)

end HostPattern.Decimal
