import HostPattern.Decimal
import Mathlib

/-!
# Padded numbers

`padded` writes each number, and `eq_padded_iff` tells its texts from all others:
there are only digits, at least as many as the width, and where there are more the
first is no zero.
-/

namespace HostPattern.Decimal

theorem toNat_bounds_of_isDigit {c : Char} (digit : c.isDigit = true) :
    48 ≤ c.toNat ∧ c.toNat ≤ 57 :=
  Char.isDigit_iff_toNat.mp digit

theorem digitChar_toNat_sub {c : Char} (digit : c.isDigit = true) :
    (c.toNat - 48).digitChar = c := by
  have bounds := toNat_bounds_of_isDigit digit
  apply Char.toNat_inj.mp
  rw [Nat.toNat_digitChar_of_lt_ten (by omega)]
  omega

@[simp] theorem value_nil : value [] = 0 :=
  Nat.ofDigitChars_nil

theorem value_append (front back : List Char) :
    value (front ++ back) = 10 ^ back.length * value front + value back := by
  rw [value, Nat.ofDigitChars_append, Nat.ofDigitChars_eq_ofDigitChars_zero]
  rfl

theorem value_singleton (c : Char) : value [c] = c.toNat - 48 := by
  simp [value, Nat.ofDigitChars_cons]

theorem value_concat (digits : List Char) (c : Char) :
    value (digits ++ [c]) = 10 * value digits + (c.toNat - 48) := by
  simp [value_append, value_singleton]

@[simp] theorem value_replicate_zero (count : Nat) : value (List.replicate count '0') = 0 := by
  simp [value]

theorem value_toDigits (n : Nat) : value (Nat.toDigits 10 n) = n :=
  Nat.ofDigitChars_ten_toDigits

theorem value_lt {digits : List Char} (all : ∀ c ∈ digits, c.isDigit = true) :
    value digits < 10 ^ digits.length := by
  induction digits using List.reverseRecOn with
  | nil => simp
  | append_singleton digits c inductionHypothesis =>
    have smaller := inductionHypothesis fun d member => all d (List.mem_append_left _ member)
    have bounds := toNat_bounds_of_isDigit (all c (by simp))
    rw [value_concat, List.length_append, List.length_singleton, Nat.pow_succ]
    omega

/-- Digits are the plain writing of their value behind some zeros. -/
theorem exists_zeros_append_toDigits {digits : List Char} (nonempty : digits ≠ [])
    (all : ∀ c ∈ digits, c.isDigit = true) :
    ∃ zeros, digits = List.replicate zeros '0' ++ Nat.toDigits 10 (value digits) := by
  induction digits using List.reverseRecOn with
  | nil => exact absurd rfl nonempty
  | append_singleton digits c inductionHypothesis =>
    have digit : c.isDigit = true := all c (by simp)
    have bounds := toNat_bounds_of_isDigit digit
    have single : Nat.toDigits 10 (c.toNat - 48) = [c] := by
      rw [Nat.toDigits_of_lt_base (by omega), digitChar_toNat_sub digit]
    by_cases empty : digits = []
    · subst empty
      exact ⟨0, by simp [value_singleton, single]⟩
    · obtain ⟨zeros, split⟩ :=
        inductionHypothesis empty fun d member => all d (List.mem_append_left _ member)
      rw [value_concat]
      -- Where all digits before the last are zeros, the plain writing drops one more of them.
      rcases Nat.eq_zero_or_pos (value digits) with zero | positive
      · refine ⟨zeros + 1, ?_⟩
        rw [zero, Nat.mul_zero, Nat.zero_add, single]
        rw [zero, Nat.toDigits_zero] at split
        rw [split, List.replicate_succ']
      · refine ⟨zeros, ?_⟩
        rw [← Nat.toDigits_append_toDigits (by omega) positive (by omega), single,
          ← List.append_assoc, ← split]

theorem padded_eq_append (width n : Nat) :
    padded width n =
      List.replicate (width - (Nat.toDigits 10 n).length) '0' ++ Nat.toDigits 10 n :=
  rfl

@[simp] theorem value_padded (width n : Nat) : value (padded width n) = n := by
  rw [padded_eq_append, value_append, value_replicate_zero, value_toDigits]
  simp

theorem isDigit_of_mem_padded {width n : Nat} {c : Char} (member : c ∈ padded width n) :
    c.isDigit = true := by
  rw [padded_eq_append, List.mem_append] at member
  rcases member with zero | digit
  · rw [List.eq_of_mem_replicate zero]
    rfl
  · exact Nat.isDigit_of_mem_toDigits (by decide) (by decide) digit

theorem length_padded (width n : Nat) :
    (padded width n).length = max width (Nat.toDigits 10 n).length :=
  List.length_leftpad

theorem padded_ne_nil (width n : Nat) : padded width n ≠ [] := by
  simp [padded_eq_append]

theorem length_padded_of_lt {width n : Nat} (positive : 0 < width) (small : n < 10 ^ width) :
    (padded width n).length = width := by
  rw [length_padded]
  have short := (Nat.length_toDigits_le_iff (by decide) positive).mpr small
  omega

theorem head?_toDigits_ne_zero {n : Nat} (several : 1 < (Nat.toDigits 10 n).length) :
    (Nat.toDigits 10 n).head? ≠ some '0' := by
  intro zero
  obtain ⟨tail, split⟩ := List.head?_eq_some_iff.mp zero
  -- Without the zero, one digit fewer would write the same number.
  have digits : ∀ c ∈ tail, c.isDigit = true := fun c member =>
    Nat.isDigit_of_mem_toDigits (by decide) (by decide) (split ▸ List.mem_cons_of_mem _ member)
  have same : value tail = n := by
    have whole := value_toDigits n
    rw [split, ← List.singleton_append, value_append] at whole
    simpa [value_singleton] using whole
  have bound := value_lt digits
  rw [split, List.length_cons] at several
  rw [same, ← Nat.length_toDigits_le_iff (by decide) (by omega), split, List.length_cons] at bound
  omega

/-- The digits of a number in a field: they fill it, and a zero begins them only
where it fills the field or is all there is. -/
theorem eq_padded_iff {width n : Nat} {digits : List Char} :
    digits = padded width n ↔
      digits ≠ [] ∧ width ≤ digits.length ∧ (∀ c ∈ digits, c.isDigit = true) ∧
      ¬ (width < digits.length ∧ 1 < digits.length ∧ digits.head? = some '0') ∧
      value digits = n := by
  constructor
  · rintro rfl
    refine ⟨padded_ne_nil _ _, ?_, fun c => isDigit_of_mem_padded, ?_, value_padded _ _⟩
    · rw [length_padded]
      exact Nat.le_max_left _ _
    · intro leads
      rcases leads with ⟨wide, several, zero⟩
      rw [length_padded] at wide several
      rw [padded_eq_append, show width - (Nat.toDigits 10 n).length = 0 by omega] at zero
      exact head?_toDigits_ne_zero (by omega) zero
  · intro conditions
    rcases conditions with ⟨nonempty, wide, all, lead, rfl⟩
    obtain ⟨zeros, split⟩ := exists_zeros_append_toDigits nonempty all
    have size : digits.length = zeros + (Nat.toDigits 10 (value digits)).length := by
      conv => lhs; rw [split]
      simp
    have some_digit : 0 < (Nat.toDigits 10 (value digits)).length := Nat.length_toDigits_pos
    suffices filled : width - (Nat.toDigits 10 (value digits)).length = zeros by
      rw [padded_eq_append, filled]
      exact split
    rcases Nat.eq_or_lt_of_le wide with exact_width | wider
    · omega
    · cases zeros with
      | zero => omega
      | succ zeros =>
        refine absurd ⟨wider, by omega, ?_⟩ lead
        rw [split]
        rfl

theorem padded_value {digits : List Char} (nonempty : digits ≠ [])
    (all : ∀ c ∈ digits, c.isDigit = true) : padded digits.length (value digits) = digits := by
  apply Eq.symm
  apply eq_padded_iff.mpr
  exact ⟨nonempty, Nat.le_refl _, all, fun leads => Nat.lt_irrefl _ leads.1, rfl⟩

/-- Digits in front of a number that fills its field make a number that fills a wider one. -/
theorem append_padded {digits : List Char} {width n : Nat}
    (all : ∀ c ∈ digits, c.isDigit = true) (positive : 0 < width) (small : n < 10 ^ width) :
    digits ++ padded width n = padded (digits.length + width) (10 ^ width * value digits + n) := by
  have size : (digits ++ padded width n).length = digits.length + width := by
    rw [List.length_append, length_padded_of_lt positive small]
  apply eq_padded_iff.mpr
  refine ⟨?_, size.ge, ?_, ?_, ?_⟩
  · simp [padded_ne_nil]
  · intro c member
    rcases List.mem_append.mp member with front | number
    · exact all c front
    · exact isDigit_of_mem_padded number
  · rw [size]
    exact fun leads => absurd leads.1 (Nat.lt_irrefl _)
  · rw [value_append, value_padded, length_padded_of_lt positive small]

end HostPattern.Decimal
