import HostPattern.Proofs.SerialRange.Alignment
import HostPattern.Proofs.SerialRange.Members
import Mathlib.Data.Set.Card

/-!
# How many names a range has

The number of a name can be read off the name, so each number of a range gives a name of its
own.  `size` counts them, up to the largest word.
-/

namespace HostPattern.SerialRange

open Text

/-- The names that the range accepts, those that differ in case only being one. -/
def accepted (range : SerialRange) : Set (List Char) :=
  {folded | ∃ name : String, range.accepts name = true ∧ fold name.toList = folded}

section Numbers

variable {range : SerialRange} {m n : Nat}

theorem eq_of_fold_nameAt_eq
    (same : fold (range.nameAt m).toList = fold (range.nameAt n).toList) : m = n := by
  rw [fold_toList_nameAt, fold_toList_nameAt] at same
  have numbers : Decimal.padded range.width m = Decimal.padded range.width n :=
    List.append_cancel_right (List.append_cancel_left same)
  calc
    m = Decimal.value (Decimal.padded range.width m) := (Decimal.value_padded _ _).symm
    _ = Decimal.value (Decimal.padded range.width n) := congrArg Decimal.value numbers
    _ = n := Decimal.value_padded _ _

theorem accepts_nameAt_iff :
    range.accepts (range.nameAt n) = true ↔ range.first.toNat ≤ n ∧ n ≤ range.last.toNat := by
  rw [accepts_eq_true_iff_matches]
  constructor
  · rintro ⟨number, low, high, same⟩
    obtain rfl : n = number := eq_of_fold_nameAt_eq same
    exact ⟨low, high⟩
  · rintro ⟨low, high⟩
    exact matches_nameAt low high

end Numbers

theorem accepted_eq_image (range : SerialRange) :
    range.accepted =
      (fun n => fold (range.nameAt n).toList) '' Set.Icc range.first.toNat range.last.toNat := by
  ext folded
  constructor
  · rintro ⟨name, accepts, rfl⟩
    obtain ⟨n, low, high, same⟩ := accepts_eq_true_iff_matches.mp accepts
    exact ⟨n, ⟨low, high⟩, same.symm⟩
  · rintro ⟨n, ⟨low, high⟩, rfl⟩
    exact ⟨range.nameAt n, accepts_nameAt_iff.mpr ⟨low, high⟩, rfl⟩

theorem encard_accepted (range : SerialRange) :
    range.accepted.encard = (range.last.toNat + 1 - range.first.toNat : Nat) := by
  have injective : Function.Injective fun n => fold (range.nameAt n).toList :=
    fun _ _ same => eq_of_fold_nameAt_eq same
  rw [accepted_eq_image, injective.encard_image, ← Finset.coe_Icc,
    Set.encard_coe_eq_coe_finsetCard, Nat.card_Icc]

theorem isEmpty_iff_last_lt_first {range : SerialRange} :
    range.isEmpty = true ↔ range.last.toNat < range.first.toNat := by
  rw [isEmpty, decide_eq_true_eq, UInt64.lt_iff_toNat_lt]

theorem isEmpty_iff_forall_not_accepts {range : SerialRange} :
    range.isEmpty = true ↔ ∀ name, range.accepts name = false := by
  rw [isEmpty_iff_last_lt_first]
  constructor
  · intro inverted name
    rw [← Bool.not_eq_true, accepts_eq_true_iff_matches]
    rintro ⟨n, low, high, _⟩
    omega
  · intro none
    by_contra filled
    have first : range.accepts (range.nameAt range.first.toNat) = true :=
      accepts_nameAt_iff.mpr ⟨Nat.le_refl _, Nat.le_of_not_lt filled⟩
    rw [none] at first
    cases first

/-- A range accepts the name of a number exactly if the number is one of its own, and no two
numbers have the same name, in any case.  So it accepts as many names as it has numbers; its
size is how many these are, and it is empty if it accepts nothing. -/
theorem size_counts_accepted (range : SerialRange) :
    (∀ n : UInt64, range.accepts (range.nameAt n.toNat) = true ↔
      range.first ≤ n ∧ n ≤ range.last) ∧
    (∀ m n : Nat, m ≠ n → fold (range.nameAt m).toList ≠ fold (range.nameAt n).toList) ∧
    range.accepted.encard =
      (if range.first ≤ range.last then range.last.toNat - range.first.toNat + 1 else 0 : Nat) ∧
    (range.size : ℕ∞) = min range.accepted.encard (2 ^ 64 - 1 : Nat) ∧
    (range.isEmpty = true ↔ ∀ name, range.accepts name = false) := by
  refine ⟨?_, ?_, ?_, ?_, isEmpty_iff_forall_not_accepts⟩
  · intro n
    rw [accepts_nameAt_iff, UInt64.le_iff_toNat_le, UInt64.le_iff_toNat_le]
  · intro m n different same
    exact different (eq_of_fold_nameAt_eq same)
  · simp only [encard_accepted, UInt64.le_iff_toNat_le]
    congr 1
    split_ifs <;> omega
  · rw [encard_accepted, size]
    exact Nat.mono_cast.map_min

/-- The width is no bound on the numbers. -/
example : (SerialRange.mk "Rack1" "a" 2 98 101).size = 4 := by decide

end HostPattern.SerialRange
