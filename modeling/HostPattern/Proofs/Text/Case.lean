import HostPattern.Text.Ascii
import Mathlib

/-!
# Letters, digits and case

Folding turns letters into letters and leaves all other characters alone.  So texts that
are equal up to case have their digits and marks at the same places.
-/

namespace HostPattern.Text

section Characters

variable {c d : Char}

theorem toLower_of_not_isAlpha (other : c.isAlpha = false) : c.toLower = c := by
  apply Char.toLower_eq_of_not_isUpper
  intro upper
  rw [Char.isAlpha, upper, Bool.true_or] at other
  cases other

theorem eq_of_toLower_eq (other : c.isAlpha = false) (same : d.toLower = c.toLower) : d = c := by
  have plain : d.isAlpha = false := by
    rw [← Char.isAlpha_toLower_eq_isAlpha, same, Char.isAlpha_toLower_eq_isAlpha, other]
  rw [← toLower_of_not_isAlpha plain, same, toLower_of_not_isAlpha other]

theorem not_isDigit_of_isAlpha (letter : c.isAlpha = true) : c.isDigit = false := by
  simp only [Char.isAlpha, Char.isUpper, Char.isLower, Char.isDigit, ge_iff_le,
    UInt32.le_iff_toNat_le] at letter ⊢
  simp at letter ⊢
  omega

theorem not_isAlpha_of_isDigit (digit : c.isDigit = true) : c.isAlpha = false := by
  cases letter : c.isAlpha with
  | false => rfl
  | true =>
    rw [not_isDigit_of_isAlpha letter] at digit
    cases digit

theorem isAlphanum_of_isDigit (digit : c.isDigit = true) : c.isAlphanum = true := by
  rw [Char.isAlphanum, digit, Bool.or_true]

theorem isAlphanum_of_isAlpha (letter : c.isAlpha = true) : c.isAlphanum = true := by
  rw [Char.isAlphanum, letter, Bool.true_or]

@[simp] theorem isDigit_toLower (c : Char) : c.toLower.isDigit = c.isDigit := by
  cases letter : c.isAlpha with
  | false => rw [toLower_of_not_isAlpha letter]
  | true =>
    rw [not_isDigit_of_isAlpha letter]
    apply not_isDigit_of_isAlpha
    rw [Char.isAlpha_toLower_eq_isAlpha, letter]

@[simp] theorem isAlphanum_toLower (c : Char) : c.toLower.isAlphanum = c.isAlphanum := by
  rw [Char.isAlphanum, Char.isAlphanum, isDigit_toLower, Char.isAlpha_toLower_eq_isAlpha]

end Characters

section Texts

variable {text other : List Char}

theorem fold_eq_self (plain : ∀ c ∈ text, c.isAlpha = false) : fold text = text := by
  rw [fold]
  conv => rhs; rw [← List.map_id text]
  exact List.map_congr_left fun c member => toLower_of_not_isAlpha (plain c member)

theorem fold_digits (digits : ∀ c ∈ text, c.isDigit = true) : fold text = text :=
  fold_eq_self fun c member => not_isAlpha_of_isDigit (digits c member)

theorem eq_of_fold_eq (plain : ∀ c ∈ text, c.isAlpha = false) (same : fold other = fold text) :
    other = text := by
  induction text generalizing other with
  | nil => exact List.map_eq_nil_iff.mp same
  | cons c text inductionHypothesis =>
    obtain ⟨first, rest⟩ := List.forall_mem_cons.mp plain
    cases other with
    | nil => cases same
    | cons d other =>
      rw [fold_cons, fold_cons, List.cons.injEq] at same
      rw [eq_of_toLower_eq first same.1, inductionHypothesis rest same.2]

theorem forall_mem_fold {property : Char → Bool}
    (keeps : ∀ c : Char, property c.toLower = property c) :
    (∀ c ∈ fold text, property c = true) ↔ ∀ c ∈ text, property c = true := by
  rw [fold, List.forall_mem_map]
  simp only [keeps]

theorem forall_mem_of_fold_eq {property : Char → Bool}
    (keeps : ∀ c : Char, property c.toLower = property c) (same : fold text = fold other) :
    (∀ c ∈ text, property c = true) ↔ ∀ c ∈ other, property c = true := by
  rw [← forall_mem_fold keeps, same, forall_mem_fold keeps]

theorem mem_of_fold_eq {c : Char} (plain : c.isAlpha = false) (same : fold text = fold other) :
    c ∈ text ↔ c ∈ other := by
  have inside (chars : List Char) : c ∈ fold chars ↔ c ∈ chars := by
    rw [fold, List.mem_map]
    constructor
    · intro found
      rcases found with ⟨d, member, lowered⟩
      rw [← eq_of_toLower_eq plain (lowered.trans (toLower_of_not_isAlpha plain).symm)]
      exact member
    · intro member
      exact ⟨c, member, toLower_of_not_isAlpha plain⟩
  rw [← inside text, same, inside other]

/-- Two texts that begin with characters of a class are cut at the same place if the class
ends there in both. -/
theorem append_cons_inj (keep : Char → Bool) {front back rest more : List Char} {c d : Char}
    (frontAll : ∀ x ∈ front, keep x = true) (backAll : ∀ x ∈ back, keep x = true)
    (stop : keep c = false) (otherStop : keep d = false)
    (same : front ++ c :: rest = back ++ d :: more) : front = back ∧ c :: rest = d :: more := by
  have taken := congrArg (List.takeWhile keep) same
  rw [List.takeWhile_append_of_pos frontAll, List.takeWhile_append_of_pos backAll,
    List.takeWhile_cons_of_neg (by simp [stop]), List.takeWhile_cons_of_neg (by simp [otherStop]),
    List.append_nil, List.append_nil] at taken
  subst taken
  exact ⟨rfl, List.append_cancel_left same⟩

end Texts

end HostPattern.Text
