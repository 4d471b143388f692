import HostPattern.Text.Blank
import Mathlib.Data.List.DropRight

/-!
# Texts without the blanks at their ends

What trimming keeps is told from all other parts of a text by the ends: only blanks stand
before and behind it, and it neither begins nor ends with one.
-/

namespace HostPattern.Text

def Trimmed (text : List Char) : Prop :=
  (∀ c, text.head? = some c → isBlank c = false) ∧
    ∀ c, text.getLast? = some c → isBlank c = false

/-- The text without the blanks at its ends. -/
def IsTrimOf (kept text : List Char) : Prop :=
  Trimmed kept ∧ ∃ front back, text = front ++ kept ++ back ∧
    (∀ c ∈ front, isBlank c = true) ∧ ∀ c ∈ back, isBlank c = true

variable {text kept : List Char}

theorem trimChars_eq_rdropWhile (text : List Char) :
    trimChars text = (text.dropWhile isBlank).rdropWhile isBlank :=
  rfl

theorem dropWhile_eq_self_of_trimmed (trimmed : Trimmed kept) : kept.dropWhile isBlank = kept := by
  cases kept with
  | nil => rfl
  | cons c chars =>
    have first := trimmed.1 c rfl
    exact List.dropWhile_cons_of_neg (by simp [first])

theorem rdropWhile_eq_self_of_trimmed (trimmed : Trimmed kept) :
    kept.rdropWhile isBlank = kept := by
  apply List.rdropWhile_eq_self_iff.mpr
  intro nonempty
  have last := trimmed.2 _ (List.getLast?_eq_some_getLast nonempty)
  simp [last]

theorem trimChars_of_trimmed (trimmed : Trimmed kept) : trimChars kept = kept := by
  rw [trimChars_eq_rdropWhile, dropWhile_eq_self_of_trimmed trimmed,
    rdropWhile_eq_self_of_trimmed trimmed]

theorem isTrimOf_trimChars (text : List Char) : IsTrimOf (trimChars text) text := by
  rw [trimChars_eq_rdropWhile]
  refine ⟨⟨?_, ?_⟩, text.takeWhile isBlank, (text.dropWhile isBlank).rtakeWhile isBlank, ?_, ?_, ?_⟩
  · intro c first
    obtain ⟨back, split⟩ := List.rdropWhile_prefix isBlank (text.dropWhile isBlank)
    have here := List.head?_dropWhile_not isBlank text
    rw [← split, List.head?_append, first] at here
    simpa using here
  · intro c last
    have nonempty : (text.dropWhile isBlank).rdropWhile isBlank ≠ [] := by
      intro empty
      rw [empty] at last
      cases last
    rw [List.getLast?_eq_some_getLast nonempty] at last
    cases last
    simpa using List.rdropWhile_last_not isBlank _ nonempty
  · rw [List.append_assoc, List.rdropWhile_append_rtakeWhile, List.takeWhile_append_dropWhile]
  · intro c member
    exact List.mem_takeWhile_imp member
  · intro c member
    exact List.mem_rtakeWhile_imp member

theorem rdropWhile_append_blanks {back : List Char} (blanks : ∀ c ∈ back, isBlank c = true) :
    (text ++ back).rdropWhile isBlank = text.rdropWhile isBlank := by
  have reversed : ∀ c ∈ back.reverse, isBlank c = true := by
    intro c member
    exact blanks c (List.mem_reverse.mp member)
  rw [List.rdropWhile, List.reverse_append, List.dropWhile_append_of_pos reversed, List.rdropWhile]

/-- Trimming keeps what stands between the blanks at the ends, and there is no other choice. -/
theorem trimChars_eq_iff : trimChars text = kept ↔ IsTrimOf kept text := by
  constructor
  · rintro rfl
    exact isTrimOf_trimChars text
  · rintro ⟨trimmed, front, back, rfl, frontBlanks, backBlanks⟩
    cases kept with
    | nil =>
      apply trimChars_eq_nil_iff.mpr
      intro c member
      rw [List.append_nil] at member
      exact (List.mem_append.mp member).elim (frontBlanks c) (backBlanks c)
    | cons c chars =>
      have first : ¬ isBlank c = true := by simp [trimmed.1 c rfl]
      rw [trimChars_eq_rdropWhile, List.append_assoc, List.dropWhile_append_of_pos frontBlanks,
        List.cons_append, List.dropWhile_cons_of_neg first, ← List.cons_append,
        rdropWhile_append_blanks backBlanks, rdropWhile_eq_self_of_trimmed trimmed]

theorem IsTrimOf.ne_nil_iff (trim : IsTrimOf kept text) :
    kept ≠ [] ↔ ∃ c ∈ text, isBlank c = false := by
  rw [← trimChars_eq_iff.mpr trim, ne_eq, trimChars_eq_nil_iff]
  simp

theorem nonBlank?_eq_some_iff {raw name : String} :
    nonBlank? raw = some name ↔ name ≠ "" ∧ IsTrimOf name.toList raw.toList := by
  rw [← trimChars_eq_iff, nonBlank?]
  split
  · rename_i empty
    rw [empty]
    constructor
    · intro kept
      cases kept
    · rintro ⟨filled, same⟩
      exact absurd (String.toList_eq_nil_iff.mp same.symm) filled
  · rename_i c chars kept
    rw [kept]
    constructor
    · intro same
      cases same
      simp
    · rintro ⟨_, same⟩
      simp [same]

end HostPattern.Text
