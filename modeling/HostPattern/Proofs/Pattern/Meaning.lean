import HostPattern.Proofs.Pattern.Reading
import HostPattern.Proofs.SerialRange.Members
import HostPattern.Proofs.Wildcard.Search

/-!
# What a text means as a pattern

A text means the names of the range or wildcard that it is read as; a text that is read as
neither means none.  Compiled patterns accept exactly what their texts mean.
-/

namespace HostPattern.Pattern

open Text

theorem accepts_eq_true_iff_matches {pattern : Pattern} {name : String} :
    pattern.accepts name = true ↔ pattern.Matches name := by
  cases pattern with
  | unavailable => exact Bool.false_eq_true.to_iff
  | serial range => exact SerialRange.accepts_eq_true_iff_matches
  | wild wildcard => exact Wildcard.accepts_eq_true_iff_matches

/-- The text is read as a pattern, and the name is one that the pattern stands for. -/
def Means (raw name : String) : Prop :=
  ∃ pattern, Reading raw (.ok pattern) ∧ pattern.Matches name

theorem accepts_compile_eq_true_iff_means {raw name : String} :
    (compile raw).accepts name = true ↔ Means raw name := by
  rw [accepts_eq_true_iff_matches]
  constructor
  · intro named
    cases found : compile raw with
    | unavailable =>
      rw [found] at named
      exact named.elim
    | serial range =>
      have read := parse_of_compile found (by simp)
      exact ⟨_, parse_eq_iff.mp read, found ▸ named⟩
    | wild wildcard =>
      have read := parse_of_compile found (by simp)
      exact ⟨_, parse_eq_iff.mp read, found ▸ named⟩
  · intro means
    rcases means with ⟨pattern, reading, named⟩
    have compiled : compile raw = pattern := compile_eq_iff.mpr (.inl reading)
    rw [compiled]
    exact named

instance (raw name : String) : Decidable (Means raw name) :=
  decidable_of_iff _ accepts_compile_eq_true_iff_means

theorem Reading.ascii {raw : String} {pattern : Pattern} (reading : Reading raw (.ok pattern)) :
    ∀ c ∈ raw.toList, c.isAlphanum = true ∨ c = '~' ∨ c = '-' ∨ c = '%' := by
  intro c member
  cases reading with
  | serial wellFormed written _ =>
    obtain ⟨_, leftAll, _, digitsAll, lettersAll⟩ := wellFormed
    rw [written, SerialRange.Parts.write] at member
    rcases List.mem_append.mp member with left | rest
    · exact .inl (leftAll c left)
    · rcases List.mem_cons.mp rest with separates | ends
      · exact .inr (.inl separates)
      · rcases List.mem_append.mp ends with digit | letter
        · exact .inl (isAlphanum_of_isDigit (digitsAll c digit))
        · exact .inl (isAlphanum_of_isAlpha (lettersAll c letter))
  | wild isText _ _ =>
    rcases isText.1 c member with alphanum | hyphen | marks
    · exact .inl alphanum
    · exact .inr (.inr (.inl hyphen))
    · exact .inr (.inr (.inr marks))

end HostPattern.Pattern
