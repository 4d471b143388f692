import HostPattern.Json
import HostPattern.Proofs.Decimal.Padding

/-!
# The characters of JSON texts

A JSON text has line feeds between its parts and no other control character, whatever texts
it holds.
-/

namespace HostPattern.Json

/-- A line feed, or no control character below the blank. -/
def IsWritten (c : Char) : Prop :=
  c = '\n' ∨ 0x20 ≤ c.toNat

instance (c : Char) : Decidable (IsWritten c) :=
  inferInstanceAs (Decidable (c = '\n' ∨ 0x20 ≤ c.toNat))

theorem isWritten_digitChar {n : Nat} (small : n < 16) : IsWritten n.digitChar := by
  revert n
  decide

theorem isWritten_of_mem_escapeChar (c : Char) : ∀ d ∈ escapeChar c, IsWritten d := by
  unfold escapeChar
  split_ifs with quote slash back feed line carriage tab control
  rotate_left 7
  · have low := isWritten_digitChar (n := c.toNat % 16) (by omega)
    have high := isWritten_digitChar (n := c.toNat / 16) (by omega)
    have marks : IsWritten '\\' ∧ IsWritten 'u' ∧ IsWritten '0' := by decide
    simp [low, high, marks]
  · rw [List.forall_mem_singleton]
    exact .inr (by omega)
  all_goals simp [IsWritten]

theorem isWritten_of_mem_quote (text : String) : ∀ c ∈ quote text, IsWritten c := by
  have mark : IsWritten '"' := by decide
  simp only [quote, List.cons_append, List.forall_mem_cons, List.forall_mem_append,
    List.forall_mem_flatMap, mark, true_and]
  refine ⟨fun c _ => isWritten_of_mem_escapeChar c, by simp⟩

theorem isWritten_of_mem_newLine (level : Nat) : ∀ c ∈ newLine level, IsWritten c := by
  simp only [newLine, List.forall_mem_cons]
  refine ⟨by decide, ?_⟩
  intro c member
  rw [List.eq_of_mem_replicate member]
  decide

theorem isWritten_of_mem_writeInt (n : Int) : ∀ c ∈ writeInt n, IsWritten c := by
  have digits : ∀ c ∈ Nat.toDigits 10 n.natAbs, IsWritten c := by
    intro c member
    have bounds := Decimal.toNat_bounds_of_isDigit
      (Nat.isDigit_of_mem_toDigits (by decide) (by decide) member)
    exact .inr (by omega)
  unfold writeInt
  split_ifs
  · exact List.forall_mem_cons.mpr ⟨by decide, digits⟩
  · exact digits

mutual

theorem isWritten_of_mem_write : (value : Json) → (level : Nat) →
    ∀ c ∈ write level value, IsWritten c
  | .null, _ => by simp [write, IsWritten]
  | .bool true, _ => by simp [write, IsWritten]
  | .bool false, _ => by simp [write, IsWritten]
  | .int n, _ => isWritten_of_mem_writeInt n
  | .str text, _ => isWritten_of_mem_quote text
  | .arr [], _ => by simp [write, IsWritten]
  | .arr (item :: items), level => by
    simp only [write, List.cons_append, List.forall_mem_cons, List.forall_mem_append]
    exact ⟨by decide, ⟨⟨⟨isWritten_of_mem_newLine _, isWritten_of_mem_write item _⟩,
      isWritten_of_mem_writeItems items _⟩, isWritten_of_mem_newLine _⟩, by simp [IsWritten]⟩
  | .obj [], _ => by simp [write, IsWritten]
  | .obj ((key, value) :: members), level => by
    simp only [write, List.cons_append, List.forall_mem_cons, List.forall_mem_append]
    exact ⟨by decide,
      ⟨⟨⟨⟨⟨isWritten_of_mem_newLine _, isWritten_of_mem_quote key⟩, by simp [IsWritten]⟩,
      isWritten_of_mem_write value _⟩, isWritten_of_mem_writeMembers members _⟩,
      isWritten_of_mem_newLine _⟩, by simp [IsWritten]⟩

theorem isWritten_of_mem_writeItems : (items : List Json) → (level : Nat) →
    ∀ c ∈ writeItems level items, IsWritten c
  | [], _ => by simp [writeItems]
  | item :: items, level => by
    simp only [writeItems, List.cons_append, List.forall_mem_cons, List.forall_mem_append]
    exact ⟨by decide, ⟨isWritten_of_mem_newLine _, isWritten_of_mem_write item _⟩,
      isWritten_of_mem_writeItems items _⟩

theorem isWritten_of_mem_writeMembers : (members : List (String × Json)) → (level : Nat) →
    ∀ c ∈ writeMembers level members, IsWritten c
  | [], _ => by simp [writeMembers]
  | (key, value) :: members, level => by
    simp only [writeMembers, List.cons_append, List.forall_mem_cons, List.forall_mem_append]
    exact ⟨by decide,
      ⟨⟨⟨isWritten_of_mem_newLine _, isWritten_of_mem_quote key⟩, by simp [IsWritten]⟩,
      isWritten_of_mem_write value _⟩, isWritten_of_mem_writeMembers members _⟩

end

theorem isWritten_of_mem_pretty (value : Json) : ∀ c ∈ value.pretty.toList, IsWritten c := by
  rw [pretty, String.toList_ofList]
  exact isWritten_of_mem_write value.sorted 0

theorem escape_not_mem_pretty (value : Json) : '\x1b' ∉ value.pretty.toList := by
  intro inside
  rcases isWritten_of_mem_pretty value _ inside with line | printable
  · cases line
  · exact absurd printable (by decide)

end HostPattern.Json
