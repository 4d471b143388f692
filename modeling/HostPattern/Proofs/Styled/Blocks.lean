import HostPattern.Proofs.Styled.Sequences

/-!
# Blocks in colour

A block in colour holds what it holds without, and the sequences of its styles and resets.
`Stands` tells each sequence from the segment that it is written for.
-/

namespace HostPattern

open Styled

theorem Style.isNumber_code (style : Style) : IsNumber style.code.toList := by
  cases style <;> exact ⟨by simp [code], by simp [code]⟩

theorem Style.value_code_ne_zero (style : Style) :
    Decimal.value style.code.toList ≠ 0 := by
  cases style <;> decide

namespace Segment

theorem toList_escape (code : String) : (escape code).toList = sequenceOf code.toList := by
  rw [escape, String.toList_append, String.toList_append]
  rfl

theorem render_false (segment : Segment) : segment.render false = segment.content := by
  cases segment <;> rfl

theorem toList_render_style (kind : Style) :
    ((style kind).render true).toList = resetSequence ++ sequenceOf kind.code.toList := by
  rw [render, if_pos rfl, String.toList_append, toList_escape, toList_escape]
  rfl

theorem toList_render_reset : (reset.render true).toList = resetSequence := by
  rw [render, if_pos rfl, toList_escape]
  rfl

end Segment

namespace Block

/-- What the segments show has no escape character in it. -/
def Clean (block : Block) : Prop :=
  ∀ segment ∈ block, '\x1b' ∉ segment.content.toList

def letters (block : Block) : List Char :=
  (block.render true).toList

/-- The attributes that are set after the block, where `set` are set before it. -/
def leftSet (set : List Nat) : Block → List Nat
  | [] => set
  | .text _ :: block => leftSet set block
  | .json _ :: block => leftSet set block
  | .style kind :: block => leftSet [Decimal.value kind.code.toList] block
  | .reset :: block => leftSet [] block

theorem letters_nil : letters [] = [] := by
  simp [letters, render]

theorem letters_cons (segment : Segment) (block : Block) :
    letters (segment :: block) = (segment.render true).toList ++ letters block := by
  rw [letters, render, List.map_cons, String.join_cons, String.toList_append, letters, render]

theorem toList_render_false (block : Block) :
    (block.render false).toList = block.flatMap (·.content.toList) := by
  rw [render, String.toList_join, List.flatMap_map]
  simp only [Segment.render_false]

theorem escape_not_mem_render_false {block : Block} (clean : block.Clean) :
    '\x1b' ∉ (block.render false).toList := by
  rw [toList_render_false, List.mem_flatMap]
  rintro ⟨segment, member, inside⟩
  exact clean segment member inside

/-- Without its sequences the block is the same as in no colour. -/
theorem plain_letters {block : Block} (clean : block.Clean) :
    plain block.letters = (block.render false).toList := by
  rw [toList_render_false]
  induction block with
  | nil => rw [letters_nil, plain, List.flatMap_nil]
  | cons segment block inductionHypothesis =>
    obtain ⟨first, others⟩ := List.forall_mem_cons.mp clean
    rw [letters_cons, List.flatMap_cons, ← inductionHypothesis others]
    cases segment with
    | text content => exact plain_append first _
    | json value => exact plain_append first _
    | style kind =>
      rw [Segment.toList_render_style, List.append_assoc, resetSequence,
        plain_sequence_append isNumber_zero, plain_sequence_append kind.isNumber_code]
      rfl
    | reset =>
      rw [Segment.toList_render_reset, resetSequence, plain_sequence_append isNumber_zero]
      rfl

/-- What a terminal is left with is what the segments say. -/
theorem leftSet_letters_append {block : Block} (clean : block.Clean) (set : List Nat)
    (rest : List Char) :
    Styled.leftSet set (block.letters ++ rest) = Styled.leftSet (block.leftSet set) rest := by
  induction block generalizing set with
  | nil => rw [letters_nil, List.nil_append, leftSet]
  | cons segment block inductionHypothesis =>
    obtain ⟨first, others⟩ := List.forall_mem_cons.mp clean
    rw [letters_cons, List.append_assoc]
    cases segment with
    | text content => exact (leftSet_append first set _).trans (inductionHypothesis others set)
    | json value => exact (leftSet_append first set _).trans (inductionHypothesis others set)
    | style kind =>
      rw [Segment.toList_render_style, List.append_assoc, resetSequence,
        leftSet_sequence_append isNumber_zero, leftSet_sequence_append kind.isNumber_code,
        inductionHypothesis others, switch, switch, if_neg kind.value_code_ne_zero]
      rfl
    | reset =>
      rw [Segment.toList_render_reset, resetSequence, leftSet_sequence_append isNumber_zero,
        inductionHypothesis others]
      rfl

/-- A sequence in a block, with the letters before and after it: that of a reset, or one of the
two that are written for a style. -/
inductive Stands : Block → List Char → List Char → List Char → Prop
  | reset (front back : Block) :
      Stands (front ++ .reset :: back) front.letters ['0'] back.letters
  | beforeStyle (front back : Block) (kind : Style) :
      Stands (front ++ .style kind :: back) front.letters ['0']
        (sequenceOf kind.code.toList ++ back.letters)
  | style (front back : Block) (kind : Style) :
      Stands (front ++ .style kind :: back) (front.letters ++ resetSequence) kind.code.toList
        back.letters

section Sequences

variable {block : Block} {before digits after : List Char}

theorem Stands.cons (stands : Stands block before digits after) (segment : Segment) :
    Stands (segment :: block) ((segment.render true).toList ++ before) digits after := by
  cases stands with
  | reset front back =>
    rw [← letters_cons]
    exact .reset (segment :: front) back
  | beforeStyle front back kind =>
    rw [← letters_cons]
    exact .beforeStyle (segment :: front) back kind
  | style front back kind =>
    rw [← List.append_assoc, ← letters_cons]
    exact .style (segment :: front) back kind

/-- There are no sequences but those of the segments. -/
theorem stands_of_letters_eq (clean : block.Clean) (number : IsNumber digits)
    (same : block.letters = before ++ (sequenceOf digits ++ after)) :
    Stands block before digits after := by
  induction block generalizing before with
  | nil =>
    rw [letters_nil] at same
    simp [sequenceOf] at same
  | cons segment block inductionHypothesis =>
    obtain ⟨first, others⟩ := List.forall_mem_cons.mp clean
    have content (plain : (segment.render true).toList = segment.content.toList) :
        Stands (segment :: block) before digits after := by
      rw [letters_cons, plain] at same
      obtain ⟨middle, rfl, rest⟩ := exists_before_of_append first same
      rw [← plain]
      exact (inductionHypothesis others rest).cons segment
    cases segment with
    | text _ => exact content rfl
    | json _ => exact content rfl
    | style kind =>
      rw [letters_cons, Segment.toList_render_style, List.append_assoc] at same
      rcases first_or_later isNumber_zero number same with
        ⟨rfl, rfl, rfl⟩ | ⟨middle, rfl, later⟩
      · exact .beforeStyle [] block kind
      · rcases first_or_later kind.isNumber_code number later with
          ⟨rfl, rfl, rfl⟩ | ⟨middle, rfl, rest⟩
        · rw [List.append_nil]
          exact .style [] block kind
        · have stands := (inductionHypothesis others rest).cons (.style kind)
          rwa [Segment.toList_render_style, List.append_assoc] at stands
    | reset =>
      rw [letters_cons, Segment.toList_render_reset] at same
      rcases first_or_later isNumber_zero number same with
        ⟨rfl, rfl, rfl⟩ | ⟨middle, rfl, rest⟩
      · exact .reset [] block
      · have stands := (inductionHypothesis others rest).cons .reset
        rwa [Segment.toList_render_reset] at stands

theorem reset_suffix_of_letters_eq (clean : block.Clean) (number : IsNumber digits)
    (sets : digits ≠ ['0']) (same : block.letters = before ++ (sequenceOf digits ++ after)) :
    resetSequence <:+ before := by
  cases stands_of_letters_eq clean number same with
  | reset => exact absurd rfl sets
  | beforeStyle => exact absurd rfl sets
  | style => exact List.suffix_append _ _

theorem leftSet_append_cons_style (set : List Nat) (front back : Block) (kind : Style) :
    leftSet set (front ++ .style kind :: back) =
      leftSet [Decimal.value kind.code.toList] back := by
  induction front generalizing set with
  | nil => rfl
  | cons segment front inductionHypothesis =>
    cases segment <;> exact inductionHypothesis _

theorem leftSet_eq_of_not_hasSequence (none : ¬ HasSequence block.letters) (set : List Nat) :
    block.leftSet set = set := by
  induction block with
  | nil => rfl
  | cons segment block inductionHypothesis =>
    rw [letters_cons] at none
    cases segment with
    | text _ => exact inductionHypothesis fun has => none (has.append _)
    | json _ => exact inductionHypothesis fun has => none (has.append _)
    | style kind =>
      rw [Segment.toList_render_style, List.append_assoc] at none
      exact absurd (hasSequence_sequence_append isNumber_zero _) none
    | reset =>
      rw [Segment.toList_render_reset] at none
      exact absurd (hasSequence_sequence_append isNumber_zero _) none

/-- The last sequence of a block that leaves no attribute set is a reset. -/
theorem eq_zero_of_last (clean : block.Clean) (settled : block.leftSet [] = [])
    (number : IsNumber digits) (last : ¬ HasSequence after)
    (same : block.letters = before ++ (sequenceOf digits ++ after)) : digits = ['0'] := by
  cases stands_of_letters_eq clean number same with
  | reset => rfl
  | beforeStyle => rfl
  | style front back kind =>
    rw [leftSet_append_cons_style, leftSet_eq_of_not_hasSequence last] at settled
    cases settled

theorem tidy_render (clean : block.Clean) (settled : block.leftSet [] = []) (colour : Bool) :
    Tidy (block.render colour).toList := by
  cases colour with
  | false => exact tidy_of_escape_not_mem (escape_not_mem_render_false clean)
  | true =>
    exact ⟨fun _ _ _ number sets same => reset_suffix_of_letters_eq clean number sets same,
      fun _ _ _ number last same => eq_zero_of_last clean settled number last same⟩

/-- Nothing but the sequences depends on the colour. -/
theorem plain_render {block : Block} (clean : block.Clean) (colour : Bool) :
    plain (block.render colour).toList = (block.render false).toList := by
  cases colour with
  | false =>
    have whole := plain_append (escape_not_mem_render_false clean) []
    rwa [plain, List.append_nil] at whole
  | true => exact plain_letters clean

theorem leftSet_join_render {blocks : List Block} (clean : ∀ block ∈ blocks, block.Clean)
    (settled : ∀ block ∈ blocks, block.leftSet [] = []) (colour : Bool) :
    Styled.leftSet [] (String.join (blocks.map (render colour))).toList = [] := by
  induction blocks with
  | nil => rw [List.map_nil, String.join_nil, String.toList_empty, Styled.leftSet]
  | cons block blocks inductionHypothesis =>
    obtain ⟨first, others⟩ := List.forall_mem_cons.mp clean
    obtain ⟨firstSettled, othersSettled⟩ := List.forall_mem_cons.mp settled
    rw [List.map_cons, String.join_cons, String.toList_append]
    cases colour with
    | false =>
      rw [leftSet_append (escape_not_mem_render_false first)]
      exact inductionHypothesis others othersSettled
    | true =>
      refine (leftSet_letters_append first [] _).trans ?_
      rw [firstSettled]
      exact inductionHypothesis others othersSettled

end Sequences

end Block

end HostPattern
