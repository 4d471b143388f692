import HostPattern.Wildcard
import Mathlib

/-!
# The search for the pieces of a wildcard

The search never takes back a place it has found.  Nothing is lost by that: the first
place of a piece leaves the longest rest, and whatever fits into a rest fits into a
longer one.  `Follows` is what the search decides among texts without capitals, and
such texts fit exactly if those they were made from are `Joined`.
-/

namespace HostPattern

open Text

theorem not_joined_nil {text : List Char} : ¬ Joined [] text := nofun

theorem joined_singleton {piece text : List Char} :
    Joined [piece] text ↔ fold text = fold piece := by
  constructor
  · intro joined
    cases joined with
    | last same => exact same
    | next _ rest => exact absurd rest not_joined_nil
  · exact .last

theorem joined_cons {piece text : List Char} {pieces : List (List Char)} (more : pieces ≠ []) :
    Joined (piece :: pieces) text ↔
      ∃ part gap rest, text = part ++ (gap ++ rest) ∧ fold part = fold piece ∧
        Joined pieces rest := by
  constructor
  · intro joined
    cases joined with
    | last _ => exact absurd rfl more
    | next same rest => exact ⟨_, _, _, List.append_assoc _ _ _, same, rest⟩
  · intro joins
    rcases joins with ⟨part, gap, rest, rfl, same, joined⟩
    rw [← List.append_assoc]
    exact .next same joined

namespace Wildcard

/-- Whether the pieces stand in the text in this order, with any text before each, and
`back` at the end of what is left. -/
def Follows (back : List Char) : List (List Char) → List Char → Prop
  | [], text => back <:+ text
  | piece :: pieces, text => ∃ gap rest, text = gap ++ (piece ++ rest) ∧ Follows back pieces rest

theorem Follows.mono {back text rest : List Char} {pieces : List (List Char)}
    (follows : Follows back pieces rest) (longer : rest <:+ text) : Follows back pieces text := by
  cases pieces with
  | nil => exact List.IsSuffix.trans follows longer
  | cons piece pieces =>
    obtain ⟨gap, left, rfl, fits⟩ := follows
    obtain ⟨front, rfl⟩ := longer
    exact ⟨front ++ gap, left, by rw [List.append_assoc], fits⟩

section First

variable {piece text rest : List Char}

theorem exists_gap_of_afterFirst? (found : afterFirst? piece text = some rest) :
    ∃ gap, text = gap ++ (piece ++ rest) := by
  fun_induction afterFirst? piece text with
  | case1 text here prefixed =>
    rw [prefixed] at found
    cases found
    refine ⟨[], ?_⟩
    rw [List.nil_append]
    exact (List.isPrefixOf?_eq_some_iff_append_eq.mp prefixed).symm
  | case2 prefixed =>
    rw [prefixed] at found
    cases found
  | case3 c text prefixed inductionHypothesis =>
    rw [prefixed] at found
    obtain ⟨gap, rfl⟩ := inductionHypothesis found
    exact ⟨c :: gap, rfl⟩

/-- Every other place leaves less. -/
theorem exists_afterFirst?_of_append {gap other : List Char}
    (place : text = gap ++ (piece ++ other)) :
    ∃ rest, afterFirst? piece text = some rest ∧ other <:+ rest := by
  induction text generalizing gap with
  | nil =>
    obtain ⟨rfl, rest⟩ := List.append_eq_nil_iff.mp place.symm
    obtain ⟨rfl, rfl⟩ := List.append_eq_nil_iff.mp rest
    exact ⟨[], rfl, List.suffix_rfl⟩
  | cons c text inductionHypothesis =>
    unfold afterFirst?
    cases prefixed : piece.isPrefixOf? (c :: text) with
    | some rest =>
      have here := List.isPrefixOf?_eq_some_iff_append_eq.mp prefixed
      -- Both rests end the text, and the one after the first place is the longer.
      have otherEnds : other <:+ c :: text := ⟨gap ++ piece, by rw [place, List.append_assoc]⟩
      have restEnds : rest <:+ c :: text := ⟨piece, here⟩
      have shorter : other.length ≤ rest.length := by
        have size := congrArg List.length (here.trans place)
        simp only [List.length_append] at size
        omega
      exact ⟨rest, rfl, List.suffix_of_suffix_length_le otherEnds restEnds shorter⟩
    | none =>
      cases gap with
      | nil =>
        rw [List.nil_append] at place
        rw [List.isPrefixOf?_eq_some_iff_append_eq.mpr place.symm] at prefixed
        cases prefixed
      | cons d gap =>
        rw [List.cons_append, List.cons.injEq] at place
        exact inductionHypothesis place.2

end First

/-- The search that takes each first place finds the pieces whenever they can be found. -/
theorem acceptsAfterGap_eq_true_iff {back text : List Char} {pieces : List (List Char)} :
    acceptsAfterGap back pieces text = true ↔ Follows back pieces text := by
  induction pieces generalizing text with
  | nil => exact List.isSuffixOf_iff_suffix
  | cons piece pieces inductionHypothesis =>
    rw [acceptsAfterGap]
    constructor
    · intro accepted
      cases found : afterFirst? piece text with
      | none =>
        rw [found] at accepted
        cases accepted
      | some rest =>
        rw [found] at accepted
        obtain ⟨gap, place⟩ := exists_gap_of_afterFirst? found
        exact ⟨gap, rest, place, inductionHypothesis.mp accepted⟩
    · intro follows
      rcases follows with ⟨gap, other, place, fits⟩
      obtain ⟨rest, found, longer⟩ := exists_afterFirst?_of_append place
      rw [found]
      apply inductionHypothesis.mpr
      exact fits.mono longer

theorem follows_fold_iff {back text : List Char} {pieces : List (List Char)} :
    Follows (fold back) (pieces.map fold) (fold text) ↔
      ∃ gap rest, text = gap ++ rest ∧ Joined (pieces ++ [back]) rest := by
  induction pieces generalizing text with
  | nil =>
    constructor
    · intro follows
      rcases follows with ⟨front, ends⟩
      obtain ⟨gap, rest, rfl, _, same⟩ := List.map_eq_append_iff.mp ends.symm
      exact ⟨gap, rest, rfl, joined_singleton.mpr same⟩
    · intro ends
      rcases ends with ⟨gap, rest, rfl, joined⟩
      refine ⟨fold gap, ?_⟩
      rw [fold_append, ← joined_singleton.mp joined]
  | cons piece pieces inductionHypothesis =>
    have more : pieces ++ [back] ≠ [] := by simp
    constructor
    · intro follows
      rcases follows with ⟨front, remaining, place, fits⟩
      obtain ⟨gap, marked, rfl, _, same⟩ := List.map_eq_append_iff.mp place
      obtain ⟨part, rest, rfl, samePiece, rfl⟩ := List.map_eq_append_iff.mp same
      obtain ⟨inner, left, rfl, joined⟩ := inductionHypothesis.mp fits
      refine ⟨gap, _, rfl, ?_⟩
      apply (joined_cons more).mpr
      exact ⟨part, inner, left, rfl, samePiece, joined⟩
    · intro ends
      rcases ends with ⟨gap, rest, rfl, joined⟩
      obtain ⟨part, inner, left, rfl, samePiece, joined⟩ := (joined_cons more).mp joined
      have fits := inductionHypothesis.mpr ⟨inner, left, rfl, joined⟩
      refine ⟨fold gap, fold (inner ++ left), ?_, fits⟩
      rw [fold_append, fold_append, samePiece]

/-- The search agrees with what the wildcard stands for. -/
theorem accepts_eq_true_iff_matches {wildcard : Wildcard} {name : String} :
    wildcard.accepts name = true ↔ wildcard.Matches name := by
  have middle : wildcard.middle.map (fun piece => fold piece.toList) =
      (wildcard.middle.map String.toList).map fold := by
    rw [List.map_map]
    rfl
  have pieces : wildcard.pieces.map String.toList =
      wildcard.front.toList :: (wildcard.middle.map String.toList ++ [wildcard.back.toList]) := by
    simp [Wildcard.pieces]
  rw [Matches, pieces, joined_cons (by simp), accepts, middle]
  constructor
  · intro accepted
    split at accepted
    case h_1 => cases accepted
    case h_2 rest found =>
      have starts := List.isPrefixOf?_eq_some_iff_append_eq.mp found
      obtain ⟨part, remaining, split, samePiece, rfl⟩ := List.map_eq_append_iff.mp starts.symm
      obtain ⟨gap, left, rfl, joined⟩ :=
        follows_fold_iff.mp (acceptsAfterGap_eq_true_iff.mp accepted)
      exact ⟨part, gap, left, split, samePiece, joined⟩
  · intro joins
    rcases joins with ⟨part, gap, rest, split, samePiece, joined⟩
    have found : (fold wildcard.front.toList).isPrefixOf? (fold name.toList) =
        some (fold (gap ++ rest)) := by
      rw [List.isPrefixOf?_eq_some_iff_append_eq, split, fold_append part, samePiece]
    rw [found]
    apply acceptsAfterGap_eq_true_iff.mpr
    apply follows_fold_iff.mpr
    exact ⟨gap, rest, rfl, joined⟩

end Wildcard

end HostPattern
