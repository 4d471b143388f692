import HostPattern.Proofs.Pattern.Reading
import HostPattern.Proofs.Wildcard.Search

/-!
# What a wildcard accepts

The pieces of a wildcard are those of the text it was read from.  Its expression is
found in a name exactly if the whole name is `Joined` from these pieces, and so the
search answers as the expression would.
-/

namespace HostPattern

open Text

namespace Wildcard

open Element

variable {elements : List Element} {before rest : List Char}

/-- An empty piece takes no text, and there is always no text to take. -/
theorem match_pieceElements_append {piece : String} :
    Match (pieceElements piece ++ elements) before rest ↔
      ∃ part after, rest = part ++ after ∧ fold part = fold piece.toList ∧
        Match elements (before ++ part) after := by
  by_cases empty : piece = ""
  · subst empty
    constructor
    · intro found
      refine ⟨[], rest, rfl, rfl, ?_⟩
      rw [List.append_nil]
      exact found
    · intro taken
      rcases taken with ⟨part, after, rfl, same, found⟩
      obtain rfl : part = [] := List.map_eq_nil_iff.mp same
      rw [List.append_nil] at found
      exact found
  · have literal : pieceElements piece = [.literal piece] := by
      rw [pieceElements, if_neg]
      rw [String.isEmpty_iff]
      exact empty
    rw [literal]
    exact Iff.rfl

/-- The elements of pieces up to the end of the text match what the pieces join. -/
theorem match_intercalate_iff {pieces : List String} (more : pieces ≠ []) :
    Match ([Element.anyText].intercalate (pieces.map pieceElements) ++ [.finish]) before rest ↔
      Joined (pieces.map String.toList) rest := by
  induction pieces generalizing before rest with
  | nil => exact absurd rfl more
  | cons piece pieces inductionHypothesis =>
    cases pieces with
    | nil =>
      rw [List.map_singleton, List.map_singleton, List.intercalate_singleton,
        match_pieceElements_append, joined_singleton]
      constructor
      · intro matched
        rcases matched with ⟨part, after, rfl, same, rfl, _⟩
        rw [List.append_nil]
        exact same
      · intro same
        exact ⟨rest, [], (List.append_nil _).symm, same, rfl, trivial⟩
    | cons next pieces =>
      have nonempty : next :: pieces ≠ [] := List.cons_ne_nil _ _
      rw [List.map_cons, List.map_cons (f := String.toList),
        List.intercalate_cons_of_ne_nil (by simp), joined_cons (by simp), List.append_assoc,
        List.append_assoc, match_pieceElements_append]
      constructor
      · intro matched
        rcases matched with ⟨part, after, rfl, same, gap, left, rfl, found⟩
        exact ⟨part, gap, left, rfl, same, (inductionHypothesis nonempty).mp found⟩
      · intro joins
        rcases joins with ⟨part, gap, left, rfl, same, joined⟩
        refine ⟨part, gap ++ left, rfl, same, gap, left, rfl, ?_⟩
        apply (inductionHypothesis nonempty).mpr
        exact joined

/-- The start and the end of the expression leave no other place for it. -/
theorem found_expression_iff {wildcard : Wildcard} {name : String} :
    Element.Found wildcard.expression name.toList ↔ wildcard.Matches name := by
  have pieces : wildcard.pieces ≠ [] := by simp [Wildcard.pieces]
  have fromStart : Match ([Element.anyText].intercalate (wildcard.pieces.map pieceElements) ++
      [.finish]) [] name.toList ↔ wildcard.Matches name := match_intercalate_iff pieces
  rw [← fromStart]
  constructor
  · intro matched
    rcases matched with ⟨_, rest, split, rfl, found⟩
    rw [split]
    exact found
  · intro found
    exact ⟨[], name.toList, rfl, rfl, found⟩

end Wildcard

namespace Pattern

theorem pieces_of_parse {raw : String} {wildcard : Wildcard}
    (read : parse raw = .ok (.wild wildcard)) :
    Wildcard.IsText raw.toList ∧
      wildcard.pieces.map String.toList = raw.toList.splitOn Wildcard.mark := by
  cases parse_eq_iff.mp read with
  | wild isText _ split => exact ⟨isText, split⟩

/-- A wildcard accepts the names that are joined from what stands between the marks of its
text, the whole name each time, and these are the names its expression is found in. -/
theorem accepts_wild_iff_joined {raw : String} {wildcard : Wildcard}
    (read : parse raw = .ok (.wild wildcard)) (name : String) :
    0 < raw.toList.count Wildcard.mark ∧
    (accepts (.wild wildcard) name = true ↔
      Joined (raw.toList.splitOn Wildcard.mark) name.toList) ∧
    (Wildcard.Element.Found wildcard.expression name.toList ↔
      Joined (raw.toList.splitOn Wildcard.mark) name.toList) := by
  obtain ⟨isText, split⟩ := pieces_of_parse read
  rw [← split]
  exact ⟨List.count_pos_iff.mpr isText.2, Wildcard.accepts_eq_true_iff_matches,
    Wildcard.found_expression_iff⟩

/-- A line break after the last piece is one character too many. -/
theorem accepts_wild_iff_joined_web :
    parse "Web%1" = .ok (.wild ⟨"Web", [], "1"⟩) ∧
    Joined ("Web%1".toList.splitOn Wildcard.mark) "webserver1".toList ∧
    ¬ Joined ("Web%1".toList.splitOn Wildcard.mark) "webserver1\n".toList := by
  have read : parse "Web%1" = .ok (.wild ⟨"Web", [], "1"⟩) := by decide
  refine ⟨read, (accepts_wild_iff_joined read "webserver1").2.1.mp (by decide), ?_⟩
  intro joined
  have accepted := (accepts_wild_iff_joined read "webserver1\n").2.1.mpr joined
  exact absurd accepted (by decide)

end Pattern

end HostPattern
