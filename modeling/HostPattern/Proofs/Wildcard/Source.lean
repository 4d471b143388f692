import HostPattern.Proofs.Text.Case
import HostPattern.Proofs.Wildcard.Pieces
import HostPattern.Wildcard.Expression

/-!
# The text of a wildcard's expression

The text of an expression tells its pieces: a literal begins `(?i-u:` and ends at the next
bracket, which no piece holds, and what stands between two of them begins otherwise.  This is
so up to case as well, since all letters that are not of a piece are small.
-/

namespace HostPattern.Wildcard

open Text

def literalStart : List Char := ['(', '?', 'i', '-', 'u', ':']

def gapSource : List Char := ['(', '?', 's', ':', '.', '*', ')']

def pieceSource (piece : List Char) : List Char :=
  if piece = [] then [] else literalStart ++ (piece.flatMap escaped ++ [')'])

def piecesSource (pieces : List (List Char)) : List Char :=
  gapSource.intercalate (pieces.map pieceSource) ++ ['$']

section Pieces

variable {piece : List Char} {pieces : List (List Char)}

@[simp] theorem pieceSource_nil : pieceSource [] = [] := rfl

theorem pieceSource_of_ne_nil (filled : piece ≠ []) :
    pieceSource piece = literalStart ++ (piece.flatMap escaped ++ [')']) :=
  if_neg filled

theorem piecesSource_singleton : piecesSource [piece] = pieceSource piece ++ ['$'] := by
  rw [piecesSource, List.map_singleton, List.intercalate_singleton]

theorem piecesSource_cons (more : pieces ≠ []) :
    piecesSource (piece :: pieces) = pieceSource piece ++ (gapSource ++ piecesSource pieces) := by
  rw [piecesSource, List.map_cons, List.intercalate_cons_of_ne_nil (by simpa using more),
    piecesSource, List.append_assoc, List.append_assoc]

theorem flatMap_source_pieceElements (piece : String) :
    (pieceElements piece).flatMap (·.source.toList) = pieceSource piece.toList := by
  unfold pieceElements pieceSource
  by_cases empty : piece = ""
  · subst empty
    rfl
  · rw [if_neg (by simpa using empty), if_neg (by simpa using empty), List.flatMap_singleton,
      Element.source, String.toList_append, String.toList_append, String.toList_ofList,
      String.toList_ofList, List.append_assoc]
    rfl

theorem flatMap_source_intercalate (pieces : List String) :
    ([Element.anyText].intercalate (pieces.map pieceElements)).flatMap (·.source.toList) ++ ['$'] =
      piecesSource (pieces.map String.toList) := by
  induction pieces with
  | nil => rfl
  | cons piece pieces inductionHypothesis =>
    cases pieces with
    | nil =>
      rw [List.map_singleton, List.intercalate_singleton, flatMap_source_pieceElements,
        List.map_singleton, piecesSource_singleton]
    | cons next pieces =>
      have gap : Element.anyText.source.toList = gapSource := rfl
      rw [List.map_cons, List.intercalate_cons_of_ne_nil (by simp),
        List.map_cons (f := String.toList),
        piecesSource_cons (by simp), ← inductionHypothesis, List.flatMap_append,
        List.flatMap_append, flatMap_source_pieceElements, List.flatMap_singleton, gap,
        List.append_assoc, List.append_assoc]

theorem toList_regex (wildcard : Wildcard) :
    wildcard.regex.toList = '^' :: piecesSource (wildcard.pieces.map String.toList) := by
  rw [regex, expression, String.toList_join, List.flatMap_map, List.flatMap_append,
    List.flatMap_cons, List.append_assoc, ← flatMap_source_intercalate]
  rfl

end Pieces

section Case

theorem fold_escaped (c : Char) : fold (escaped c) = escaped c.toLower := by
  by_cases hyphen : c = '-'
  · subst hyphen
    rfl
  · have lower : c.toLower ≠ '-' := fun same => hyphen (eq_of_toLower_eq rfl same)
    rw [escaped, if_neg hyphen, escaped, if_neg lower]
    rfl

theorem fold_pieceSource (piece : List Char) :
    fold (pieceSource piece) = pieceSource (fold piece) := by
  have literal : fold (piece.flatMap escaped) = (fold piece).flatMap escaped := by
    rw [fold, List.map_flatMap, fold, List.flatMap_map]
    exact List.flatMap_congr fun c _ => fold_escaped c
  cases piece with
  | nil => rfl
  | cons c piece =>
    rw [pieceSource_of_ne_nil (List.cons_ne_nil _ _), fold_append, fold_append, literal,
      pieceSource_of_ne_nil (by simp)]
    rfl

theorem fold_piecesSource (pieces : List (List Char)) :
    fold (piecesSource pieces) = piecesSource (pieces.map fold) := by
  induction pieces with
  | nil => rfl
  | cons piece pieces inductionHypothesis =>
    cases pieces with
    | nil =>
      rw [List.map_singleton, piecesSource_singleton, piecesSource_singleton, fold_append,
        fold_pieceSource]
      rfl
    | cons next pieces =>
      have gap : fold gapSource = gapSource := rfl
      rw [List.map_cons, piecesSource_cons (List.cons_ne_nil next pieces), fold_append, fold_append,
        fold_pieceSource, gap, inductionHypothesis, ← piecesSource_cons (by simp)]

end Case

section Decoding

/-- A piece may hold any character that does not steer the reading of the expression. -/
def IsPlain (piece : List Char) : Prop :=
  ∀ c ∈ piece, c ≠ ')' ∧ c ≠ '\\'

inductive Continues : List Char → Prop
  | finish : Continues ['$']
  | gap {rest} : Continues (gapSource ++ rest)

variable {piece other rest more : List Char}

theorem filter_flatMap_escaped (plain : IsPlain piece) :
    (piece.flatMap escaped).filter (· != '\\') = piece := by
  induction piece with
  | nil => rfl
  | cons c piece inductionHypothesis =>
    obtain ⟨first, plainRest⟩ := List.forall_mem_cons.mp plain
    rw [List.flatMap_cons, List.filter_append, inductionHypothesis plainRest]
    by_cases hyphen : c = '-'
    · subst hyphen
      rfl
    · have kept : (c != '\\') = true := bne_iff_ne.mpr first.2
      have single : [c].filter (· != '\\') = [c] := List.filter_cons_of_pos kept
      rw [escaped, if_neg hyphen, single, List.singleton_append]

theorem ne_bracket_of_mem_flatMap_escaped (plain : IsPlain piece) {c : Char}
    (member : c ∈ piece.flatMap escaped) : (c != ')') = true := by
  obtain ⟨d, inside, written⟩ := List.mem_flatMap.mp member
  unfold escaped at written
  rw [bne_iff_ne]
  split at written
  · rintro rfl
    simp at written
  · rw [List.mem_singleton.mp written]
    exact (plain d inside).1

theorem not_literalStart_append_of_continues (continues : Continues rest) (text : List Char) :
    literalStart ++ text ≠ rest := by
  intro same
  cases continues with
  | finish => cases same
  | gap => cases same

/-- The text of a piece can be told from what follows it. -/
theorem pieceSource_append_injective (plain : IsPlain piece) (otherPlain : IsPlain other)
    (continues : Continues rest) (otherContinues : Continues more)
    (same : pieceSource piece ++ rest = pieceSource other ++ more) :
    piece = other ∧ rest = more := by
  by_cases empty : piece = []
  · subst empty
    by_cases otherEmpty : other = []
    · subst otherEmpty
      exact ⟨rfl, same⟩
    · rw [pieceSource_of_ne_nil otherEmpty, pieceSource_nil, List.nil_append,
        List.append_assoc] at same
      exact absurd same.symm (not_literalStart_append_of_continues continues _)
  · by_cases otherEmpty : other = []
    · subst otherEmpty
      rw [pieceSource_of_ne_nil empty, pieceSource_nil, List.nil_append, List.append_assoc] at same
      exact absurd same (not_literalStart_append_of_continues otherContinues _)
    · rw [pieceSource_of_ne_nil empty, pieceSource_of_ne_nil otherEmpty, List.append_assoc,
        List.append_assoc, List.append_assoc, List.append_assoc] at same
      obtain ⟨literal, ends⟩ := append_cons_inj (· != ')')
        (fun _ => ne_bracket_of_mem_flatMap_escaped plain)
        (fun _ => ne_bracket_of_mem_flatMap_escaped otherPlain)
        (by simp) (by simp) (List.append_cancel_left same)
      have unescaped := congrArg (List.filter (· != '\\')) literal
      rw [filter_flatMap_escaped plain, filter_flatMap_escaped otherPlain] at unescaped
      exact ⟨unescaped, (List.cons.inj ends).2⟩

/-- The text for the pieces tells the pieces. -/
theorem piecesSource_injective {pieces others : List (List Char)} (filled : pieces ≠ [])
    (otherFilled : others ≠ []) (plain : ∀ piece ∈ pieces, IsPlain piece)
    (otherPlain : ∀ piece ∈ others, IsPlain piece)
    (same : piecesSource pieces = piecesSource others) : pieces = others := by
  induction pieces generalizing others with
  | nil => exact absurd rfl filled
  | cons piece pieces inductionHypothesis =>
    obtain ⟨other, others, rfl⟩ := List.exists_cons_of_ne_nil otherFilled
    obtain ⟨first, restPlain⟩ := List.forall_mem_cons.mp plain
    obtain ⟨otherFirst, otherRestPlain⟩ := List.forall_mem_cons.mp otherPlain
    by_cases last : pieces = [] <;> by_cases otherLast : others = []
    · subst last otherLast
      rw [piecesSource_singleton, piecesSource_singleton] at same
      rw [(pieceSource_append_injective first otherFirst .finish .finish same).1]
    · subst last
      rw [piecesSource_singleton, piecesSource_cons otherLast] at same
      have ends := (pieceSource_append_injective first otherFirst .finish .gap same).2
      cases ends
    · subst otherLast
      rw [piecesSource_singleton, piecesSource_cons last] at same
      have ends := (pieceSource_append_injective first otherFirst .gap .finish same).2
      cases ends
    · rw [piecesSource_cons last, piecesSource_cons otherLast] at same
      obtain ⟨samePiece, gaps⟩ := pieceSource_append_injective first otherFirst .gap .gap same
      rw [samePiece, inductionHypothesis last otherLast restPlain otherRestPlain
        (List.append_cancel_left gaps)]

end Decoding

end HostPattern.Wildcard
