import HostPattern.Wildcard.Text
import Mathlib

/-!
# The pieces of a wildcard's text

A text is that of a wildcard if it has a mark and only characters of pieces beside
it; the pieces are then what stands between the marks, one more than there are marks.
-/

namespace HostPattern.Wildcard

open Text

/-- Letters, digits, hyphens and at least one mark. -/
def IsText (text : List Char) : Prop :=
  (∀ c ∈ text, c.isAlphanum = true ∨ c = '-' ∨ c = mark) ∧ mark ∈ text

theorem isPieceChar_iff {c : Char} : isPieceChar c = true ↔ c.isAlphanum = true ∨ c = '-' := by
  simp [isPieceChar]

theorem mark_not_isPieceChar : isPieceChar mark = false := rfl

theorem admitsFrom_marked_iff {text : List Char} :
    form.admitsFrom .marked text = true ↔
      ∀ c ∈ text, c.isAlphanum = true ∨ c = '-' ∨ c = mark := by
  induction text with
  | nil => simp [form]
  | cons c text inductionHypothesis =>
    have stays : form.next? .marked c =
        if isPieceChar c || c == mark then some .marked else none := rfl
    rw [Form.admitsFrom_cons, List.forall_mem_cons, ← inductionHypothesis, stays]
    simp only [Option.ite_none_right_eq_some, Bool.or_eq_true, beq_iff_eq, isPieceChar_iff,
      or_assoc, Option.some.injEq]
    constructor
    · intro admitted
      rcases admitted with ⟨_, ⟨allowed, rfl⟩, rest⟩
      exact ⟨allowed, rest⟩
    · intro both
      rcases both with ⟨allowed, rest⟩
      exact ⟨_, ⟨allowed, rfl⟩, rest⟩

theorem admits_iff {text : List Char} : form.admits text = true ↔ IsText text := by
  change form.admitsFrom .unmarked text = true ↔ _
  induction text with
  | nil => simp [form, IsText]
  | cons c text inductionHypothesis =>
    rw [Form.admitsFrom_cons, IsText, List.forall_mem_cons]
    constructor
    · intro admitted
      rcases admitted with ⟨next, step, rest⟩
      simp only [form] at step
      split at step
      case isTrue plain =>
        cases step
        obtain ⟨allowed, marked⟩ := inductionHypothesis.mp rest
        refine ⟨⟨?_, allowed⟩, List.mem_cons_of_mem _ marked⟩
        rcases isPieceChar_iff.mp plain with alphanum | hyphen
        · exact .inl alphanum
        · exact .inr (.inl hyphen)
      case isFalse =>
        split at step
        case isTrue marks =>
          cases step
          exact ⟨⟨.inr (.inr marks), admitsFrom_marked_iff.mp rest⟩, by simp [marks]⟩
        case isFalse => cases step
    · intro isText
      rcases isText with ⟨⟨first, allowed⟩, marked⟩
      by_cases marks : c = mark
      · exact ⟨.marked, by simp [form, marks, mark_not_isPieceChar],
          admitsFrom_marked_iff.mpr allowed⟩
      · have plain : isPieceChar c = true := by
          rw [isPieceChar_iff]
          rcases first with alphanum | hyphen | mark
          · exact .inl alphanum
          · exact .inr hyphen
          · exact absurd mark marks
        have later : mark ∈ text := by
          rcases List.mem_cons.mp marked with same | later
          · exact absurd same.symm marks
          · exact later
        exact ⟨.unmarked, by simp [form, plain], inductionHypothesis.mpr ⟨allowed, later⟩⟩

theorem length_splitOn (c : Char) (text : List Char) :
    (text.splitOn c).length = text.count c + 1 := by
  induction text with
  | nil => rfl
  | cons d text inductionHypothesis =>
    rw [List.splitOn_cons_eq_if_modifyHead, List.count_cons]
    by_cases same : d = c
    · simp [same, inductionHypothesis]
    · simp [same, inductionHypothesis]

theorem mem_of_mem_splitOn {c d : Char} {text piece : List Char} (member : piece ∈ text.splitOn d)
    (inside : c ∈ piece) : c ∈ text := by
  induction text generalizing piece with
  | nil =>
    obtain rfl : piece = [] := List.mem_singleton.mp member
    cases inside
  | cons first text inductionHypothesis =>
    rw [List.splitOn_cons_eq_if_modifyHead] at member
    split at member
    · rcases List.mem_cons.mp member with rfl | later
      · cases inside
      · exact List.mem_cons_of_mem _ (inductionHypothesis later inside)
    · cases split : text.splitOn d with
      | nil =>
        rw [split] at member
        cases member
      | cons front pieces =>
        rw [split] at member inductionHypothesis
        rcases List.mem_cons.mp member with rfl | later
        · rcases List.mem_cons.mp inside with rfl | rest
          · exact List.mem_cons_self
          · exact List.mem_cons_of_mem _ (inductionHypothesis List.mem_cons_self rest)
        · exact List.mem_cons_of_mem _
            (inductionHypothesis (List.mem_cons_of_mem _ later) inside)

theorem length_pieces (wildcard : Wildcard) : wildcard.pieces.length = wildcard.gaps + 1 := by
  simp [pieces, gaps]

theorem pieces_injective {first second : Wildcard} (same : first.pieces = second.pieces) :
    first = second := by
  obtain ⟨front, middle, back⟩ := first
  obtain ⟨otherFront, otherMiddle, otherBack⟩ := second
  simp only [pieces, List.cons_append, List.cons.injEq] at same
  obtain ⟨rfl, rest⟩ := same
  obtain ⟨rfl, last⟩ := List.append_inj' rest rfl
  cases last
  rfl

theorem exists_ofPieces? {pieces : List (List Char)} (several : 2 ≤ pieces.length) :
    ∃ wildcard, ofPieces? pieces = some wildcard := by
  match pieces with
  | [] => simp at several
  | [_] => simp at several
  | _ :: _ :: _ => exact ⟨_, rfl⟩

theorem pieces_of_ofPieces? {pieces : List (List Char)} {wildcard : Wildcard}
    (read : ofPieces? pieces = some wildcard) :
    2 ≤ pieces.length ∧ wildcard.pieces.map String.toList = pieces := by
  match pieces with
  | [] => cases read
  | [_] => cases read
  | front :: next :: rest =>
    have back : (String.toList ∘ String.ofList : List Char → List Char) = id :=
      funext fun _ => String.toList_ofList
    cases read
    refine ⟨by simp, ?_⟩
    rw [Wildcard.pieces, List.map_append, List.map_cons, List.map_map, back, List.map_id,
      String.toList_ofList, List.map_singleton, String.toList_ofList, List.cons_append,
      List.dropLast_concat_getLast]

theorem ofPieces?_eq_some_iff {pieces : List (List Char)} {wildcard : Wildcard} :
    ofPieces? pieces = some wildcard ↔
      2 ≤ pieces.length ∧ wildcard.pieces.map String.toList = pieces := by
  constructor
  · exact pieces_of_ofPieces?
  · intro given
    rcases given with ⟨several, same⟩
    obtain ⟨found, read⟩ := exists_ofPieces? several
    have texts := (pieces_of_ofPieces? read).2.trans same.symm
    rw [read, pieces_injective (List.map_injective_iff.mpr (fun _ _ => String.toList_inj.mp) texts)]

theorem read?_eq_some_iff {text : List Char} {wildcard : Wildcard} :
    read? text = some wildcard ↔
      IsText text ∧ wildcard.pieces.map String.toList = text.splitOn mark := by
  rw [read?, Option.ite_none_right_eq_some, admits_iff, ofPieces?_eq_some_iff, length_splitOn]
  constructor
  · intro reading
    rcases reading with ⟨isText, _, same⟩
    exact ⟨isText, same⟩
  · intro given
    rcases given with ⟨isText, same⟩
    have marked := List.count_pos_iff.mpr isText.2
    exact ⟨isText, by omega, same⟩

theorem read?_eq_none_iff {text : List Char} : read? text = none ↔ ¬ IsText text := by
  constructor
  · intro unread isText
    have marked := List.count_pos_iff.mpr isText.2
    have several : 2 ≤ (text.splitOn mark).length := by
      rw [length_splitOn]
      omega
    obtain ⟨wildcard, found⟩ := exists_ofPieces? several
    rw [read?, if_pos (admits_iff.mpr isText), found] at unread
    cases unread
  · intro other
    rw [read?, if_neg fun admitted => other (admits_iff.mp admitted)]

theorem gaps_eq_count {text : List Char} {wildcard : Wildcard}
    (read : read? text = some wildcard) : wildcard.gaps = text.count mark := by
  have same := congrArg List.length (read?_eq_some_iff.mp read).2
  rw [List.length_map, length_pieces, length_splitOn] at same
  omega

end HostPattern.Wildcard
