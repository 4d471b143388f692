import HostPattern.Proofs.Wildcard.Expression

/-!
# Marks in a wildcard's text

A name fits a text if it is joined from the pieces between the marks.  Fitting goes along the
text, character by character, and so a text that is put together from two is fitted by what is
put together from names that fit these.  A mark is fitted by every name: put in the place of
any part of a text, it keeps all the names that fit.
-/

namespace HostPattern

open Text

namespace Wildcard

/-- The name is joined from what stands between the marks of the text. -/
def Fits (text name : List Char) : Prop :=
  Joined (text.splitOn mark) name

section Characters

variable {c : Char} {text name : List Char}

theorem splitOn_ne_nil (text : List Char) : text.splitOn mark ≠ [] := by
  apply List.ne_nil_of_length_pos
  rw [length_splitOn]
  exact Nat.succ_pos _

theorem fits_nil : Fits [] name ↔ name = [] := by
  change Joined [[]] name ↔ name = []
  rw [joined_singleton]
  exact List.map_eq_nil_iff

theorem fits_mark_cons :
    Fits (mark :: text) name ↔ ∃ gap rest, name = gap ++ rest ∧ Fits text rest := by
  have pieces : (mark :: text).splitOn mark = [] :: text.splitOn mark := by
    rw [List.splitOn_cons_eq_if_modifyHead, if_pos (beq_self_eq_true mark)]
  rw [Fits, pieces, joined_cons (splitOn_ne_nil text)]
  constructor
  · rintro ⟨part, gap, rest, rfl, same, joined⟩
    obtain rfl : part = [] := List.map_eq_nil_iff.mp same
    exact ⟨gap, rest, rfl, joined⟩
  · rintro ⟨gap, rest, rfl, joined⟩
    exact ⟨[], gap, rest, rfl, rfl, joined⟩

theorem joined_cons_cons {piece : List Char} {pieces : List (List Char)} :
    Joined ((c :: piece) :: pieces) name ↔
      ∃ d rest, name = d :: rest ∧ d.toLower = c.toLower ∧ Joined (piece :: pieces) rest := by
  by_cases more : pieces = []
  · subst more
    simp only [joined_singleton, fold_cons]
    constructor
    · intro same
      obtain ⟨d, rest, rfl, first, others⟩ := List.map_eq_cons_iff.mp same
      exact ⟨d, rest, rfl, first, others⟩
    · rintro ⟨d, rest, rfl, first, others⟩
      rw [fold_cons, first, others]
  · simp only [joined_cons more, fold_cons]
    constructor
    · rintro ⟨part, gap, after, rfl, same, joined⟩
      obtain ⟨d, rest, rfl, first, others⟩ := List.map_eq_cons_iff.mp same
      exact ⟨d, rest ++ (gap ++ after), rfl, first, rest, gap, after, rfl, others, joined⟩
    · rintro ⟨d, _, rfl, first, rest, gap, after, rfl, others, joined⟩
      refine ⟨d :: rest, gap, after, rfl, ?_, joined⟩
      rw [fold_cons, first, others]

theorem fits_cons_of_ne (plain : c ≠ mark) :
    Fits (c :: text) name ↔ ∃ d rest, name = d :: rest ∧ d.toLower = c.toLower ∧ Fits text rest := by
  obtain ⟨piece, pieces, split⟩ := List.exists_cons_of_ne_nil (splitOn_ne_nil text)
  have longer : (c :: text).splitOn mark = (c :: piece) :: pieces := by
    rw [List.splitOn_cons_eq_if_modifyHead, if_neg (by simpa using plain), split]
    rfl
  simp only [Fits, longer, split]
  exact joined_cons_cons

end Characters

section Parts

variable {front back part name : List Char}

/-- A text of two parts is fitted part by part. -/
theorem fits_append_iff :
    Fits (front ++ back) name ↔
      ∃ first rest, name = first ++ rest ∧ Fits front first ∧ Fits back rest := by
  -- Each character of the front takes its share from the first part of the name.
  induction front generalizing name with
  | nil =>
    constructor
    · intro fits
      exact ⟨[], name, rfl, fits_nil.mpr rfl, fits⟩
    · rintro ⟨first, rest, rfl, empty, fits⟩
      rw [fits_nil.mp empty]
      exact fits
  | cons c front inductionHypothesis =>
    by_cases marks : c = mark
    · subst marks
      simp only [List.cons_append, fits_mark_cons, inductionHypothesis]
      constructor
      · rintro ⟨gap, _, rfl, first, rest, rfl, fitsFirst, fitsRest⟩
        exact ⟨gap ++ first, rest, (List.append_assoc _ _ _).symm, ⟨gap, first, rfl, fitsFirst⟩,
          fitsRest⟩
      · rintro ⟨_, rest, rfl, ⟨gap, first, rfl, fitsFirst⟩, fitsRest⟩
        exact ⟨gap, first ++ rest, List.append_assoc _ _ _, first, rest, rfl, fitsFirst, fitsRest⟩
    · simp only [List.cons_append, fits_cons_of_ne marks, inductionHypothesis]
      constructor
      · rintro ⟨d, _, rfl, same, first, rest, rfl, fitsFirst, fitsRest⟩
        exact ⟨d :: first, rest, rfl, ⟨d, first, rfl, same, fitsFirst⟩, fitsRest⟩
      · rintro ⟨_, rest, rfl, ⟨d, first, rfl, same, fitsFirst⟩, fitsRest⟩
        exact ⟨d, first ++ rest, rfl, same, first, rest, rfl, fitsFirst, fitsRest⟩

theorem fits_marks (marks : ∀ c ∈ part, c = mark) (filled : part ≠ [] ∨ name = []) :
    Fits part name := by
  induction part generalizing name with
  | nil =>
    apply fits_nil.mpr
    exact filled.resolve_left fun nonempty => nonempty rfl
  | cons c part inductionHypothesis =>
    obtain ⟨rfl, others⟩ := List.forall_mem_cons.mp marks
    apply fits_mark_cons.mpr
    refine ⟨name, [], (List.append_nil name).symm, ?_⟩
    exact inductionHypothesis others (.inr rfl)

theorem fits_replace {other : List Char} (wider : ∀ name, Fits part name → Fits other name)
    (fits : Fits (front ++ part ++ back) name) : Fits (front ++ other ++ back) name := by
  obtain ⟨_, last, rfl, fitsFront, fitsBack⟩ := fits_append_iff.mp fits
  obtain ⟨first, middle, rfl, fitsFirst, fitsMiddle⟩ := fits_append_iff.mp fitsFront
  apply fits_append_iff.mpr
  refine ⟨first ++ middle, last, rfl, ?_, fitsBack⟩
  apply fits_append_iff.mpr
  exact ⟨first, middle, rfl, fitsFirst, wider middle fitsMiddle⟩

theorem isText_replace_mark (isText : IsText (front ++ part ++ back)) :
    IsText (front ++ [mark] ++ back) := by
  constructor
  · intro c member
    simp only [List.mem_append, List.mem_singleton] at member
    rcases member with (inside | marks) | inside
    · exact isText.1 c (by simp [inside])
    · exact .inr (.inr marks)
    · exact isText.1 c (by simp [inside])
  · simp

end Parts

end Wildcard

namespace Pattern

open Wildcard

theorem accepts_compile_iff_fits {raw name : String} {wildcard : Wildcard}
    (compiled : compile raw = .wild wildcard) :
    (compile raw).accepts name = true ↔ Fits raw.toList name.toList := by
  obtain ⟨_, split⟩ := pieces_of_parse (parse_of_compile compiled (by simp))
  rw [compiled, Fits, ← split]
  exact Wildcard.accepts_eq_true_iff_matches

theorem exists_compile_of_isText {raw : String} (isText : IsText raw.toList)
    (few : raw.toList.count mark ≤ maxGaps) : ∃ wildcard, compile raw = .wild wildcard := by
  obtain ⟨wildcard, split⟩ := exists_pieces_of_isText isText
  refine ⟨wildcard, ?_⟩
  apply compile_eq_iff.mpr
  exact .inl (.wild isText few split)

/-- A mark in the place of any part of a wildcard's text leaves the text of a wildcard, unless
the marks become too many, and this accepts all the names that the first one accepts.  Where
the part consists of marks, both accept the same names. -/
theorem accepts_of_part_marked {front part back : String} {wildcard : Wildcard}
    (compiled : compile (front ++ part ++ back) = .wild wildcard)
    (few : (front ++ "%" ++ back).toList.count mark ≤ maxGaps) :
    (∃ other, compile (front ++ "%" ++ back) = .wild other) ∧
    (∀ name, (compile (front ++ part ++ back)).accepts name = true →
      (compile (front ++ "%" ++ back)).accepts name = true) ∧
    (part ≠ "" → (∀ c ∈ part.toList, c = mark) → ∀ name,
      (compile (front ++ part ++ back)).accepts name =
        (compile (front ++ "%" ++ back)).accepts name) := by
  obtain ⟨isText, _⟩ := pieces_of_parse (parse_of_compile compiled (by simp))
  have text : (front ++ part ++ back).toList = front.toList ++ part.toList ++ back.toList := by
    simp
  have marked : (front ++ "%" ++ back).toList = front.toList ++ [mark] ++ back.toList := by
    simp [mark]
  obtain ⟨other, otherCompiled⟩ :
      ∃ other, compile (front ++ "%" ++ back) = .wild other := by
    apply exists_compile_of_isText _ few
    rw [marked]
    exact isText_replace_mark (text ▸ isText)
  have accepts (name : String) : (compile (front ++ part ++ back)).accepts name = true ↔
      Fits (front.toList ++ part.toList ++ back.toList) name.toList := by
    rw [accepts_compile_iff_fits compiled, text]
  have otherAccepts (name : String) : (compile (front ++ "%" ++ back)).accepts name = true ↔
      Fits (front.toList ++ [mark] ++ back.toList) name.toList := by
    rw [accepts_compile_iff_fits otherCompiled, marked]
  have widens (name : String) : (compile (front ++ part ++ back)).accepts name = true →
      (compile (front ++ "%" ++ back)).accepts name = true := by
    intro accepted
    apply (otherAccepts name).mpr
    apply fits_replace _ ((accepts name).mp accepted)
    exact fun _ _ => fits_marks (by simp) (.inl (by simp))
  refine ⟨⟨other, otherCompiled⟩, widens, ?_⟩
  intro filled marks name
  apply Bool.eq_iff_iff.mpr
  refine ⟨widens name, ?_⟩
  intro accepted
  apply (accepts name).mpr
  apply fits_replace _ ((otherAccepts name).mp accepted)
  exact fun _ _ => fits_marks marks (.inl (by simpa using filled))

/-- The part holds a mark of its own and ends inside a piece. -/
theorem accepts_of_part_marked_web :
    let raw := "W" ++ "eb-%1" ++ "x"
    let marked := "W" ++ "%" ++ "x"
    compile raw = .wild ⟨"Web-", [], "1x"⟩ ∧ marked.toList.count mark ≤ maxGaps ∧
      (compile raw).accepts "WEB-01X" = true ∧ (compile marked).accepts "WEB-01X" = true ∧
      ∀ name, (compile ("a" ++ "%%" ++ "b")).accepts name =
        (compile ("a" ++ "%" ++ "b")).accepts name := by
  intro raw marked
  have compiled : compile raw = .wild ⟨"Web-", [], "1x"⟩ := by decide
  have few : marked.toList.count mark ≤ maxGaps := by decide
  have accepted : (compile raw).accepts "WEB-01X" = true := by decide
  have run : compile ("a" ++ "%%" ++ "b") = .wild ⟨"a", [""], "b"⟩ := by decide
  have same := (accepts_of_part_marked run (by decide)).2.2 (by decide) (by simp [mark])
  exact ⟨compiled, few, accepted, (accepts_of_part_marked compiled few).2.1 _ accepted, same⟩

end Pattern

end HostPattern
