import HostPattern.Styled

/-!
What is left of a styled text on a terminal's screen: the text without the
sequences that set display attributes.
-/

namespace HostPattern.Styled

def afterSequence? : List Char → Option (List Char)
  | '\x1b' :: '[' :: text =>
    match text.takeWhile Char.isDigit, text.dropWhile Char.isDigit with
    | _ :: _, 'm' :: rest => some rest
    | _, _ => none
  | _ => none

theorem length_lt_of_afterSequence? {text rest : List Char}
    (found : afterSequence? text = some rest) : rest.length < text.length := by
  unfold afterSequence? at found
  split at found
  · rename_i text
    split at found
    · rename_i tail _ letters
      cases found
      have short := (List.dropWhile_suffix Char.isDigit (l := text)).length_le
      simp only [letters, List.length_cons] at short ⊢
      omega
    · cases found
  · cases found

/-- The text without its attribute sequences. -/
def plain : List Char → List Char
  | [] => []
  | c :: rest =>
    match _ : afterSequence? (c :: rest) with
    | some after => plain after
    | none => c :: plain rest
termination_by text => text.length
decreasing_by
  · exact length_lt_of_afterSequence? ‹_›
  · simp

end HostPattern.Styled
