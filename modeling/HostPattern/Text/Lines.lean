/-!
Texts in lines of limited width.  A blank between two words becomes the end of a
line where the next word does not fit; a word is never broken.
-/

namespace HostPattern.Text

/-- A line and the lines after it, filled with the words. -/
def fill (width : Nat) (line : List Char) : List (List Char) → List (List Char)
  | [] => [line]
  | word :: words =>
    if width < line.length + 1 + word.length then line :: fill width word words
    else fill width (line ++ ' ' :: word) words

def wrap (width : Nat) (text : List Char) : List (List Char) :=
  match text.splitOn ' ' with
  | [] => []
  | word :: words => fill width word words

end HostPattern.Text
