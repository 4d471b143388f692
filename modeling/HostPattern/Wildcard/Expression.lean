import HostPattern.Wildcard

/-!
Wildcards as regular expressions.  An expression is a row of elements, each of
which takes some of the text from where the one before it ended; an expression is
found in a text if its elements match from some place on.
-/

namespace HostPattern

open Text

namespace Wildcard

inductive Element
  /-- Nothing, at the start of the text. -/
  | start
  /-- Nothing, at the end of the text. -/
  | finish
  /-- The given text, ASCII case aside. -/
  | literal (text : String)
  /-- Any text, line breaks included. -/
  | anyText
  deriving DecidableEq, Repr

def escaped (c : Char) : List Char :=
  if c = '-' then ['\\', '-'] else [c]

def Element.source : Element → String
  | .start => "^"
  | .finish => "$"
  | .literal text => "(?i-u:" ++ String.ofList (text.toList.flatMap escaped) ++ ")"
  | .anyText => "(?s:.*)"

/-- Whether the elements match, one after the other, what stands after `before`. -/
def Element.Match : List Element → List Char → List Char → Prop
  | [], _, _ => True
  | .start :: elements, before, rest => before = [] ∧ Match elements before rest
  | .finish :: elements, before, rest => rest = [] ∧ Match elements before rest
  | .literal text :: elements, before, rest =>
    ∃ part after, rest = part ++ after ∧ fold part = fold text.toList ∧
      Match elements (before ++ part) after
  | .anyText :: elements, before, rest =>
    ∃ gap after, rest = gap ++ after ∧ Match elements (before ++ gap) after

def Element.Found (elements : List Element) (text : List Char) : Prop :=
  ∃ before rest, text = before ++ rest ∧ Match elements before rest

/-- An empty piece asks for nothing. -/
def pieceElements (piece : String) : List Element :=
  if piece.isEmpty then [] else [.literal piece]

/-- The expression for the names that the wildcard allows: the pieces from the start to
the end of the name, with any text between each two. -/
def expression (wildcard : Wildcard) : List Element :=
  .start :: [Element.anyText].intercalate (wildcard.pieces.map pieceElements) ++ [.finish]

def regex (wildcard : Wildcard) : String :=
  String.join (wildcard.expression.map Element.source)

end Wildcard

end HostPattern
