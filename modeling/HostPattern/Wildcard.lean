import HostPattern.Text.Ascii

/-!
Wildcards: literal pieces with any text between each two of them.  `Joined`
says which texts a list of pieces allows; `accepts` finds each piece at its
first place, which leaves the most room for those after it.
-/

namespace HostPattern

open Text

/-- The pieces of a wildcard: one in front, one at the back, and those between. -/
structure Wildcard where
  front : String
  middle : List String
  back : String
  deriving DecidableEq, Repr

/-- The text consists of the pieces in order, ASCII case aside, with any text
between each two. -/
inductive Joined : List (List Char) → List Char → Prop
  | last {piece part} : fold part = fold piece → Joined [piece] part
  | next {piece part pieces gap rest} :
      fold part = fold piece → Joined pieces rest →
      Joined (piece :: pieces) (part ++ gap ++ rest)

namespace Wildcard

def pieces (wildcard : Wildcard) : List String :=
  wildcard.front :: wildcard.middle ++ [wildcard.back]

def gaps (wildcard : Wildcard) : Nat :=
  wildcard.middle.length + 1

def Matches (wildcard : Wildcard) (name : String) : Prop :=
  Joined (wildcard.pieces.map String.toList) name.toList

def afterFirst? (piece text : List Char) : Option (List Char) :=
  match piece.isPrefixOf? text, text with
  | some rest, _ => some rest
  | none, [] => none
  | none, _ :: text => afterFirst? piece text

/-- Whether the pieces stand in the text in this order, and `back` at its end. -/
def acceptsAfterGap (back : List Char) : List (List Char) → List Char → Bool
  | [], text => back.isSuffixOf text
  | piece :: pieces, text =>
    match afterFirst? piece text with
    | none => false
    | some rest => acceptsAfterGap back pieces rest

def accepts (wildcard : Wildcard) (name : String) : Bool :=
  match (fold wildcard.front.toList).isPrefixOf? (fold name.toList) with
  | none => false
  | some rest =>
    acceptsAfterGap (fold wildcard.back.toList)
      (wildcard.middle.map fun piece => fold piece.toList) rest

end Wildcard

end HostPattern
