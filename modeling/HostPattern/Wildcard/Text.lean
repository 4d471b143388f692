import HostPattern.Text.Form
import HostPattern.Wildcard

/-!
The text of a wildcard: ASCII letters, digits and hyphens, and at least one
mark, which takes the place of any text.
-/

namespace HostPattern.Wildcard

open Text

def mark : Char := '%'

def isPieceChar (c : Char) : Bool :=
  c.isAlphanum || c == '-'

inductive Stage
  | unmarked
  | marked
  deriving DecidableEq, Repr

def form : Form Stage where
  first := .unmarked
  next?
    | .unmarked, c =>
      if isPieceChar c then some .unmarked else if c = mark then some .marked else none
    | .marked, c => if isPieceChar c || c == mark then some .marked else none
  mayEnd
    | .unmarked => false
    | .marked => true

def ofPieces? : List (List Char) → Option Wildcard
  | front :: next :: pieces =>
    some {
      front := String.ofList front
      middle := (next :: pieces).dropLast.map String.ofList
      back := String.ofList ((next :: pieces).getLast (List.cons_ne_nil _ _)) }
  | _ => none

def read? (text : List Char) : Option Wildcard :=
  if form.admits text then ofPieces? (text.splitOn mark) else none

end HostPattern.Wildcard
