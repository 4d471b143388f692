import HostPattern.SerialRange
import HostPattern.Text.Form

/-!
The text of a serial range: `LEFT~DIGITS LETTERS` without the blank, where the
digits write the last number and the letters end every name.
-/

namespace HostPattern.SerialRange

open Text

structure Parts where
  left : List Char
  digits : List Char
  letters : List Char
  deriving DecidableEq, Repr

namespace Parts

def separator : Char := '~'

def write (parts : Parts) : List Char :=
  parts.left ++ separator :: (parts.digits ++ parts.letters)

def WellFormed (parts : Parts) : Prop :=
  parts.left ≠ [] ∧ (∀ c ∈ parts.left, c.isAlphanum = true) ∧
  parts.digits ≠ [] ∧ (∀ c ∈ parts.digits, c.isDigit = true) ∧
  ∀ c ∈ parts.letters, c.isAlpha = true

inductive Stage
  | start
  | left
  | separator
  | digits
  | letters
  deriving DecidableEq, Repr

/-- Letters and digits, the separator, digits, letters; the last may be missing. -/
def form : Form Stage where
  first := .start
  next?
    | .start, c => if c.isAlphanum then some .left else none
    | .left, c =>
      if c.isAlphanum then some .left else if c = separator then some .separator else none
    | .separator, c => if c.isDigit then some .digits else none
    | .digits, c =>
      if c.isDigit then some .digits else if c.isAlpha then some .letters else none
    | .letters, c => if c.isAlpha then some .letters else none
  mayEnd
    | .start => false
    | .left => false
    | .separator => false
    | .digits => true
    | .letters => true

/-- The parts of a text with a separator.  The digits are those that begin the right
side, the letters what follows its last digit. -/
def split? (text : List Char) : Option Parts :=
  match text.dropWhile (· != separator) with
  | [] => none
  | _ :: right =>
    some {
      left := text.takeWhile (· != separator)
      digits := right.takeWhile Char.isDigit
      letters := (right.reverse.takeWhile (!·.isDigit)).reverse }

def read? (text : List Char) : Option Parts :=
  if form.admits text then split? text else none

/-- How many characters of each name the number and the letters take. -/
def needed (parts : Parts) : Nat :=
  parts.digits.length + parts.letters.length

def before (parts : Parts) : List Char :=
  parts.left.take (parts.left.length - parts.needed)

/-- The part of the left side that stands for the first number. -/
def firstDigits (parts : Parts) : List Char :=
  (parts.left.drop (parts.left.length - parts.needed)).take parts.digits.length

end Parts

end HostPattern.SerialRange
