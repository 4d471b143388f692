import HostPattern.SerialRange.Text
import HostPattern.Wildcard.Expression
import HostPattern.Wildcard.Text

/-!
Name patterns.  A text is read as a serial range (`Host001~010`) or else as a
wildcard (`Web%`); the two never mix, and any other text is unavailable as a
pattern and accepts nothing.
-/

namespace HostPattern

inductive PatternError
  | unrecognized (raw : String)
  /-- The left side of a range has no room for the number and the letters. -/
  | leftTooShort (left : String) (needed : Nat)
  | endTooLarge (digits : String)
  | tooManyGaps
  deriving DecidableEq, Repr

def PatternError.message : PatternError → String
  | .unrecognized raw => "'" ++ raw ++ "' is neither a range pattern nor a wildcard pattern"
  | .leftTooShort left needed =>
    "left side '" ++ left ++ "' is shorter than the " ++ needed.repr ++
      " characters taken by the number and suffix"
  | .endTooLarge digits => "range end '" ++ digits ++ "' is too large"
  | .tooManyGaps =>
    "failed to build wildcard regex: Compiled regex exceeds size limit of 10485760 bytes."

/-- A name pattern; `unavailable` accepts nothing. -/
inductive Pattern
  | unavailable
  | serial (range : SerialRange)
  | wild (wildcard : Wildcard)
  deriving DecidableEq, Repr

/-- The range with the given parts.  A left side that writes no number starts it at zero. -/
def SerialRange.ofParts (parts : SerialRange.Parts) : Except PatternError SerialRange :=
  if parts.left.length < parts.needed then
    .error (.leftTooShort (String.ofList parts.left) parts.needed)
  else
    match Decimal.parse? parts.digits with
    | none => .error (.endTooLarge (String.ofList parts.digits))
    | some last =>
      .ok {
        before := String.ofList parts.before
        after := String.ofList parts.letters
        width := parts.digits.length
        first := (Decimal.parse? parts.firstDigits).getD 0
        last := last }

namespace Pattern

def maxGaps : Nat := 10000

def parse (raw : String) : Except PatternError Pattern :=
  match SerialRange.Parts.read? raw.toList with
  | some parts => (SerialRange.ofParts parts).map .serial
  | none =>
    match Wildcard.read? raw.toList with
    | some wildcard =>
      if wildcard.gaps ≤ maxGaps then .ok (.wild wildcard) else .error .tooManyGaps
    | none => .error (.unrecognized raw)

def compile (raw : String) : Pattern :=
  match parse raw with
  | .ok pattern => pattern
  | .error _ => .unavailable

def accepts (pattern : Pattern) (name : String) : Bool :=
  match pattern with
  | .unavailable => false
  | .serial range => range.accepts name
  | .wild wildcard => wildcard.accepts name

def Matches (pattern : Pattern) (name : String) : Prop :=
  match pattern with
  | .unavailable => False
  | .serial range => range.Matches name
  | .wild wildcard => wildcard.Matches name

def isAvailable : Pattern → Bool
  | .unavailable => false
  | .serial _ => true
  | .wild _ => true

def kind : Pattern → String
  | .unavailable => "unavailable"
  | .serial _ => "range"
  | .wild _ => "wildcard"

/-- What the pattern accepts, in words; a range that is too wide to be written has
no description. -/
def describe? : Pattern → Option String
  | .unavailable => some "unavailable"
  | .serial range => do
    let ends ← range.endsText?
    if range.isEmpty then return "range " ++ ends ++ " (empty)"
    return "range " ++ ends ++ " (" ++ range.size.repr ++ " names)"
  | .wild wildcard => some ("wildcard /" ++ wildcard.regex ++ "/")

end Pattern

end HostPattern
