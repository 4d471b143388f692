import HostPattern.Decimal
import HostPattern.Text.Utf8

/-!
Where output goes, and what the environment says about showing it: whether
notices have accents, and how wide they are.
-/

namespace HostPattern

open Text

inductive Sink
  | pipe
  | terminal (columns : Nat)
  /-- A device on which every write fails. -/
  | full
  deriving DecidableEq, Repr

def Sink.isTerminal : Sink → Bool
  | .terminal _ => true
  | .pipe => false
  | .full => false

/-- The variables of the environment that tell how to show output, where they are set. -/
structure Display where
  term : Option Bytes
  noColor : Option Bytes
  cliColor : Option Bytes
  cliColorForce : Option Bytes
  ci : Option Bytes
  columns : Option Bytes
  deriving DecidableEq, Repr

namespace Display

def isFilled (content : Option Bytes) : Bool :=
  content.any (· != [])

def knowsColour (display : Display) : Bool :=
  display.term.any (· != Utf8.encode "dumb")

/-- Whether colours are turned off by `CLICOLOR`. -/
def isPlain (display : Display) : Bool :=
  display.cliColor == some (Utf8.encode "0")

/-- Whether notices have accents.  The environment may forbid or force them; else they
are for terminals that show colours, or are said to. -/
def accents (display : Display) (onTerminal : Bool) : Bool :=
  if isFilled display.noColor then false
  else if isFilled display.cliColorForce then true
  else if display.isPlain then false
  else onTerminal && (display.knowsColour || display.cliColor.isSome || display.ci.isSome)

def withoutPlus : List Char → List Char
  | '+' :: digits => digits
  | digits => digits

def namedWidth? (display : Display) : Option Nat := do
  let text ← Utf8.decode? (← display.columns)
  let width ← Decimal.parse? (withoutPlus text.toList)
  return width.toNat

def usualWidth : Nat := 100

/-- The width of lines: the terminal's own, or else the one that is named. -/
def width (display : Display) : Sink → Nat
  | .terminal columns => columns
  | .pipe => display.namedWidth?.getD usualWidth
  | .full => display.namedWidth?.getD usualWidth

end Display

end HostPattern
