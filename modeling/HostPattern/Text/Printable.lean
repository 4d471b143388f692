/-!
What a text shows where it cannot steer a terminal: the text without control
characters, the usual white space aside, and without control sequences.  A
sequence may stay open up to the end of the text.

White space within a sequence is shown, and so is what follows up to the next
control character.  In `printable` this ends the sequence.  In `passed`, which is
for output as it is written, the sequence waits and then goes on.
-/

namespace HostPattern.Text

/-- What the characters so far have begun. -/
inductive Sequence
  | nothing
  | escape
  /-- After it, characters from the blank to the slash. -/
  | selection
  /-- `ESC [`, up to a character from `@` on. -/
  | control
  /-- `ESC ]`, up to the bell. -/
  | command
  /-- `ESC P`, then its parameters, then characters from the blank to the slash. -/
  | device
  | deviceParameters
  | deviceSelection
  /-- A string, up to a byte that ends strings. -/
  | string
  deriving DecidableEq, Repr

namespace Sequence

def isLineSpace (c : Char) : Bool :=
  c == '\t' || c == '\n' || c == '\x0c' || c == '\r'

def showsSpace : Sequence → Bool
  | .nothing => true
  | .escape => true
  | .selection => true
  | .control => true
  | .command => false
  | .device => false
  | .deviceParameters => false
  | .deviceSelection => false
  | .string => false

def shows (sequence : Sequence) (c : Char) : Bool :=
  if isLineSpace c then sequence.showsSpace
  else sequence == .nothing && ' ' ≤ c && c ≠ '\x7f'

/-- The byte that ends strings, also within the bytes of a character. -/
def stringEnd : UInt8 := 0x9C

/-- What a character that is not shown and begins nothing anew makes of the sequence. -/
def proceed (sequence : Sequence) (c : Char) : Sequence :=
  match sequence with
  | .nothing => .nothing
  | .escape =>
    if ' ' ≤ c ∧ c ≤ '/' then .selection
    else if c = '[' then .control
    else if c = ']' then .command
    else if c = 'P' then .device
    else if c = 'X' ∨ c = '^' ∨ c = '_' then .string
    else if '0' ≤ c ∧ c ≤ '~' then .nothing
    else .escape
  | .selection => if '0' ≤ c ∧ c ≤ '~' then .nothing else .selection
  | .control => if '@' ≤ c ∧ c ≤ '~' then .nothing else .control
  | .command => if c = '\x07' then .nothing else .command
  | .device =>
    if ' ' ≤ c ∧ c ≤ '/' then .deviceSelection
    else if '0' ≤ c ∧ c ≤ '?' then .deviceParameters
    else if '@' ≤ c ∧ c ≤ '~' then .string
    else .device
  | .deviceParameters =>
    if ' ' ≤ c ∧ c ≤ '/' then .deviceSelection
    else if '<' ≤ c ∧ c ≤ '~' then .string
    else .deviceParameters
  | .deviceSelection => if '0' ≤ c ∧ c ≤ '~' then .string else .deviceSelection
  | .string => if stringEnd ∈ String.utf8EncodeChar c then .nothing else .string

def next (sequence : Sequence) (c : Char) : Sequence :=
  if c = '\x1b' then .escape
  else if c = '\x18' ∨ c = '\x1a' then .nothing
  else sequence.proceed c

/-- The sequence after a character that is shown.  One that waits is forgotten at the
first character that is not ASCII. -/
def pause (waits : Bool) (sequence : Sequence) (c : Char) : Sequence :=
  if waits && c ≤ '\x7f' then sequence else .nothing

/-- The characters that are shown of a text that goes on after a sequence, or after
characters that are shown within one. -/
def shown (waits inRun : Bool) (sequence : Sequence) : List Char → List Char
  | [] => []
  | c :: text =>
    if (if inRun then .nothing else sequence).shows c then
      c :: shown waits true (sequence.pause waits c) text
    else shown waits false (sequence.next c) text

end Sequence

def printable (text : List Char) : List Char :=
  Sequence.shown false false .nothing text

/-- The text as it is shown by output that is free of control sequences. -/
def passed (text : List Char) : List Char :=
  Sequence.shown true false .nothing text

end HostPattern.Text
