import HostPattern.Styled
import HostPattern.Text.Printable

/-!
Notices: what is said in place of an answer.  On a terminal some of their words
stand out; anywhere else they are written without what could steer a terminal.
Each part that stands out is ended by a sequence of its own, so that no part
changes what is shown of the next.
-/

namespace HostPattern

open Text

inductive Accent
  | plain
  | heading
  /-- What is typed as it stands. -/
  | literal
  /-- What is wrong in the arguments. -/
  | mistake
  | alarm
  deriving DecidableEq, Repr

def Accent.codes : Accent → List String
  | .plain => []
  | .heading => ["1", "4"]
  | .literal => ["1"]
  | .mistake => ["33"]
  | .alarm => ["1", "31"]

structure Span where
  accent : Accent
  text : String
  deriving DecidableEq, Repr

abbrev Notice := List Span

namespace Span

def plain (text : String) : Span := ⟨.plain, text⟩

def content (span : Span) : String :=
  String.ofList (printable span.text.toList)

/-- What is written of the span.  With accents its text is written as it stands. -/
def render (accents : Bool) (span : Span) : String :=
  if accents then
    match span.accent.codes with
    | [] => span.text
    | codes => String.join (codes.map Segment.escape) ++ span.text ++ Segment.escape "0"
  else String.ofList (passed span.text.toList)

end Span

namespace Notice

def content (notice : Notice) : String :=
  String.join (notice.map Span.content)

def render (accents : Bool) (notice : Notice) : String :=
  String.join (notice.map (Span.render accents))

def length (notice : Notice) : Nat :=
  (notice.flatMap (·.text.toList)).length

end Notice

end HostPattern
