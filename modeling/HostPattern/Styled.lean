import HostPattern.Json

/-!
Lines of output as segments: what is written in any case, and the styles that
are written only to a terminal that shows colours.
-/

namespace HostPattern

open Text

inductive Style
  | bold
  | dim
  | red
  | green
  | yellow
  deriving DecidableEq, Repr

def Style.code : Style → String
  | .bold => "1"
  | .dim => "2"
  | .red => "31"
  | .green => "32"
  | .yellow => "33"

inductive Segment
  | text (content : String)
  | json (value : Json)
  /-- From here on in this style and in no other. -/
  | style (kind : Style)
  /-- From here on in no style. -/
  | reset

namespace Segment

def escape (code : String) : String :=
  "\x1b[" ++ code ++ "m"

def content : Segment → String
  | .text content => content
  | .json value => value.pretty
  | .style _ => ""
  | .reset => ""

/-- What is written.  A style ends the style before it. -/
def render (colour : Bool) : Segment → String
  | .text content => content
  | .json value => value.pretty
  | .style kind => if colour then escape "0" ++ escape kind.code else ""
  | .reset => if colour then escape "0" else ""

end Segment

/-- One or more lines of output that are written together. -/
abbrev Block := List Segment

namespace Block

def render (colour : Bool) (block : Block) : String :=
  String.join (block.map (Segment.render colour))

end Block

/-- Whether styles are written: if wanted, if the terminal's kind is known and is not
`dumb`, and if the environment does not forbid it. -/
def showsColour (wanted : Bool) (term noColor : Option Bytes) : Bool :=
  wanted && term.isSome && term != some (Utf8.encode "dumb") && noColor.isNone

end HostPattern
