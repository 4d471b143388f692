import HostPattern.CommandLine
import HostPattern.Text.Lines

/-!
The notices that tell what the program does.  In the help, what can be typed
stands in one column and what it means in the next, or below it where that
would leave too little room.
-/

namespace HostPattern.Help

open Text

structure Entry where
  label : Notice
  meaning : String

def optionLabel (choice : Choice) : Notice :=
  (match choice.short? with
    | some letter => [⟨.literal, String.ofList ['-', letter]⟩, .plain ", "]
    | none => [.plain "    "]) ++
  ⟨.literal, "--" ++ choice.long⟩ ::
    match choice with
    | .dir => [.plain " <DIR>"]
    | _ => []

def optionMeaning : Choice → String
  | .dir => "Use the sub-folder names of DIR as patterns and report which ones match"
  | .flag .explain => "Show how each pattern was compiled, or why it is unusable"
  | .flag .json => "Print results as JSON"
  | .flag .sequential => "Compile folder patterns sequentially instead of in parallel"
  | .flag .noColor => "Disable colored output"
  | .help => "Print help"
  | .version => "Print version"

def words : List Entry :=
  [⟨[.plain "[PATTERN]"],
      "Pattern to test, e.g. \"Host001~010\" or \"Web%\". " ++
        "With --dir this is the first name to check"⟩,
    ⟨[.plain "[NAMES]..."], "Names to check (defaults to this machine's name)"⟩]

def options : List Entry :=
  Choice.all.map fun choice => ⟨optionLabel choice, optionMeaning choice⟩

/-- The blanks before a label, and after the longest one. -/
def margin : Nat := 2

/-- The blanks before a meaning that stands below its label. -/
def belowMargin : Nat := 10

def blanks (count : Nat) : String :=
  String.ofList (List.replicate count ' ')

def column (entries : List Entry) : Nat :=
  (entries.map (·.label.length)).foldl max 0 + 2 * margin

/-- Whether the meanings stand below their labels: if the column begins after two fifths
of the line and leaves no room for one of them. -/
def standsBelow (width : Nat) (entries : List Entry) : Bool :=
  column entries ≤ width && 2 * width < 5 * column entries &&
    entries.any fun entry => width - column entries < entry.meaning.length

def indented (width indent : Nat) (text : String) : String :=
  String.intercalate ("\n" ++ blanks indent)
    ((wrap (width - indent) text.toList).map String.ofList)

def besideLabel (width column : Nat) (entry : Entry) : Notice :=
  .plain (blanks margin) :: entry.label ++
    [.plain (blanks (column - margin - entry.label.length) ++ indented width column entry.meaning)]

def belowLabel (width : Nat) (entry : Entry) : Notice :=
  .plain (blanks margin) :: entry.label ++
    [.plain ("\n" ++ blanks belowMargin ++ indented width belowMargin entry.meaning)]

def part (width : Nat) (title : String) (entries : List Entry) : Notice :=
  let shown := if standsBelow width entries then belowLabel width
    else besideLabel width (column entries)
  ⟨.heading, title⟩ :: entries.flatMap fun entry => .plain "\n" :: shown entry

def purpose : String :=
  "Match host and folder names against serial-range (Host001~010) and wildcard (Web%) patterns"

/-- The help in lines of a width, as far as its words allow. -/
def notice (width : Nat) : Notice :=
  .plain (indented width 0 purpose ++ "\n\n") ::
    ⟨.heading, "Usage:"⟩ :: .plain " " :: ⟨.literal, "namepat"⟩ ::
    .plain " [OPTIONS] [PATTERN] [NAMES]...\n\n" :: part width "Arguments:" words ++
    .plain "\n\n" :: part width "Options:" options ++ [.plain "\n"]

def version : String :=
  "namepat 0.1.0\n"

end HostPattern.Help
