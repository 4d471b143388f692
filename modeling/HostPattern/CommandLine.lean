import HostPattern.Notice

/-!
What a command line asks for, and the options and mistakes it may hold.
-/

namespace HostPattern

open Text

inductive Flag
  | explain
  | json
  | sequential
  | noColor
  deriving DecidableEq, Repr

/-- What is asked for: the words outside of options, in order, and the options. -/
structure CommandLine where
  words : List String
  dir : Option Bytes
  explain : Bool
  json : Bool
  sequential : Bool
  noColor : Bool
  deriving DecidableEq, Repr

namespace CommandLine

def empty : CommandLine := ⟨[], none, false, false, false, false⟩

def has (line : CommandLine) : Flag → Bool
  | .explain => line.explain
  | .json => line.json
  | .sequential => line.sequential
  | .noColor => line.noColor

def set (line : CommandLine) : Flag → CommandLine
  | .explain => { line with explain := true }
  | .json => { line with json := true }
  | .sequential => { line with sequential := true }
  | .noColor => { line with noColor := true }

def pattern? (line : CommandLine) : Option String :=
  line.words.head?

def names (line : CommandLine) : List String :=
  line.words.tail

/-- The names to check: with a directory all words, else all but the pattern. -/
def givenNames (line : CommandLine) : List String :=
  match line.dir with
  | some _ => line.words
  | none => line.names

end CommandLine

/-- What an argument with hyphens in front may stand for. -/
inductive Choice
  | dir
  | flag (flag : Flag)
  | help
  | version
  deriving DecidableEq, Repr

namespace Choice

def all : List Choice :=
  [.dir, .flag .explain, .flag .json, .flag .sequential, .flag .noColor, .help, .version]

theorem mem_all (choice : Choice) : choice ∈ all := by
  cases choice with
  | flag flag => cases flag <;> decide
  | _ => decide

def long : Choice → String
  | .dir => "dir"
  | .flag .explain => "explain"
  | .flag .json => "json"
  | .flag .sequential => "sequential"
  | .flag .noColor => "no-color"
  | .help => "help"
  | .version => "version"

def short? : Choice → Option Char
  | .dir => some 'd'
  | .flag .explain => some 'e'
  | .flag .json => none
  | .flag .sequential => some 's'
  | .flag .noColor => none
  | .help => some 'h'
  | .version => some 'V'

def ofLong? (name : String) : Option Choice :=
  all.find? (·.long = name)

def ofShort? (letter : Char) : Option Choice :=
  all.find? (·.short? = some letter)

def shown (choice : Choice) : String :=
  match choice with
  | .dir => "--dir <DIR>"
  | other => "--" ++ other.long

end Choice

inductive UsageError
  | missingPattern
  | missingDir
  | repeated (choice : Choice)
  | unknown (argument : String)
  | needlessValue (choice : Choice) (value : String)
  | notText
  deriving DecidableEq, Repr

def UsageError.details : UsageError → Notice
  | .missingPattern => [.plain "the following required arguments were not provided:"]
  | .missingDir =>
    [.plain "a value is required for '", ⟨.mistake, Choice.dir.shown⟩,
      .plain "' but none was supplied"]
  | .repeated choice =>
    [.plain "the argument '", ⟨.mistake, choice.shown⟩,
      .plain "' cannot be used multiple times"]
  | .unknown argument =>
    [.plain "unexpected argument '", ⟨.mistake, argument⟩, .plain "' found"]
  | .needlessValue choice value =>
    [.plain "unexpected value '", ⟨.mistake, value⟩, .plain "' for '",
      ⟨.literal, choice.shown⟩, .plain "' found; no more were expected"]
  | .notText => [.plain "invalid UTF-8 was detected in one or more arguments"]

def UsageError.notice (error : UsageError) : Notice :=
  ⟨.alarm, "error:"⟩ :: .plain " " :: error.details

end HostPattern
