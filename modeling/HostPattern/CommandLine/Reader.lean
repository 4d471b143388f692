import HostPattern.CommandLine

/-!
Reading a command line.  Arguments are read from left to right, and reading
stops at the first mistake, or at a request for help or for the version.  An
argument that gives a value is checked only when the next one is found to be an
option or word, so an argument that is neither is reported before it.
-/

namespace HostPattern

open Text

/-- Why reading stops before the end. -/
inductive Halt
  | help
  | version
  | usage (error : UsageError)
  deriving DecidableEq, Repr

/-- What was read and is not checked yet. -/
inductive Held
  | nothing
  /-- The option for a directory, with or without its value. -/
  | dir (value : Option Bytes)
  | words (words : List Bytes)
  deriving DecidableEq, Repr

/-- A command line that is read in part. -/
structure PartialLine where
  line : CommandLine
  held : Held
  deriving DecidableEq, Repr

namespace PartialLine

def begin : PartialLine := ⟨.empty, .nothing⟩

def setDir (line : CommandLine) (value : Bytes) : Except Halt CommandLine :=
  if line.dir.isSome then .error (.usage (.repeated .dir))
  else if value = [] then .error (.usage .missingDir)
  else .ok { line with dir := some value }

def setFlag (line : CommandLine) (flag : Flag) : Except Halt CommandLine :=
  if line.has flag then .error (.usage (.repeated (.flag flag))) else .ok (line.set flag)

def decodeWords (words : List Bytes) : Except Halt (List String) :=
  match words.mapM Utf8.decode? with
  | some texts => .ok texts
  | none => .error (.usage .notText)

/-- The command line with what was held checked and added. -/
def settle (part : PartialLine) : Except Halt CommandLine :=
  match part.held with
  | .nothing => .ok part.line
  | .dir none => .error (.usage .missingDir)
  | .dir (some value) => setDir part.line value
  | .words words => do
    let texts ← decodeWords words
    return { part.line with words := part.line.words ++ texts }

def take (part : PartialLine) (choice : Choice) : Except Halt PartialLine := do
  let line ← part.settle
  match choice with
  | .dir => return ⟨line, .dir none⟩
  | .flag flag => return ⟨← setFlag line flag, .nothing⟩
  | .help => throw .help
  | .version => throw .version

def takeWith (part : PartialLine) (choice : Choice) (value : Bytes) : Except Halt PartialLine :=
  match choice with
  | .dir => do return ⟨← setDir (← part.settle) value, .nothing⟩
  | _ => .error (.usage (.needlessValue choice (Utf8.decodeLossy value)))

/-- A word.  The words after the first are held together. -/
def addWord (part : PartialLine) (word : Bytes) : Except Halt PartialLine :=
  match part.held, part.line.words with
  | .words words, _ :: _ => .ok { part with held := .words (words ++ [word]) }
  | _, _ => do return ⟨← part.settle, .words [word]⟩

/-- A word, or the value that the option before it waits for. -/
def addValue (part : PartialLine) (word : Bytes) : Except Halt PartialLine :=
  match part.held with
  | .dir none => .ok { part with held := .dir (some word) }
  | _ => part.addWord word

def withoutEquals : Bytes → Bytes
  | 0x3D :: value => value
  | value => value

/-- Letters after one hyphen, and the bytes after them that are no text. -/
def takeLetters (part : PartialLine) : List Char → Bytes → Except Halt PartialLine
  | [], [] => .ok part
  | [], rest => .error (.usage (.unknown ("-" ++ Utf8.decodeLossy rest)))
  | letter :: letters, rest =>
    match Choice.ofShort? letter with
    | none => .error (.usage (.unknown (String.ofList ['-', letter])))
    | some .dir =>
      match Utf8.encodeChars letters ++ rest with
      | [] => part.take .dir
      | value => part.takeWith .dir (withoutEquals value)
    | some choice => do (← part.take choice).takeLetters letters rest

/-- A name after two hyphens, with the value after its equals sign. -/
def takeName (part : PartialLine) (name : Bytes) (value : Option Bytes) : Except Halt PartialLine :=
  match (Utf8.decode? name).bind Choice.ofLong?, value with
  | none, _ => .error (.usage (.unknown ("--" ++ Utf8.decodeLossy name)))
  | some choice, none => part.take choice
  | some choice, some value => part.takeWith choice value

def splitEquals (bytes : Bytes) : Bytes × Option Bytes :=
  match bytes.dropWhile (· != 0x3D) with
  | [] => (bytes, none)
  | _ :: value => (bytes.takeWhile (· != 0x3D), some value)

def takeArgument (part : PartialLine) (argument : Bytes) : Except Halt PartialLine :=
  match argument with
  | 0x2D :: 0x2D :: rest =>
    let (name, value) := splitEquals rest
    part.takeName name value
  | 0x2D :: first :: rest =>
    let (letters, broken) := Utf8.splitValid (first :: rest)
    part.takeLetters letters broken
  | word => part.addValue word

def finish (part : PartialLine) : Except Halt CommandLine := do
  let line ← part.settle
  if line.words.isEmpty && line.dir.isNone then throw (.usage .missingPattern)
  return line

def readWords (part : PartialLine) : List Bytes → Except Halt CommandLine
  | [] => part.finish
  | word :: words => do (← part.addWord word).readWords words

def read (part : PartialLine) : List Bytes → Except Halt CommandLine
  | [] => part.finish
  | argument :: arguments =>
    if argument = [0x2D, 0x2D] then part.readWords arguments
    else do (← part.takeArgument argument).read arguments

end PartialLine

def CommandLine.read (arguments : List Bytes) : Except Halt CommandLine :=
  PartialLine.begin.read arguments

end HostPattern
