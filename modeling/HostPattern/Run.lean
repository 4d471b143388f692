import HostPattern.CommandLine.Help
import HostPattern.CommandLine.Reader
import HostPattern.Display
import HostPattern.Failure
import HostPattern.MachineName
import HostPattern.Report

/-!
A whole run: from the arguments and what the system says to the exit status and
the output.  A run first plans what to print and whether it succeeds, and then
prints it.
-/

namespace HostPattern

open Text

structure Setting where
  tree : FileTree
  sources : NameSources
  display : Display
  sink : Sink
  /-- Whether standard error goes to a terminal. -/
  errorsOnTerminal : Bool

structure Outcome where
  exit : Nat
  stdout : String
  stderr : String
  deriving DecidableEq, Repr

/-- One write, to standard output or, in plain text, to standard error. -/
inductive Step
  | print (block : Block)
  | warn (line : String)

/-- What is to be written, and whether the answer is yes. -/
structure Plan where
  steps : List Step
  success : Bool

namespace Plan

/-- Names stand beside their results where there are several. -/
def label (names : List String) (name : String) : Option String :=
  if 1 < names.length then some name else none

/-- The check of names against one pattern; none if the pattern has to be described
and cannot be. -/
def ofPattern? (line : CommandLine) (raw : String) (names : List String) : Option Plan := do
  let folder := Folder.ofName raw
  let results := names.map fun name => (name, folder.accepts name)
  let success := results.all (·.2)
  if line.json then
    let report ← Report.ofPattern? raw folder.pattern results
    return ⟨[.print (Report.document report)], success⟩
  let explanations ←
    if line.explain then (Report.explanation? raw folder.pattern folder.error?).map ([·])
    else some []
  let verdicts := results.map fun (name, matched) => Report.verdict (label names name) matched
  return ⟨(explanations ++ verdicts).map .print, success⟩

def folderSteps (directory : String) (names : List String) (name : String)
    (matched : List Folder) : List Step :=
  if matched.isEmpty then [.warn ("No folder in " ++ directory ++ " matches " ++ name ++ "\n")]
  else matched.map fun folder => .print (Report.folder (label names name) folder)

/-- The search for the folders of a directory that accept names; none if a folder has
to be described and cannot be. -/
def ofFolders? (line : CommandLine) (directory : String) (folders : List Folder)
    (names : List String) : Option Plan := do
  let results := names.map fun name => (name, Folder.matching folders name)
  let success := results.all (!·.2.isEmpty)
  if line.json then
    return ⟨[.print (Report.document (Report.ofFolders directory folders results))], success⟩
  let explanations ←
    if line.explain then
      folders.mapM fun folder => Report.explanation? folder.name folder.pattern folder.error?
    else some []
  let found := results.flatMap fun (name, matched) => folderSteps directory names name matched
  return ⟨explanations.map .print ++ found, success⟩

end Plan

/-- What a device without room makes of a block: lines are handed on when they end. -/
def Block.fault? (block : Block) : Option Failure :=
  block.findSome? fun segment =>
    if '\n' ∈ segment.content.toList then
      match segment with
      | .json _ => some .writeJson
      | _ => some .write
    else none

/-- What was written before the end or the first failure. -/
structure Transcript where
  stdout : String
  stderr : String
  failure : Option Failure
  deriving DecidableEq, Repr

def Transcript.ofSteps (sink : Sink) (colour : Bool) : List Step → Transcript
  | [] => ⟨"", "", none⟩
  | .warn line :: steps =>
    let rest := ofSteps sink colour steps
    { rest with stderr := line ++ rest.stderr }
  | .print block :: steps =>
    match if sink = .full then block.fault? else none with
    | some failure => ⟨"", "", some failure⟩
    | none =>
      let rest := ofSteps sink colour steps
      { rest with stdout := block.render colour ++ rest.stdout }

namespace Outcome

def ofPlan (sink : Sink) (colour : Bool) (plan : Plan) : Outcome :=
  let transcript := Transcript.ofSteps sink colour plan.steps
  match transcript.failure with
  | some failure => ⟨1, transcript.stdout, transcript.stderr ++ failure.report⟩
  | none => ⟨if plan.success then 0 else 1, transcript.stdout, transcript.stderr⟩

/-- The end of a run that only shows a text, which need not be written in full. -/
def ofText (sink : Sink) (text : String) : Outcome :=
  ⟨0, if sink = .full then "" else text, ""⟩

end Outcome

def namesToCheck (line : CommandLine) (sources : NameSources) : Except Failure (List String) :=
  match line.givenNames with
  | [] =>
    match sources.machineName? with
    | some name => .ok [name]
    | none => .error .noMachineName
  | names => .ok names

/-- The plan of a run; none in it if a pattern has to be described and cannot be. -/
def plan (line : CommandLine) (setting : Setting) : Except Failure (Option Plan) := do
  let names ← namesToCheck line setting.sources
  match line.dir, line.words with
  | some dir, _ =>
    let folders ← (Folder.load setting.tree dir line.sequential).mapError .scan
    return Plan.ofFolders? line (Utf8.decodeLossy dir) folders names
  | none, raw :: _ => return Plan.ofPattern? line raw names
  | none, [] => throw .noPattern

/-- The outcome of a run.  There is none if the run breaks off because it has to
describe a range that is too wide to be written. -/
def run (arguments : List Bytes) (setting : Setting) : Option Outcome :=
  match CommandLine.read arguments with
  | .error .help =>
    let notice := Help.notice (setting.display.width setting.sink)
    some (.ofText setting.sink
      (notice.render (setting.display.accents setting.sink.isTerminal)))
  | .error .version => some (.ofText setting.sink Help.version)
  | .error (.usage error) =>
    let accents := setting.display.accents setting.errorsOnTerminal
    some ⟨2, "", error.notice.render accents ++ "\n"⟩
  | .ok line =>
    let colour := showsColour (!line.noColor && setting.sink.isTerminal) setting.display.term
      setting.display.noColor
    match plan line setting with
    | .error failure => some ⟨1, "", failure.report⟩
    | .ok none => none
    | .ok (some plan) => some (.ofPlan setting.sink colour plan)

end HostPattern
