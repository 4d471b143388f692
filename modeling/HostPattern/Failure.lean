import HostPattern.Folder.Scan

/-!
Why a run fails, and how it says so: the failure itself, and below it its
causes, the nearest first.
-/

namespace HostPattern

open Text

/-- Why a run fails once its command line is read. -/
inductive Failure
  | noMachineName
  | noPattern
  | scan (error : ScanError)
  /-- A line could not be written. -/
  | write
  /-- A JSON document could not be written. -/
  | writeJson
  deriving DecidableEq, Repr

/-- What the system says where there is no room for output. -/
def noSpace : String :=
  "No space left on device (os error 28)"

namespace ScanError

def causes : ScanError → List String
  | .notDirectory _ => []
  | .deadLink path error =>
    ["IO error for operation on " ++ Utf8.decodeLossy path ++ ": " ++ error.message,
      error.message]
  | .loop path dir =>
    ["File system loop found: " ++ Utf8.decodeLossy path ++ " points to an ancestor " ++
      Utf8.decodeLossy dir]

def message (error : ScanError) : String :=
  match error with
  | .notDirectory dir => "Pattern directory '" ++ Utf8.decodeLossy dir ++ "' is not a directory"
  | other => "Walkdir error: " ++ other.causes.headD ""

end ScanError

namespace Failure

def message : Failure → String
  | .noMachineName => "Could not determine the machine name"
  | .noPattern => "a pattern is required unless --dir is given"
  | .scan error => error.message
  | .write => "IO error: " ++ noSpace
  | .writeJson => "JSON error: " ++ noSpace

def causes : Failure → List String
  | .noMachineName => []
  | .noPattern => []
  | .scan error => error.causes
  | .write => [noSpace]
  | .writeJson => [noSpace]

/-- A text whose lines after the first stand under the first. -/
def indented (margin : Nat) (text : String) : String :=
  String.ofList (text.toList.flatMap fun c =>
    if c = '\n' then '\n' :: List.replicate margin ' ' else [c])

def causesText : List String → String
  | [] => ""
  | [cause] => "\n\nCaused by:\n    " ++ indented 4 cause
  | causes =>
    "\n\nCaused by:" ++ String.join (causes.mapIdx fun i cause =>
      "\n    " ++ i.repr ++ ": " ++ indented 7 cause)

def report (failure : Failure) : String :=
  "Error: " ++ failure.message ++ causesText failure.causes ++ "\n"

end Failure

end HostPattern
