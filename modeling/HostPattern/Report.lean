import HostPattern.Folder
import HostPattern.Styled

/-!
What is shown of a check: verdicts, explanations and folders as styled lines,
and whole reports as JSON values.
-/

namespace HostPattern.Report

/-- The verdict on a name, which is given where there are several. -/
def verdict (name : Option String) (matched : Bool) : Block :=
  (match name with
    | some name => [.text (name ++ ": ")]
    | none => []) ++
  [.style (if matched then .green else .red), .text (if matched then "true" else "false"),
    .reset, .text "\n"]

/-- What the text `raw` reads as; none if the pattern has no description. -/
def explanation? (raw : String) (pattern : Pattern) (error : Option PatternError) :
    Option Block := do
  let description ← pattern.describe?
  return [.style .bold, .text raw, .reset, .text ": "] ++
    match error with
    | some error =>
      [.style .yellow, .text description, .reset, .text (" (" ++ error.message ++ ")\n")]
    | none => [.style .dim, .text description, .reset, .text "\n"]

def folder (name : Option String) (folder : Folder) : Block :=
  (match name with
    | some name => [.style .dim, .text (name ++ ": "), .reset]
    | none => []) ++
  [.style .green, .text folder.name, .reset, .text "\n"]

def document (value : Json) : Block :=
  [.json value, .text "\n"]

def ofPattern? (raw : String) (pattern : Pattern) (results : List (String × Bool)) :
    Option Json := do
  let description ← pattern.describe?
  return .obj [
    ("pattern", .str raw),
    ("kind", .str pattern.kind),
    ("description", .str description),
    ("results", .arr (results.map fun (name, matched) =>
      .obj [("name", .str name), ("matched", .bool matched)]))]

def ofFolders (directory : String) (folders : List Folder)
    (results : List (String × List Folder)) : Json :=
  .obj [
    ("directory", .str directory),
    ("folders", .arr (folders.map fun folder =>
      .obj [("name", .str folder.name), ("kind", .str folder.pattern.kind)])),
    ("results", .arr (results.map fun (name, matched) =>
      .obj [("name", .str name), ("matched", .arr (matched.map fun folder => .str folder.name))]))]

end HostPattern.Report
