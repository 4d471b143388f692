import HostPattern.FileTree.Lookup
import HostPattern.Folder

/-!
The folders of a directory.  Links are followed; a link that leads nowhere, or
back to the directory itself, spoils the whole scan, even where its name is
hidden.
-/

namespace HostPattern

open Text

inductive ScanError
  | notDirectory (dir : Bytes)
  | deadLink (path : Bytes) (error : LookupError)
  /-- A link back to the directory. -/
  | loop (path dir : Bytes)
  deriving DecidableEq, Repr

namespace Folder

def visibleName? (name : Bytes) : Option String :=
  let text := Utf8.decodeLossy name
  if text.toList.head? = some '.' then none else some text

def nameOfEntry (tree : FileTree) (dir : Bytes) (place : Place) (entry : Bytes × Node) :
    Except ScanError (Option String) :=
  match entry with
  | (name, .dir) => .ok (visibleName? name)
  | (_, .file) => .ok none
  | (name, .link _) =>
    let path := FileTree.entryPath dir name
    match tree.resolve path with
    | .error error => .error (.deadLink path error)
    | .ok .file => .ok none
    | .ok (.dir target) =>
      if target = place then .error (.loop path dir) else .ok (visibleName? name)

/-- The names of the visible folders of a directory, in the order of their bytes. -/
def scan (tree : FileTree) (dir : Bytes) : Except ScanError (List String) :=
  match tree.resolve dir with
  | .ok (.dir place) => do
    let names ← (tree.listing place).mapM (nameOfEntry tree dir place)
    return (names.filterMap id).mergeSort Utf8.le
  | .ok .file => .error (.notDirectory dir)
  | .error _ => .error (.notDirectory dir)

def load (tree : FileTree) (dir : Bytes) (sequential : Bool) : Except ScanError (List Folder) :=
  (scan tree dir).map (ofNames sequential)

end Folder

end HostPattern
