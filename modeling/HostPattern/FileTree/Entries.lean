import HostPattern.FileTree.Lookup

/-!
Trees that grow entry by entry.  The path of an entry begins at the root or at the
working directory; a directory brings the directories above it with it.
-/

namespace HostPattern.FileTree

open Text

def makeDir (tree : FileTree) (place : Place) : List Bytes → FileTree
  | [] => tree
  | name :: names =>
    match tree.walk maxLinks place [name] with
    | .ok (.dir next) => tree.makeDir next names
    | .error .missing => (tree.insert (name :: place) .dir).makeDir (name :: place) names
    | _ => tree

/-- The tree with a file at the end of the names.  Where a link stands there, the file
is the one that the link names, through at most so many links. -/
def makeFile (tree : FileTree) (links : Nat) (place : Place) (names : List Bytes) : FileTree :=
  match tree.walk links place names.dropLast, names.getLast? with
  | .ok (.dir above), some name =>
    match tree.node? above name, links with
    | some (.link target), links + 1 => tree.makeFile links (start above target) (steps target)
    | _, _ => tree.insert (name :: above) .file
  | _, _ => tree

def makeLink (tree : FileTree) (place : Place) (names : List Bytes) (target : Bytes) : FileTree :=
  match tree.walk maxLinks place names.dropLast, names.getLast? with
  | .ok (.dir above), some name => tree.insert (name :: above) (.link target)
  | _, _ => tree

def make (tree : FileTree) (entry : Bytes × Node) : FileTree :=
  let (path, node) := entry
  let place := start tree.working path
  match node with
  | .dir => tree.makeDir place (steps path)
  | .file => tree.makeFile maxLinks place (steps path)
  | .link target => tree.makeLink place (steps path) target

/-- The tree with another working directory, if the path leads to one. -/
def enter (tree : FileTree) (path : Bytes) : FileTree :=
  match leads : tree.resolve path with
  | .ok (.dir place) => { tree with working := place, working_isDir := isDir_of_resolve leads }
  | _ => tree

/-- The entries, made from the working directory that has the given path. -/
def ofEntriesIn (working : Bytes) (entries : List (Bytes × Node)) : FileTree :=
  entries.foldl make ((empty.make (working, .dir)).enter working)

/-- A working directory that stands for any below the root. -/
def someWorking : Bytes :=
  Utf8.encode "/some/directory"

def ofEntries (entries : List (Bytes × Node)) : FileTree :=
  ofEntriesIn someWorking entries

end HostPattern.FileTree
