import HostPattern.FileTree

/-!
Where a path leads: `walk` finds the end of a way that follows no more links than
allowed, or the first fault on it.
-/

namespace HostPattern

open Text

inductive LookupError
  | missing
  | notDirectory
  | tooManyLinks
  | nameTooLong
  deriving DecidableEq, Repr

def LookupError.message : LookupError → String
  | .missing => "No such file or directory (os error 2)"
  | .notDirectory => "Not a directory (os error 20)"
  | .tooManyLinks => "Too many levels of symbolic links (os error 40)"
  | .nameTooLong => "File name too long (os error 36)"

inductive Found
  | dir (place : Place)
  | file
  deriving DecidableEq, Repr

namespace FileTree

def maxPath : Nat := 4095

def maxLinks : Nat := 40

/-- Where a path that is met at a place begins: with a slash in front, at the root. -/
def start (place : Place) (path : Bytes) : Place :=
  if path.head? = some slash then .root else place

def steps (path : Bytes) : List Bytes :=
  path.splitOn slash

def walk (tree : FileTree) (links : Nat) (place : Place) : List Bytes → Except LookupError Found
  | [] => .ok (.dir place)
  | name :: names =>
    if name = [] ∨ name = dot then tree.walk links place names
    else if name = dotDot then tree.walk links place.parent names
    else if maxName < name.length then .error .nameTooLong
    else
      match tree.node? place name with
      | none => .error .missing
      | some .dir => tree.walk links (name :: place) names
      | some .file => if names = [] then .ok .file else .error .notDirectory
      | some (.link target) =>
        if links = 0 then .error .tooManyLinks
        else tree.walk (links - 1) (start place target) (steps target ++ names)
termination_by names => (links, names.length)

def resolve (tree : FileTree) (path : Bytes) : Except LookupError Found :=
  if path = [] then .error .missing
  else if maxPath < path.length then .error .nameTooLong
  else tree.walk maxLinks (start tree.working path) (steps path)

/-- The path of an entry, by way of the path of its directory. -/
def entryPath (dir name : Bytes) : Bytes :=
  if dir = [] ∨ dir.getLast? = some slash then dir ++ name else dir ++ slash :: name

section Reached

variable {tree : FileTree} {place : Place}

theorem isDir_start (isDir : IsDir tree.entries place) (path : Bytes) :
    IsDir tree.entries (start place path) := by
  unfold start
  split
  · exact .inl rfl
  · exact isDir

/-- A way from a directory only ends at a directory that is there. -/
theorem isDir_of_walk {links : Nat} {names : List Bytes} {last : Place}
    (isDir : IsDir tree.entries place) (reached : tree.walk links place names = .ok (.dir last)) :
    IsDir tree.entries last := by
  fun_induction walk tree links place names with
  | case1 links place =>
    cases reached
    exact isDir
  | case2 _ _ _ _ _ inductionHypothesis => exact inductionHypothesis isDir reached
  | case3 _ _ _ _ inductionHypothesis => exact inductionHypothesis (isDir_parent isDir) reached
  | case4 | case5 | case7 | case8 | case9 => cases reached
  | case6 _ _ _ _ _ _ _ node inductionHypothesis =>
    exact inductionHypothesis (.inr (mem_of_node? node)) reached
  | case10 _ _ _ _ _ _ _ _ _ _ inductionHypothesis =>
    exact inductionHypothesis (isDir_start isDir _) reached

theorem isDir_of_resolve {path : Bytes} (reached : tree.resolve path = .ok (.dir place)) :
    IsDir tree.entries place := by
  unfold resolve at reached
  split at reached
  · cases reached
  · split at reached
    · cases reached
    · exact isDir_of_walk (isDir_start tree.working_isDir path) reached

end Reached

end FileTree

end HostPattern
