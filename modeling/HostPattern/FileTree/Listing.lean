import HostPattern.FileTree.Entries

/-!
Trees as one text.  Each entry has three fields that end with a zero byte: the
letter of its kind, its path from the working directory or the root, and for a
link the path that it leads to.  `find . -mindepth 1 -printf '%y\0%P\0%l\0'`
writes such a text.
-/

namespace HostPattern.FileTree

open Text

def fields (text : Bytes) : List Bytes :=
  (text.splitOn 0).dropLast

/-- The node of a kind: `d` for a directory and `l` for a link. -/
def nodeOfKind (kind target : Bytes) : Node :=
  if kind = Utf8.encode "d" then .dir
  else if kind = Utf8.encode "l" then .link target
  else .file

def entriesOfFields : List Bytes → List (Bytes × Node)
  | kind :: path :: target :: rest => (path, nodeOfKind kind target) :: entriesOfFields rest
  | _ => []

def ofListing (working text : Bytes) : FileTree :=
  ofEntriesIn working (entriesOfFields (fields text))

end HostPattern.FileTree
