import HostPattern.Pattern

/-!
Folders whose names are patterns.
-/

namespace HostPattern

structure Folder where
  name : String
  reading : Except PatternError Pattern

namespace Folder

def ofName (name : String) : Folder :=
  ⟨name, Pattern.parse name⟩

def pattern (folder : Folder) : Pattern :=
  match folder.reading with
  | .ok pattern => pattern
  | .error _ => .unavailable

def error? (folder : Folder) : Option PatternError :=
  match folder.reading with
  | .ok _ => none
  | .error error => some error

@[simp] theorem name_ofName (name : String) : (ofName name).name = name := rfl

def accepts (folder : Folder) (name : String) : Bool :=
  folder.pattern.accepts name

/-- The folders with the given names.  Each name is read on its own, one after the
other if `sequential`, else all at once; the order is that of the names. -/
def ofNames (sequential : Bool) (names : List String) : List Folder :=
  if sequential || names.length == 1 then names.map ofName
  else (names.map fun name => Task.spawn fun _ => ofName name).map Task.get

theorem ofNames_eq_map (sequential : Bool) (names : List String) :
    ofNames sequential names = names.map ofName := by
  unfold ofNames
  split
  · rfl
  · rw [List.map_map]
    rfl

def matching (folders : List Folder) (name : String) : List Folder :=
  folders.filter (·.accepts name)

end Folder

end HostPattern
