import HostPattern.FileTree.Lookup
import HostPattern.Proofs.Lookup
import Mathlib

/-!
# Ways through a file system

A path spells names with slashes between them, and begins at the root if a slash stands in
front.  `Leads` has a rule for each kind of name and each kind of node that a name can stand
for; the names that a link spells take the place of its own.  What is looked up is what ways
lead to that follow no more links than allowed.  The entry of a directory is looked up by
way of the path of the directory, so that both share the links that are allowed.
-/

namespace HostPattern.FileTree

open Text

/-- The path is made of the names, with a slash between each two. -/
inductive Spells : Bytes → List Bytes → Prop
  | last {name} : slash ∉ name → Spells name [name]
  | more {name path names} :
      slash ∉ name → Spells path names → Spells (name ++ slash :: path) (name :: names)

/-- Where a path that is met at a place begins. -/
inductive Begins (place : Place) : Bytes → Place → Prop
  | atRoot {path} : Begins place (slash :: path) .root
  | here {path} : path.head? ≠ some slash → Begins place path place

/-- The names lead from the directory to what is found, through so many links.  To go up is to
leave off the innermost name, if there is one. -/
inductive Leads (tree : FileTree) : Nat → Place → List Bytes → Found → Prop
  | here {place} : Leads tree 0 place [] (.dir place)
  | stay {links place name names found} :
      name = [] ∨ name = dot → Leads tree links place names found →
      Leads tree links place (name :: names) found
  | up {links place names found} :
      Leads tree links place.tail names found → Leads tree links place (dotDot :: names) found
  | down {links place name names found} :
      (name :: place, .dir) ∈ tree.entries → Leads tree links (name :: place) names found →
      Leads tree links place (name :: names) found
  | file {place name} : (name :: place, .file) ∈ tree.entries → Leads tree 0 place [name] .file
  | link {links place name target first more names found} :
      (name :: place, .link target) ∈ tree.entries → Begins place target first →
      Spells target more → Leads tree links first (more ++ names) found →
      Leads tree (links + 1) place (name :: names) found

/-- The path leads from the working directory to what is found, through so many links. -/
def Reaches (tree : FileTree) (links : Nat) (path : Bytes) (found : Found) : Prop :=
  ∃ first names, Begins tree.working path first ∧ Spells path names ∧
    Leads tree links first names found

/-- The path leads to what is found, and neither its length nor the links on the way are
too many. -/
def LeadsTo (tree : FileTree) (path : Bytes) (found : Found) : Prop :=
  path ≠ [] ∧ path.length ≤ maxPath ∧ ∃ links, links ≤ maxLinks ∧ tree.Reaches links path found

/-- The entry of the directory with the path leads to what is found, and neither the length of
both together nor the links on the way to the directory and from there are too many. -/
def EntryLeads (tree : FileTree) (dir name : Bytes) (found : Found) : Prop :=
  dir.length + (if dir.getLast? = some slash then 0 else 1) + name.length ≤ maxPath ∧
    ∃ place before behind, before + behind ≤ maxLinks ∧ tree.Reaches before dir (.dir place) ∧
      Leads tree behind place [name] found

section Paths

variable {path other name : Bytes} {names more : List Bytes} {place first : Place}

theorem steps_append (left right : Bytes) :
    steps (left ++ slash :: right) = steps left ++ steps right :=
  List.splitOn_append_cons_self left right

theorem steps_of_no_slash (whole : slash ∉ name) : steps name = [name] :=
  List.splitOn_eq_singleton whole

theorem spells_steps (path : Bytes) : Spells path (steps path) := by
  by_cases inside : slash ∈ path
  · obtain ⟨name, rest, rfl, whole⟩ := List.eq_append_cons_of_mem inside
    rw [steps_append, steps_of_no_slash whole]
    exact .more whole (spells_steps rest)
  · rw [steps_of_no_slash inside]
    exact .last inside
termination_by path.length

/-- A path spells one list of names only. -/
theorem spells_iff : Spells path names ↔ names = steps path := by
  constructor
  · intro spells
    induction spells with
    | last whole => rw [steps_of_no_slash whole]
    | more whole _ inductionHypothesis =>
      rw [steps_append, steps_of_no_slash whole, inductionHypothesis, List.singleton_append]
  · rintro rfl
    exact spells_steps path

theorem begins_iff : Begins place path first ↔ first = start place path := by
  constructor
  · rintro (_ | relative)
    · exact (if_pos rfl).symm
    · exact (if_neg relative).symm
  · rintro rfl
    unfold start
    split
    · rename_i absolute
      obtain ⟨rest, rfl⟩ := List.head?_eq_some_iff.mp absolute
      exact .atRoot
    · exact .here ‹_›

theorem start_append (nonempty : path ≠ []) : start place (path ++ other) = start place path := by
  unfold start
  rw [List.head?_append_of_ne_nil _ nonempty]

end Paths

section Walks

variable {tree : FileTree} {links : Nat} {place : Place} {name path : Bytes}
  {names : List Bytes} {found : Found}

theorem node?_eq_some_iff {node : Node} :
    tree.node? place name = some node ↔ (name :: place, node) ∈ tree.entries :=
  lookup_eq_some_iff_mem tree.nodup

theorem parent_eq_tail (place : Place) : place.parent = place.tail := by
  cases place <;> rfl

theorem Ordinary.moves (ordinary : Ordinary name) : ¬ (name = [] ∨ name = dot) :=
  not_or.mpr ⟨ordinary.ne_nil, ordinary.ne_dot⟩

/-- What becomes of a way whose next name is that of a node. -/
theorem walk_of_mem {node : Node} (member : (name :: place, node) ∈ tree.entries) :
    tree.walk links place (name :: names) =
      match node with
      | .dir => tree.walk links (name :: place) names
      | .file => if names = [] then .ok .file else .error .notDirectory
      | .link target =>
        if links = 0 then .error .tooManyLinks
        else tree.walk (links - 1) (start place target) (steps target ++ names) := by
  have ordinary : Ordinary name := ordinary_of_mem member
  rw [walk, if_neg ordinary.moves, if_neg ordinary.ne_dotDot,
    if_neg (Nat.not_lt.mpr ordinary.short), node?_eq_some_iff.mpr member]
  cases node <;> rfl

theorem exists_leads_of_walk (reached : tree.walk links place names = .ok found) :
    ∃ followed, followed ≤ links ∧ Leads tree followed place names found := by
  fun_induction walk tree links place names with
  | case1 links place =>
    cases reached
    exact ⟨0, Nat.zero_le _, .here⟩
  | case2 links place name names stays inductionHypothesis =>
    obtain ⟨followed, few, leads⟩ := inductionHypothesis reached
    exact ⟨followed, few, .stay stays leads⟩
  | case3 links place names _ inductionHypothesis =>
    obtain ⟨followed, few, leads⟩ := inductionHypothesis reached
    rw [parent_eq_tail] at leads
    exact ⟨followed, few, .up leads⟩
  | case4 | case5 | case8 | case9 => cases reached
  | case6 links place name names _ _ _ node inductionHypothesis =>
    obtain ⟨followed, few, leads⟩ := inductionHypothesis reached
    exact ⟨followed, few, .down (mem_of_node? node) leads⟩
  | case7 links place name _ _ _ node =>
    cases reached
    exact ⟨0, Nat.zero_le _, .file (mem_of_node? node)⟩
  | case10 links place name names _ _ _ target node left inductionHypothesis =>
    obtain ⟨followed, few, leads⟩ := inductionHypothesis reached
    exact ⟨followed + 1, by omega,
      .link (mem_of_node? node) (begins_iff.mpr rfl) (spells_iff.mpr rfl) leads⟩

theorem walk_of_leads {followed : Nat} (leads : Leads tree followed place names found)
    (few : followed ≤ links) : tree.walk links place names = .ok found := by
  induction leads generalizing links with
  | here => rw [walk]
  | stay stays _ inductionHypothesis => rw [walk, if_pos stays, inductionHypothesis few]
  | up _ inductionHypothesis =>
    rw [walk, if_neg (by decide), if_pos rfl, parent_eq_tail, inductionHypothesis few]
  | down node _ inductionHypothesis =>
    rw [walk_of_mem node]
    exact inductionHypothesis few
  | file node =>
    rw [walk_of_mem node]
    exact if_pos rfl
  | link node begins spells _ inductionHypothesis =>
    rw [walk_of_mem node]
    dsimp only
    rw [if_neg (by omega), ← begins_iff.mp begins, ← spells_iff.mp spells]
    exact inductionHypothesis (by omega)

theorem walk_eq_ok_iff :
    tree.walk links place names = .ok found ↔
      ∃ followed, followed ≤ links ∧ Leads tree followed place names found := by
  constructor
  · exact exists_leads_of_walk
  · rintro ⟨followed, few, leads⟩
    exact walk_of_leads leads few

theorem reaches_iff :
    tree.Reaches links path found ↔
      Leads tree links (start tree.working path) (steps path) found := by
  constructor
  · rintro ⟨first, names, begins, spells, leads⟩
    rwa [begins_iff.mp begins, spells_iff.mp spells] at leads
  · intro leads
    exact ⟨_, _, begins_iff.mpr rfl, spells_iff.mpr rfl, leads⟩

theorem resolve_eq_ok_iff : tree.resolve path = .ok found ↔ tree.LeadsTo path found := by
  unfold resolve LeadsTo
  simp only [reaches_iff]
  by_cases empty : path = []
  · simp [empty]
  by_cases long : maxPath < path.length
  · rw [if_neg empty, if_pos long]
    constructor
    · intro resolved
      cases resolved
    · rintro ⟨_, short, _⟩
      omega
  · rw [if_neg empty, if_neg long, walk_eq_ok_iff]
    constructor
    · intro leads
      exact ⟨empty, by omega, leads⟩
    · rintro ⟨_, _, leads⟩
      exact leads

theorem LeadsTo.unique {other : Found} (leads : tree.LeadsTo path found)
    (leadsOther : tree.LeadsTo path other) : found = other := by
  have same := resolve_eq_ok_iff.mpr leads
  rw [resolve_eq_ok_iff.mpr leadsOther] at same
  cases same
  rfl

end Walks

section Composition

variable {tree : FileTree} {links before behind : Nat} {place middle : Place}
  {first second : List Bytes} {found : Found}

theorem Leads.append (there : Leads tree before place first (.dir middle))
    (further : Leads tree behind middle second found) :
    Leads tree (before + behind) place (first ++ second) found := by
  generalize reached : Found.dir middle = last at there
  induction there with
  | here =>
    cases reached
    rwa [Nat.zero_add]
  | stay stays _ inductionHypothesis => exact .stay stays (inductionHypothesis reached)
  | up _ inductionHypothesis => exact .up (inductionHypothesis reached)
  | down node _ inductionHypothesis => exact .down node (inductionHypothesis reached)
  | file => cases reached
  | link node begins spells _ inductionHypothesis =>
    have rest := inductionHypothesis reached
    rw [List.append_assoc] at rest
    rw [Nat.add_right_comm]
    exact .link node begins spells rest

/-- A way that goes on leads to a directory first. -/
theorem Leads.split (leads : Leads tree links place (first ++ second) found)
    (goesOn : second ≠ []) :
    ∃ before behind middle, before + behind = links ∧
      Leads tree before place first (.dir middle) ∧ Leads tree behind middle second found := by
  generalize whole : first ++ second = names at leads
  -- Where no name comes first, all of the way is left.
  have entire {links place} (leads : Leads tree links place second found) :
      ∃ before behind middle, before + behind = links ∧
        Leads tree before place [] (.dir middle) ∧ Leads tree behind middle second found :=
    ⟨0, links, place, Nat.zero_add _, .here, leads⟩
  induction leads generalizing first with
  | here => exact absurd (List.append_eq_nil_iff.mp whole).2 goesOn
  | stay stays leads inductionHypothesis =>
    rcases List.append_eq_cons_iff.mp whole with ⟨rfl, rfl⟩ | ⟨rest, rfl, rfl⟩
    · exact entire (.stay stays leads)
    · obtain ⟨before, behind, middle, sum, there, further⟩ := inductionHypothesis rfl entire
      exact ⟨before, behind, middle, sum, .stay stays there, further⟩
  | up leads inductionHypothesis =>
    rcases List.append_eq_cons_iff.mp whole with ⟨rfl, rfl⟩ | ⟨rest, rfl, rfl⟩
    · exact entire (.up leads)
    · obtain ⟨before, behind, middle, sum, there, further⟩ := inductionHypothesis rfl entire
      exact ⟨before, behind, middle, sum, .up there, further⟩
  | down node leads inductionHypothesis =>
    rcases List.append_eq_cons_iff.mp whole with ⟨rfl, rfl⟩ | ⟨rest, rfl, rfl⟩
    · exact entire (.down node leads)
    · obtain ⟨before, behind, middle, sum, there, further⟩ := inductionHypothesis rfl entire
      exact ⟨before, behind, middle, sum, .down node there, further⟩
  | file node =>
    rcases List.append_eq_cons_iff.mp whole with ⟨rfl, rfl⟩ | ⟨rest, rfl, empty⟩
    · exact entire (.file node)
    · exact absurd (List.append_eq_nil_iff.mp empty.symm).2 goesOn
  | link node begins spells leads inductionHypothesis =>
    rcases List.append_eq_cons_iff.mp whole with ⟨rfl, rfl⟩ | ⟨rest, rfl, rfl⟩
    · exact entire (.link node begins spells leads)
    · obtain ⟨before, behind, middle, sum, there, further⟩ :=
        inductionHypothesis (List.append_assoc _ _ _) entire
      refine ⟨before + 1, behind, middle, ?_, .link node begins spells there, further⟩
      omega

theorem leads_append_iff (goesOn : second ≠ []) :
    Leads tree links place (first ++ second) found ↔
      ∃ before behind middle, before + behind = links ∧
        Leads tree before place first (.dir middle) ∧ Leads tree behind middle second found := by
  constructor
  · exact fun leads => leads.split goesOn
  · rintro ⟨before, behind, middle, rfl, there, further⟩
    exact there.append further

/-- A slash at the end of a path asks for nothing more of a directory. -/
theorem leads_append_nil_iff :
    Leads tree links place (first ++ [[]]) (.dir middle) ↔
      Leads tree links place first (.dir middle) := by
  have here (next : Place) : Leads tree 0 next [[]] (.dir next) := .stay (.inl rfl) .here
  constructor
  · intro leads
    obtain ⟨before, behind, next, rfl, there, further⟩ := leads.split (List.cons_ne_nil _ _)
    have still : Leads tree behind next [] (.dir middle) := by
      cases further with
      | stay _ rest => exact rest
      | down node => exact absurd rfl (ordinary_of_mem node).ne_nil
      | link node => exact absurd rfl (ordinary_of_mem node).ne_nil
    cases still
    exact there
  · exact fun leads => leads.append (here middle)

end Composition

section Entries

variable {tree : FileTree} {links : Nat} {place : Place} {dir name : Bytes} {found : Found}

/-- The path of an entry spells what that of its directory spells, and the entry's name. -/
theorem exists_steps_entryPath (dir : Bytes) (whole : slash ∉ name) :
    ∃ names, (steps dir = names ∨ steps dir = names ++ [[]]) ∧
      steps (entryPath dir name) = names ++ [name] := by
  unfold entryPath
  by_cases empty : dir = []
  · rw [if_pos (.inl empty), empty]
    exact ⟨[], .inr rfl, steps_of_no_slash whole⟩
  by_cases closed : dir.getLast? = some slash
  · obtain ⟨front, rfl⟩ := List.getLast?_eq_some_iff.mp closed
    rw [if_pos (.inr closed), List.append_assoc, List.singleton_append, steps_append,
      steps_append, steps_of_no_slash whole]
    exact ⟨steps front, .inr rfl, rfl⟩
  · rw [if_neg (not_or.mpr ⟨empty, closed⟩), steps_append, steps_of_no_slash whole]
    exact ⟨steps dir, .inl rfl, rfl⟩

theorem start_entryPath (whole : slash ∉ name) :
    start place (entryPath dir name) = start place dir := by
  by_cases empty : dir = []
  · have relative : name.head? ≠ some slash := fun absolute =>
      whole (List.mem_of_head? absolute)
    rw [empty, entryPath, if_pos (.inl rfl), List.nil_append, start, if_neg relative]
    rfl
  · unfold entryPath
    split <;> exact start_append empty

theorem reaches_entryPath_iff (whole : slash ∉ name) :
    tree.Reaches links (entryPath dir name) found ↔
      ∃ before behind place, before + behind = links ∧ tree.Reaches before dir (.dir place) ∧
        Leads tree behind place [name] found := by
  obtain ⟨names, same, spelled⟩ := exists_steps_entryPath dir whole
  have toDir (links : Nat) (place : Place) : tree.Reaches links dir (.dir place) ↔
      Leads tree links (start tree.working dir) names (.dir place) := by
    rw [reaches_iff]
    rcases same with same | same
    · rw [same]
    · rw [same, leads_append_nil_iff]
  simp only [toDir]
  rw [reaches_iff, start_entryPath whole, spelled, leads_append_iff (List.cons_ne_nil _ _)]

theorem length_entryPath (dir name : Bytes) :
    (entryPath dir name).length =
      dir.length + (if dir = [] ∨ dir.getLast? = some slash then 0 else 1) + name.length := by
  unfold entryPath
  split
  · rw [List.length_append, Nat.add_zero]
  · rw [List.length_append, List.length_cons, Nat.add_assoc, Nat.add_comm 1]

/-- The entry is looked up by way of its directory. -/
theorem resolve_entryPath_eq_ok_iff (ordinary : Ordinary name) :
    tree.resolve (entryPath dir name) = .ok found ↔ tree.EntryLeads dir name found := by
  have filled : entryPath dir name ≠ [] := by
    unfold entryPath
    split <;> simp [ordinary.ne_nil]
  have size : (entryPath dir name).length ≤ maxPath ↔
      dir.length + (if dir.getLast? = some slash then 0 else 1) + name.length ≤ maxPath := by
    have short := ordinary.short
    rw [length_entryPath]
    by_cases empty : dir = []
    · rw [empty, if_pos (.inl rfl), if_neg (by simp), List.length_nil]
      unfold maxPath
      unfold maxName at short
      omega
    · simp only [or_iff_right empty]
  rw [resolve_eq_ok_iff, LeadsTo, EntryLeads, size]
  simp only [reaches_entryPath_iff ordinary.no_slash]
  constructor
  · rintro ⟨_, short, _, few, before, behind, place, rfl, there, further⟩
    exact ⟨short, place, before, behind, few, there, further⟩
  · rintro ⟨short, place, before, behind, few, there, further⟩
    exact ⟨filled, short, _, few, before, behind, place, rfl, there, further⟩

end Entries

end HostPattern.FileTree
