import HostPattern.Text.Utf8

/-!
A file system: the nodes below the root, and the directory that paths begin in.
-/

namespace HostPattern

open Text

inductive Node
  | dir
  | file
  | link (target : Bytes)
  deriving DecidableEq, Repr

/-- A place by the names that lead to it from the root, the innermost first. -/
abbrev Place := List Bytes

namespace Place

def root : Place := []

/-- The root is its own parent. -/
def parent : Place → Place
  | [] => root
  | _ :: above => above

end Place

namespace FileTree

def slash : UInt8 := 0x2F

def dot : Bytes := [0x2E]

def dotDot : Bytes := [0x2E, 0x2E]

def maxName : Nat := 255

/-- The place is the root, or a directory stands there. -/
def IsDir (entries : List (Place × Node)) (place : Place) : Prop :=
  place = .root ∨ (place, .dir) ∈ entries

instance (entries : List (Place × Node)) (place : Place) : Decidable (IsDir entries place) :=
  inferInstanceAs (Decidable (place = .root ∨ (place, .dir) ∈ entries))

theorem IsDir.mono {entries others : List (Place × Node)} {place : Place}
    (more : entries ⊆ others) (isDir : IsDir entries place) : IsDir others place :=
  isDir.imp_right fun member => more member

/-- A name that a node can have. -/
structure Ordinary (name : Bytes) : Prop where
  ne_nil : name ≠ []
  ne_dot : name ≠ dot
  ne_dotDot : name ≠ dotDot
  no_slash : slash ∉ name
  no_zero : 0 ∉ name
  short : name.length ≤ maxName

instance (name : Bytes) : Decidable (Ordinary name) :=
  decidable_of_iff (name ≠ [] ∧ name ≠ dot ∧ name ≠ dotDot ∧ slash ∉ name ∧ 0 ∉ name ∧
      name.length ≤ maxName)
    ⟨fun ⟨ne_nil, ne_dot, ne_dotDot, no_slash, no_zero, short⟩ =>
      ⟨ne_nil, ne_dot, ne_dotDot, no_slash, no_zero, short⟩,
    fun ordinary => ⟨ordinary.ne_nil, ordinary.ne_dot, ordinary.ne_dotDot, ordinary.no_slash,
      ordinary.no_zero, ordinary.short⟩⟩

/-- The node has an ordinary name in a directory, and leads to something if it is a link. -/
def Fits (entries : List (Place × Node)) : Place × Node → Prop
  | ([], _) => False
  | (name :: above, node) => Ordinary name ∧ IsDir entries above ∧ node ≠ .link []

instance (entries : List (Place × Node)) : DecidablePred (Fits entries)
  | ([], _) => inferInstanceAs (Decidable False)
  | (name :: above, node) =>
    inferInstanceAs (Decidable (Ordinary name ∧ IsDir entries above ∧ node ≠ .link []))

theorem Fits.mono {entries others : List (Place × Node)} {entry : Place × Node}
    (more : entries ⊆ others) (fits : Fits entries entry) : Fits others entry := by
  obtain ⟨place, node⟩ := entry
  cases place with
  | nil => exact fits
  | cons name above =>
    obtain ⟨ordinary, isDir, leads⟩ := fits
    exact ⟨ordinary, isDir.mono more, leads⟩

end FileTree

/-- The nodes below the root, each beside its place, and the working directory. -/
structure FileTree where
  entries : List (Place × Node)
  working : Place
  nodup : (entries.map Prod.fst).Nodup
  fits : ∀ entry ∈ entries, FileTree.Fits entries entry
  working_isDir : FileTree.IsDir entries working

namespace FileTree

def empty : FileTree :=
  ⟨[], .root, .nil, by simp, .inl rfl⟩

/-- The tree with one more node, unless something stands there or no node can. -/
def insert (tree : FileTree) (place : Place) (node : Node) : FileTree :=
  if free : place ∉ tree.entries.map Prod.fst ∧ Fits tree.entries (place, node) then
    { entries := tree.entries ++ [(place, node)]
      working := tree.working
      nodup := by
        rw [List.map_append, List.nodup_append]
        refine ⟨tree.nodup, by simp, ?_⟩
        rintro other member last single rfl
        rw [List.map_singleton, List.mem_singleton] at single
        subst single
        exact free.1 member
      fits := by
        have more : tree.entries ⊆ tree.entries ++ [(place, node)] := by simp
        intro entry member
        rcases List.mem_append.mp member with old | new
        · exact (tree.fits entry old).mono more
        · rw [List.mem_singleton.mp new]
          exact free.2.mono more
      working_isDir := tree.working_isDir.mono (by simp) }
  else tree

def node? (tree : FileTree) (place : Place) (name : Bytes) : Option Node :=
  tree.entries.lookup (name :: place)

def children (tree : FileTree) (place : Place) : List (Bytes × Node) :=
  tree.entries.filterMap fun
    | (name :: above, node) => if above = place then some (name, node) else none
    | ([], _) => none

def listing (tree : FileTree) (place : Place) : List (Bytes × Node) :=
  (tree.children place).mergeSort fun left right => left.1 ≤ right.1

section Nodes

variable {tree : FileTree} {place : Place} {name : Bytes} {node : Node}

theorem mem_of_node? (found : tree.node? place name = some node) :
    (name :: place, node) ∈ tree.entries := by
  obtain ⟨before, after, entries, _⟩ := List.lookup_eq_some_iff.mp found
  rw [entries]
  exact List.mem_append_right _ List.mem_cons_self

theorem ordinary_of_mem (member : (name :: place, node) ∈ tree.entries) : Ordinary name :=
  (tree.fits _ member).1

theorem isDir_parent (isDir : IsDir tree.entries place) : IsDir tree.entries place.parent := by
  rcases isDir with rfl | member
  · exact .inl rfl
  · cases place with
    | nil => exact .inl rfl
    | cons name above => exact (tree.fits _ member).2.1

theorem mem_children : (name, node) ∈ tree.children place ↔
    (name :: place, node) ∈ tree.entries := by
  simp only [children, List.mem_filterMap]
  constructor
  · rintro ⟨⟨path, other⟩, member, found⟩
    cases path with
    | nil => cases found
    | cons first above =>
      simp only [Option.ite_none_right_eq_some, Option.some.injEq, Prod.mk.injEq] at found
      obtain ⟨rfl, rfl, rfl⟩ := found
      exact member
  · intro member
    exact ⟨_, member, by simp⟩

theorem listing_perm : (tree.listing place).Perm (tree.children place) :=
  List.mergeSort_perm _ _

end Nodes

end FileTree

end HostPattern
