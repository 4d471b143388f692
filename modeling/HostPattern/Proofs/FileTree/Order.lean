import HostPattern.FileTree.Lookup
import HostPattern.Proofs.Lookup
import HostPattern.Proofs.Text.Order
import Mathlib

/-!
# Trees with the same nodes

A tree keeps its nodes in some order, which no path and no listing shows: in trees with the
same nodes the same names lead to the same places, and directories list the same children.
-/

namespace HostPattern.FileTree

open Text

variable {tree other : FileTree}

theorem nodup_names_children (tree : FileTree) (place : Place) :
    ((tree.children place).map Prod.fst).Nodup := by
  have places : tree.entries.Pairwise fun left right => left.1 ≠ right.1 :=
    List.pairwise_map.mp tree.nodup
  unfold List.Nodup
  rw [List.pairwise_map]
  refine places.filterMap _ ?_
  rintro ⟨path, node⟩ ⟨otherPath, otherNode⟩ different child found otherChild otherFound same
  cases path with
  | nil => cases found
  | cons name above =>
    cases otherPath with
    | nil => cases otherFound
    | cons otherName otherAbove =>
      simp only [Option.ite_none_right_eq_some, Option.some.injEq] at found otherFound
      obtain ⟨rfl, rfl⟩ := found
      obtain ⟨rfl, rfl⟩ := otherFound
      exact different (by rw [show name = otherName from same])

/-- The entries are the nodes of the directory, each once. -/
def Holds (tree : FileTree) (place : Place) (entries : List (Bytes × Node)) : Prop :=
  entries.Nodup ∧ ∀ name node, (name, node) ∈ entries ↔ (name :: place, node) ∈ tree.entries

theorem holds_iff_perm {place : Place} {entries : List (Bytes × Node)} :
    tree.Holds place entries ↔ entries.Perm (tree.children place) := by
  have nodup : (tree.children place).Nodup := .of_map _ (tree.nodup_names_children place)
  constructor
  · rintro ⟨distinct, same⟩
    rw [List.perm_ext_iff_of_nodup distinct nodup]
    rintro ⟨name, node⟩
    rw [same, mem_children]
  · intro same
    refine ⟨same.nodup_iff.mpr nodup, fun name node => ?_⟩
    rw [same.mem_iff, mem_children]

section SameNodes

variable (same : other.entries.Perm tree.entries)
include same

theorem children_perm (place : Place) : (other.children place).Perm (tree.children place) :=
  same.filterMap _

theorem node?_eq_of_perm (place : Place) (name : Bytes) :
    other.node? place name = tree.node? place name :=
  lookup_eq_of_perm tree.nodup same _

theorem walk_eq_of_perm (links : Nat) (place : Place) (names : List Bytes) :
    other.walk links place names = tree.walk links place names := by
  fun_induction walk tree links place names with
  | case1 links place => rw [walk]
  | case2 links place name names stays inductionHypothesis =>
    rw [walk, if_pos stays, inductionHypothesis]
  | case3 links place names stays inductionHypothesis =>
    rw [walk, if_neg stays, if_pos rfl, inductionHypothesis]
  | case4 links place name names stays notUp long =>
    rw [walk, if_neg stays, if_neg notUp, if_pos long]
  | case5 links place name names stays notUp short node =>
    rw [walk, if_neg stays, if_neg notUp, if_neg short, node?_eq_of_perm same, node]
  | case6 links place name names stays notUp short node inductionHypothesis =>
    rw [walk, if_neg stays, if_neg notUp, if_neg short, node?_eq_of_perm same, node]
    exact inductionHypothesis
  | case7 links place name stays notUp short node =>
    rw [walk, if_neg stays, if_neg notUp, if_neg short, node?_eq_of_perm same, node]
    rfl
  | case8 links place name names stays notUp short node goesOn =>
    rw [walk, if_neg stays, if_neg notUp, if_neg short, node?_eq_of_perm same, node]
    exact if_neg goesOn
  | case9 place name names stays notUp short target node =>
    rw [walk, if_neg stays, if_neg notUp, if_neg short, node?_eq_of_perm same, node]
    rfl
  | case10 links place name names stays notUp short target node left inductionHypothesis =>
    rw [walk, if_neg stays, if_neg notUp, if_neg short, node?_eq_of_perm same, node]
    dsimp only
    rw [if_neg left, inductionHypothesis]

theorem resolve_eq_of_perm (working : other.working = tree.working) (path : Bytes) :
    other.resolve path = tree.resolve path := by
  rw [resolve, resolve, walk_eq_of_perm same, working]

/-- Different children have different names, so that only one order of them is sorted. -/
theorem listing_eq_of_perm (place : Place) : other.listing place = tree.listing place :=
  (mergeSort_key_eq_of_perm Prod.fst
    (fun _ first _ second name =>
      List.inj_on_of_nodup_map (tree.nodup_names_children place) first second name)
    (children_perm same place).symm).symm

end SameNodes

end HostPattern.FileTree
