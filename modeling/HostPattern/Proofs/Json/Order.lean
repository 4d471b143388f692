import HostPattern.Proofs.Json.Members
import HostPattern.Proofs.Text.Order

/-!
# The order of members

An object is what it is by its members, in whatever order they stand.  Sorting moves members
and changes nothing else, at any depth.
-/

namespace HostPattern.Json

open Text

mutual

/-- The values differ at most in the order of the members of their objects. -/
inductive Same : Json → Json → Prop
  | null : Same .null .null
  | bool (value : Bool) : Same (.bool value) (.bool value)
  | int (n : Int) : Same (.int n) (.int n)
  | str (text : String) : Same (.str text) (.str text)
  | arr {items others : List Json} : SameItems items others → Same (.arr items) (.arr others)
  | obj {members others moved : List (String × Json)} :
      SameMembers members others → others.Perm moved → Same (.obj members) (.obj moved)

inductive SameItems : List Json → List Json → Prop
  | nil : SameItems [] []
  | cons {item other : Json} {items others : List Json} :
      Same item other → SameItems items others → SameItems (item :: items) (other :: others)

inductive SameMembers : List (String × Json) → List (String × Json) → Prop
  | nil : SameMembers [] []
  | cons {key : String} {value other : Json} {members others : List (String × Json)} :
      Same value other → SameMembers members others →
      SameMembers ((key, value) :: members) ((key, other) :: others)

end

mutual

/-- No key stands twice in an object, at any depth. -/
def DistinctKeys : Json → Prop
  | .arr items => DistinctKeysItems items
  | .obj members => (members.map Prod.fst).Nodup ∧ DistinctKeysMembers members
  | .null => True
  | .bool _ => True
  | .int _ => True
  | .str _ => True

def DistinctKeysItems : List Json → Prop
  | [] => True
  | item :: items => item.DistinctKeys ∧ DistinctKeysItems items

def DistinctKeysMembers : List (String × Json) → Prop
  | [] => True
  | (_, value) :: members => value.DistinctKeys ∧ DistinctKeysMembers members

end

theorem distinctKeysMembers_iff {members : List (String × Json)} :
    DistinctKeysMembers members ↔ ∀ member ∈ members, member.2.DistinctKeys := by
  induction members with
  | nil => simp [DistinctKeysMembers]
  | cons member members inductionHypothesis =>
    rw [DistinctKeysMembers, List.forall_mem_cons, inductionHypothesis]

mutual

theorem same_sorted : (value : Json) → Same value value.sorted
  | .null => .null
  | .bool value => .bool value
  | .int n => .int n
  | .str text => .str text
  | .arr items => .arr (same_sortedItems items)
  | .obj members => .obj (same_sortedMembers members) (List.mergeSort_perm _ _).symm

theorem same_sortedItems : (items : List Json) → SameItems items (sortedItems items)
  | [] => .nil
  | item :: items => .cons (same_sorted item) (same_sortedItems items)

theorem same_sortedMembers : (members : List (String × Json)) →
    SameMembers members (sortedMembers members)
  | [] => .nil
  | (_, value) :: members => .cons (same_sorted value) (same_sortedMembers members)

end

mutual

theorem distinctKeys_sorted : (value : Json) → value.DistinctKeys → value.sorted.DistinctKeys
  | .null, _ => trivial
  | .bool _, _ => trivial
  | .int _, _ => trivial
  | .str _, _ => trivial
  | .arr items, distinct => distinctKeys_sortedItems items distinct
  | .obj members, distinct => by
    obtain ⟨nodup, values⟩ := distinct
    have perm := List.mergeSort_perm (sortedMembers members) fun left right =>
      Utf8.le left.1 right.1
    have sortedValues := distinctKeysMembers_iff.mp (distinctKeys_sortedMembers members values)
    rw [sorted]
    constructor
    · rwa [(perm.map Prod.fst).nodup_iff, map_fst_sortedMembers]
    · rw [distinctKeysMembers_iff]
      exact fun member inside => sortedValues member (perm.mem_iff.mp inside)

theorem distinctKeys_sortedItems : (items : List Json) → DistinctKeysItems items →
    DistinctKeysItems (sortedItems items)
  | [], _ => trivial
  | item :: items, distinct =>
    ⟨distinctKeys_sorted item distinct.1, distinctKeys_sortedItems items distinct.2⟩

theorem distinctKeys_sortedMembers : (members : List (String × Json)) →
    DistinctKeysMembers members → DistinctKeysMembers (sortedMembers members)
  | [], _ => trivial
  | (_, value) :: members, distinct =>
    ⟨distinctKeys_sorted value distinct.1, distinctKeys_sortedMembers members distinct.2⟩

end

section Canonical

theorem sortedMembers_eq_map (members : List (String × Json)) :
    sortedMembers members = members.map fun member => (member.1, member.2.sorted) := by
  induction members with
  | nil => rfl
  | cons member members inductionHypothesis =>
    rw [sortedMembers, inductionHypothesis, List.map_cons]

/-- Where no key stands twice there is one order of the keys. -/
theorem mergeSort_members_eq_of_perm {members others : List (String × Json)}
    (nodup : (members.map Prod.fst).Nodup) (same : members.Perm others) :
    (members.mergeSort fun left right => Utf8.le left.1 right.1) =
      others.mergeSort fun left right => Utf8.le left.1 right.1 := by
  unfold Utf8.le
  apply mergeSort_key_eq_of_perm (fun member => Utf8.encode member.1) ?_ same
  intro left first right second key
  exact List.inj_on_of_nodup_map nodup first second (Utf8.encode_injective key)

mutual

/-- Values that differ in the order of members only are sorted to one value. -/
theorem Same.sorted_eq {value other : Json} : Same value other → value.DistinctKeys →
    value.sorted = other.sorted
  | .null, _ => rfl
  | .bool _, _ => rfl
  | .int _, _ => rfl
  | .str _, _ => rfl
  | .arr items, distinct => by
    rw [sorted, sorted, items.sorted_eq distinct]
  | .obj members moved, distinct => by
    obtain ⟨nodup, values⟩ := distinct
    have sortedEq := members.sorted_eq values
    have perm := moved.map fun member => (member.1, member.2.sorted)
    rw [← sortedMembers_eq_map, ← sortedMembers_eq_map, ← sortedEq] at perm
    have keys : ((sortedMembers _).map Prod.fst).Nodup := (map_fst_sortedMembers _).symm ▸ nodup
    rw [sorted, sorted, mergeSort_members_eq_of_perm keys perm]

theorem SameItems.sorted_eq {items others : List Json} : SameItems items others →
    DistinctKeysItems items → sortedItems items = sortedItems others
  | .nil, _ => rfl
  | .cons same items, distinct => by
    rw [sortedItems, sortedItems, same.sorted_eq distinct.1, items.sorted_eq distinct.2]

theorem SameMembers.sorted_eq {members others : List (String × Json)} :
    SameMembers members others → DistinctKeysMembers members →
    sortedMembers members = sortedMembers others
  | .nil, _ => rfl
  | .cons same members, distinct => by
    rw [sortedMembers, sortedMembers, same.sorted_eq distinct.1, members.sorted_eq distinct.2]

end

theorem pretty_eq_of_same {value other : Json} (same : Same value other)
    (distinct : value.DistinctKeys) : other.pretty = value.pretty := by
  rw [pretty, pretty, same.sorted_eq distinct]

end Canonical

end HostPattern.Json
