import HostPattern.Json
import HostPattern.Proofs.Lookup

/-!
# Taking JSON values apart

Sorting moves the members of an object but leaves each value beside its key.
-/

namespace HostPattern.Json

def member? (key : String) : Json → Option Json
  | .obj members => members.lookup key
  | _ => none

def items? : Json → Option (List Json)
  | .arr items => some items
  | _ => none

def str? : Json → Option String
  | .str text => some text
  | _ => none

def bool? : Json → Option Bool
  | .bool value => some value
  | _ => none

theorem sortedItems_eq_map (items : List Json) : sortedItems items = items.map sorted := by
  induction items with
  | nil => rfl
  | cons item items inductionHypothesis => rw [sortedItems, inductionHypothesis, List.map_cons]

theorem map_fst_sortedMembers (members : List (String × Json)) :
    (sortedMembers members).map Prod.fst = members.map Prod.fst := by
  induction members with
  | nil => rfl
  | cons member members inductionHypothesis =>
    rw [sortedMembers, List.map_cons, inductionHypothesis, List.map_cons]

theorem lookup_sortedMembers (key : String) (members : List (String × Json)) :
    (sortedMembers members).lookup key = (members.lookup key).map sorted := by
  induction members with
  | nil => rfl
  | cons member members inductionHypothesis =>
    rw [sortedMembers, List.lookup_cons, List.lookup_cons, inductionHypothesis]
    cases key == member.1 <;> rfl

/-- The order of the members does not matter where no key stands twice. -/
theorem member?_sorted {members : List (String × Json)} (nodup : (members.map Prod.fst).Nodup)
    (key : String) :
    (Json.obj members).sorted.member? key = ((Json.obj members).member? key).map sorted := by
  have keys : ((sortedMembers members).map Prod.fst).Nodup := by
    rwa [map_fst_sortedMembers]
  rw [sorted]
  exact (lookup_eq_of_perm keys (List.mergeSort_perm _ _) key).trans
    (lookup_sortedMembers key members)

@[simp] theorem items?_sorted_arr (items : List Json) :
    (Json.arr items).sorted.items? = some (items.map sorted) := by
  rw [sorted, sortedItems_eq_map, items?]

@[simp] theorem str?_sorted_str (text : String) : (Json.str text).sorted.str? = some text := by
  rw [sorted, str?]

@[simp] theorem bool?_sorted_bool (value : Bool) :
    (Json.bool value).sorted.bool? = some value := by
  rw [sorted, bool?]

end HostPattern.Json
