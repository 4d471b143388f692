/-!
# Looking up keys

Where no key of a list stands twice, the value of a key is the one that stands beside it,
and the order of the list does not matter.
-/

namespace HostPattern

variable {Key Value : Type} [BEq Key] [LawfulBEq Key] {entries others : List (Key × Value)}

theorem lookup_eq_some_iff_mem (nodup : (entries.map Prod.fst).Nodup) {key : Key} {value : Value} :
    entries.lookup key = some value ↔ (key, value) ∈ entries := by
  rw [List.lookup_eq_some_iff]
  constructor
  · rintro ⟨before, after, rfl, _⟩
    exact List.mem_append_right _ List.mem_cons_self
  · intro member
    obtain ⟨before, after, rfl⟩ := List.append_of_mem member
    refine ⟨before, after, rfl, ?_⟩
    intro entry inside
    rw [List.map_append, List.map_cons, List.nodup_append] at nodup
    rw [bne_iff_ne]
    exact (nodup.2.2 _ (List.mem_map_of_mem inside) _ List.mem_cons_self).symm

theorem lookup_eq_of_perm (nodup : (entries.map Prod.fst).Nodup) (same : others.Perm entries)
    (key : Key) : others.lookup key = entries.lookup key := by
  have others_nodup : (others.map Prod.fst).Nodup := (same.map _).nodup_iff.mpr nodup
  apply Option.ext
  intro value
  rw [lookup_eq_some_iff_mem others_nodup, lookup_eq_some_iff_mem nodup, same.mem_iff]

end HostPattern
