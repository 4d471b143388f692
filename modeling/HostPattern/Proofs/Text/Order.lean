import HostPattern.Text.Utf8
import Mathlib.Data.List.Nodup

/-!
# Sorting by bytes

Items are sorted by the bytes of their keys.  Where the keys tell the items apart, the order
that the items come in does not show.
-/

namespace HostPattern.Text

variable {α : Type} (key : α → Bytes)

theorem pairwise_mergeSort_key (items : List α) :
    (items.mergeSort fun left right => key left ≤ key right).Pairwise fun left right =>
      key left ≤ key right := by
  have ordered : (items.mergeSort fun left right => key left ≤ key right).Pairwise
      fun left right => decide (key left ≤ key right) = true := by
    apply List.pairwise_mergeSort
    · intro a b c first second
      rw [decide_eq_true_eq] at first second ⊢
      exact List.le_trans first second
    · intro a b
      rw [Bool.or_eq_true, decide_eq_true_eq, decide_eq_true_eq]
      exact List.le_total _ _
  simpa only [decide_eq_true_eq] using ordered

theorem mergeSort_key_eq_of_perm {items others : List α}
    (tells : ∀ left ∈ items, ∀ right ∈ items, key left = key right → left = right)
    (same : items.Perm others) :
    (items.mergeSort fun left right => key left ≤ key right) =
      others.mergeSort fun left right => key left ≤ key right := by
  have itemsPerm := List.mergeSort_perm items fun left right => key left ≤ key right
  have othersPerm := List.mergeSort_perm others fun left right => key left ≤ key right
  apply ((itemsPerm.trans same).trans othersPerm.symm).eq_of_pairwise ?_
    (pairwise_mergeSort_key key items) (pairwise_mergeSort_key key others)
  intro left right first second before after
  have inside : right ∈ items := same.mem_iff.mpr (othersPerm.mem_iff.mp second)
  exact tells left (itemsPerm.mem_iff.mp first) right inside (List.le_antisymm before after)

end HostPattern.Text
