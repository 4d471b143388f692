/-!
Names are compared without regard to the case of ASCII letters; every other
character stands for itself.
-/

namespace HostPattern.Text

def fold (text : List Char) : List Char :=
  text.map Char.toLower

@[simp] theorem fold_nil : fold [] = [] := rfl

@[simp] theorem fold_cons (c : Char) (text : List Char) :
    fold (c :: text) = c.toLower :: fold text := rfl

@[simp] theorem fold_append (left right : List Char) :
    fold (left ++ right) = fold left ++ fold right :=
  List.map_append

@[simp] theorem length_fold (text : List Char) : (fold text).length = text.length :=
  List.length_map _

theorem val_toLower {c : Char} (upper : c.val ≥ 'A'.val ∧ c.val ≤ 'Z'.val) :
    c.toLower.val = c.val + 32 := by
  unfold Char.toLower
  rw [dif_pos upper]
  rfl

theorem toLower_eq_self {c : Char} (small : ¬ (c.val ≥ 'A'.val ∧ c.val ≤ 'Z'.val)) :
    c.toLower = c := by
  unfold Char.toLower
  rw [dif_neg small]

theorem toLower_toLower (c : Char) : c.toLower.toLower = c.toLower := by
  by_cases upper : c.val ≥ 'A'.val ∧ c.val ≤ 'Z'.val
  · apply toLower_eq_self
    have low := upper.1
    have high := upper.2
    simp only [val_toLower upper, ge_iff_le, UInt32.le_iff_toNat_le, UInt32.toNat_add] at low high ⊢
    simp at low high ⊢
    omega
  · rw [toLower_eq_self upper, toLower_eq_self upper]

@[simp] theorem fold_fold (text : List Char) : fold (fold text) = fold text := by
  rw [fold, fold, List.map_map]
  exact List.map_congr_left fun c _ => toLower_toLower c

end HostPattern.Text
