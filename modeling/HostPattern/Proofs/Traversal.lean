import Mathlib

/-!
# Lists that are read item by item

A traversal has a result exactly if every item has one, and the result is that of the items.
If it fails, then with the failure of an item.
-/

namespace HostPattern

variable {α β γ ε : Type}

/-- The results of a traversal are those of the items, in a monad where nothing follows a
failure and a value is not lost. -/
theorem mapM_eq_pure_iff {m : Type → Type} [Monad m] [LawfulMonad m]
    (strict : ∀ {α β : Type} {first : m α} {next : α → m β} {last : β},
      first >>= next = pure last → ∃ value, first = pure value)
    (injective : ∀ {α : Type} {left right : α}, (pure left : m α) = pure right → left = right)
    {f : α → m β} {xs : List α} {ys : List β} :
    xs.mapM f = pure ys ↔ xs.map f = ys.map pure := by
  induction xs generalizing ys with
  | nil =>
    rw [List.mapM_nil, List.map_nil, eq_comm (a := []), List.map_eq_nil_iff]
    exact ⟨fun same => (injective same).symm, fun empty => by rw [empty]⟩
  | cons x xs inductionHypothesis =>
    rw [List.mapM_cons, List.map_cons]
    constructor
    · intro mapped
      obtain ⟨y, first⟩ := strict mapped
      rw [first, pure_bind] at mapped
      obtain ⟨others, rest⟩ := strict mapped
      rw [rest, pure_bind] at mapped
      rw [← injective mapped, first, inductionHypothesis.mp rest, List.map_cons]
    · intro same
      obtain ⟨y, others, rfl, first, rest⟩ := List.map_eq_cons_iff.mp same.symm
      rw [← first, inductionHypothesis.mpr rest.symm, pure_bind, pure_bind]

theorem mapM_eq_some_iff {f : α → Option β} {xs : List α} {ys : List β} :
    xs.mapM f = some ys ↔ xs.map f = ys.map some := by
  apply mapM_eq_pure_iff
  · intro α β first next last given
    obtain ⟨value, found, _⟩ := Option.bind_eq_some_iff.mp given
    exact ⟨value, found⟩
  · exact Option.some.inj

theorem mapM_eq_ok_iff {f : α → Except ε β} {xs : List α} {ys : List β} :
    xs.mapM f = .ok ys ↔ xs.map f = ys.map .ok := by
  apply mapM_eq_pure_iff
  · intro α β first next last given
    cases first with
    | error error => cases given
    | ok value => exact ⟨value, rfl⟩
  · exact Except.ok.inj

theorem exists_of_mem_of_mapM_eq_some {f : α → Option β} {xs : List α} {ys : List β}
    (mapped : xs.mapM f = some ys) {y : β} (member : y ∈ ys) : ∃ x ∈ xs, f x = some y := by
  apply List.mem_map.mp
  rw [mapM_eq_some_iff.mp mapped]
  exact List.mem_map_of_mem member

theorem map_eq_of_mapM_eq_some {f : α → Option β} {back : β → α} {xs : List α} {ys : List β}
    (undo : ∀ x y, f x = some y → back y = x) (mapped : xs.mapM f = some ys) :
    ys.map back = xs := by
  have results : xs.map f = ys.map some := mapM_eq_some_iff.mp mapped
  apply List.map_injective_iff.mpr (Option.some_injective α)
  calc (ys.map back).map some = (xs.map f).map (Option.map back) := by
        rw [results, List.map_map, List.map_map]
        rfl
    _ = xs.map some := by
        rw [List.map_map]
        apply List.map_congr_left
        intro x member
        have result : f x ∈ ys.map some := results ▸ List.mem_map_of_mem member
        obtain ⟨y, _, found⟩ := List.mem_map.mp result
        rw [Function.comp_apply, ← found, Option.map_some, undo x y found.symm]

theorem mapM_map_of_forall {read : β → Option γ} {write : α → β} {value : α → γ}
    {xs : List α} (reads : ∀ x ∈ xs, read (write x) = some (value x)) :
    (xs.map write).mapM read = some (xs.map value) := by
  rw [mapM_eq_some_iff, List.map_map, List.map_map]
  exact List.map_congr_left reads

/-- Where the items that have a result are known, and the result. -/
theorem mapM_eq_ok_iff_of_forall {f : α → Except ε β} {given : α → Prop} {value : α → β}
    {xs : List α} {ys : List β}
    (each : ∀ x ∈ xs, ∀ y, f x = .ok y ↔ given x ∧ y = value x) :
    xs.mapM f = .ok ys ↔ (∀ x ∈ xs, given x) ∧ ys = xs.map value := by
  have all (given : ∀ x ∈ xs, given x) : xs.map f = (xs.map value).map .ok := by
    rw [List.map_map]
    exact List.map_congr_left fun x member => (each x member _).mpr ⟨given x member, rfl⟩
  rw [mapM_eq_ok_iff]
  constructor
  · intro mapped
    have found : ∀ x ∈ xs, given x := by
      intro x member
      have result : f x ∈ ys.map .ok := mapped ▸ List.mem_map_of_mem member
      obtain ⟨y, _, first⟩ := List.mem_map.mp result
      exact ((each x member y).mp first.symm).1
    rw [all found] at mapped
    exact ⟨found, (List.map_injective_iff.mpr (fun _ _ => Except.ok.inj) mapped).symm⟩
  · rintro ⟨found, rfl⟩
    exact all found

theorem exists_of_mapM_eq_error {f : α → Except ε β} {xs : List α} {error : ε}
    (failed : xs.mapM f = .error error) : ∃ x ∈ xs, f x = .error error := by
  induction xs with
  | nil => cases failed
  | cons x xs inductionHypothesis =>
    rw [List.mapM_cons] at failed
    cases first : f x with
    | error blamed =>
      rw [first] at failed
      cases failed
      exact ⟨x, List.mem_cons_self, first⟩
    | ok y =>
      cases others : xs.mapM f with
      | error blamed =>
        rw [first, others] at failed
        cases failed
        obtain ⟨z, inside, fails⟩ := inductionHypothesis others
        exact ⟨z, List.mem_cons_of_mem x inside, fails⟩
      | ok ys =>
        rw [first, others] at failed
        cases failed

end HostPattern
