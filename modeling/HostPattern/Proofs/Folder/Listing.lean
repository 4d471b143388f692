import HostPattern.Folder.Scan
import HostPattern.Proofs.FileTree.Order
import HostPattern.Proofs.FileTree.Ways
import HostPattern.Proofs.Text.Lossy
import HostPattern.Proofs.Text.Order
import HostPattern.Proofs.Traversal

/-!
# What a scan finds

A link among the entries of a directory that leads nowhere, or back to the directory, spoils
the scan.  A scan that is not spoiled gives the names of the visible folders, each as often
as there are folders whose names read so, in the order of their bytes.  `Lists` says so of a
list of names by the nodes of the tree, and allows one list only.
-/

namespace HostPattern

open Text

/-- A link is to blame, and not the directory itself. -/
def ScanError.OfLink : ScanError → Prop
  | .notDirectory _ => False
  | .deadLink _ _ => True
  | .loop _ _ => True

namespace Folder

/-- The entry of the directory is a directory, or a link that leads to one. -/
def IsFolder (tree : FileTree) (dir : Bytes) : Bytes × Node → Prop
  | (_, .dir) => True
  | (_, .file) => False
  | (name, .link _) => ∃ place, tree.EntryLeads dir name (.dir place)

/-- The entry is a link that leads nowhere, or back to the directory at `place`. -/
def Spoils (tree : FileTree) (dir : Bytes) (place : Place) : Bytes × Node → Prop
  | (_, .dir) => False
  | (_, .file) => False
  | (name, .link _) =>
    (∀ found, ¬ tree.EntryLeads dir name found) ∨ tree.EntryLeads dir name (.dir place)

/-- The name begins with a full stop. -/
def IsHidden (name : Bytes) : Prop :=
  name.head? = some 0x2E

instance (name : Bytes) : Decidable (IsHidden name) :=
  inferInstanceAs (Decidable (name.head? = some 0x2E))

/-- The names are those of the visible folders of the directory, as they are read, in the order
of their bytes. -/
def Lists (tree : FileTree) (dir : Bytes) (names : List String) : Prop :=
  ∃ (place : Place) (folders : List Bytes), tree.LeadsTo dir (.dir place) ∧ folders.Nodup ∧
    (∀ name, name ∈ folders ↔ ¬ IsHidden name ∧
      ∃ node, (name :: place, node) ∈ tree.entries ∧ IsFolder tree dir (name, node)) ∧
    names.Perm (folders.map Utf8.decodeLossy) ∧
    names.Pairwise fun left right => Utf8.encode left ≤ Utf8.encode right

theorem Lists.unique {tree : FileTree} {dir : Bytes} {names others : List String}
    (lists : Lists tree dir names) (listsOthers : Lists tree dir others) : names = others := by
  obtain ⟨place, folders, leads, distinct, members, same, sorted⟩ := lists
  obtain ⟨_, otherFolders, otherLeads, otherDistinct, otherMembers, otherSame, otherSorted⟩ :=
    listsOthers
  cases leads.unique otherLeads
  have folders_perm : folders.Perm otherFolders := by
    rw [List.perm_ext_iff_of_nodup distinct otherDistinct]
    intro name
    rw [members, otherMembers]
  have names_perm : names.Perm others :=
    (same.trans (folders_perm.map _)).trans otherSame.symm
  apply names_perm.eq_of_pairwise ?_ sorted otherSorted
  intro left right _ _ before after
  exact Utf8.encode_injective (List.le_antisymm before after)

theorem visibleName?_eq (name : Bytes) :
    visibleName? name = if IsHidden name then none else some (Utf8.decodeLossy name) := by
  have stop : String.utf8EncodeChar '.' = [0x2E] := by decide
  have hidden : (Utf8.decodeLossy name).toList.head? = some '.' ↔ IsHidden name := by
    rw [Utf8.decodeLossy, String.toList_ofList]
    exact Utf8.head?_lossyChars_iff stop
  unfold visibleName?
  simp only [hidden]

def isShown (tree : FileTree) (dir : Bytes) : Bytes × Node → Bool
  | (name, .dir) => ¬ IsHidden name
  | (_, .file) => false
  | (name, .link _) =>
    match tree.resolve (FileTree.entryPath dir name) with
    | .ok (.dir _) => ¬ IsHidden name
    | .ok .file => false
    | .error _ => false

def shown (tree : FileTree) (dir : Bytes) (entries : List (Bytes × Node)) : List Bytes :=
  (entries.filter (isShown tree dir)).map Prod.fst

/-- The name that an entry gives where it does not spoil the scan. -/
def givenName? (tree : FileTree) (dir : Bytes) (entry : Bytes × Node) : Option String :=
  (Option.guard (isShown tree dir) entry).map fun entry => Utf8.decodeLossy entry.1

theorem filterMap_givenName? (tree : FileTree) (dir : Bytes) (entries : List (Bytes × Node)) :
    entries.filterMap (givenName? tree dir) =
      (shown tree dir entries).map Utf8.decodeLossy := by
  unfold givenName? shown
  rw [List.map_map, ← List.filterMap_eq_filter, List.map_filterMap]
  rfl

/-- The scan of a directory whose entries are met in the given order. -/
def scanEntries (tree : FileTree) (dir : Bytes) (place : Place) (entries : List (Bytes × Node)) :
    Except ScanError (List String) := do
  let names ← entries.mapM (nameOfEntry tree dir place)
  return (names.filterMap id).mergeSort Utf8.le

section Entries

variable {tree : FileTree} {dir : Bytes} {place : Place} {entry : Bytes × Node}
  {entries : List (Bytes × Node)} {names : List String} {error : ScanError}

theorem isShown_eq_true_iff (inside : entry ∈ tree.children place) :
    isShown tree dir entry = true ↔ ¬ IsHidden entry.1 ∧ IsFolder tree dir entry := by
  obtain ⟨name, node⟩ := entry
  cases node with
  | dir => simp [isShown, IsFolder]
  | file => simp [isShown, IsFolder]
  | link target =>
    have ordinary := FileTree.ordinary_of_mem (FileTree.mem_children.mp inside)
    simp only [isShown, IsFolder, ← FileTree.resolve_entryPath_eq_ok_iff ordinary]
    rcases tree.resolve (FileTree.entryPath dir name) with _ | _ | _ <;> simp

theorem mem_shown {name : Bytes} :
    name ∈ shown tree dir (tree.children place) ↔ ¬ IsHidden name ∧
      ∃ node, (name :: place, node) ∈ tree.entries ∧ IsFolder tree dir (name, node) := by
  unfold shown
  rw [List.mem_map]
  constructor
  · rintro ⟨⟨name, node⟩, seen, rfl⟩
    obtain ⟨inside, isShown⟩ := List.mem_filter.mp seen
    obtain ⟨visible, isFolder⟩ := (isShown_eq_true_iff inside).mp isShown
    exact ⟨visible, node, FileTree.mem_children.mp inside, isFolder⟩
  · rintro ⟨visible, node, member, isFolder⟩
    have inside := FileTree.mem_children.mpr member
    exact ⟨(name, node),
      List.mem_filter.mpr ⟨inside, (isShown_eq_true_iff inside).mpr ⟨visible, isFolder⟩⟩, rfl⟩

theorem nodup_shown : (shown tree dir (tree.children place)).Nodup :=
  (tree.nodup_names_children place).sublist (List.filter_sublist.map _)

/-- An entry either gives its name, if it has one to give, or spoils the scan. -/
theorem nameOfEntry_of_mem (inside : entry ∈ tree.children place) :
    (¬ Spoils tree dir place entry ∧
      nameOfEntry tree dir place entry = .ok (givenName? tree dir entry)) ∨
    (Spoils tree dir place entry ∧
      ∃ error, nameOfEntry tree dir place entry = .error error ∧ error.OfLink) := by
  obtain ⟨name, node⟩ := entry
  have visible : (Option.guard (fun _ => decide ¬ IsHidden name) (name, node)).map
      (fun entry => Utf8.decodeLossy entry.1) = visibleName? name := by
    rw [visibleName?_eq]
    by_cases hidden : IsHidden name <;> simp [hidden]
  cases node with
  | dir => exact .inl ⟨not_false, congrArg Except.ok visible.symm⟩
  | file => exact .inl ⟨not_false, rfl⟩
  | link target =>
    have ordinary := FileTree.ordinary_of_mem (FileTree.mem_children.mp inside)
    simp only [Spoils, ← FileTree.resolve_entryPath_eq_ok_iff ordinary]
    cases leads : tree.resolve (FileTree.entryPath dir name) with
    | error error =>
      refine .inr ⟨.inl (by simp), .deadLink (FileTree.entryPath dir name) error, ?_, trivial⟩
      rw [nameOfEntry, leads]
    | ok found =>
      cases found with
      | file =>
        refine .inl ⟨by simp, ?_⟩
        simp only [nameOfEntry, givenName?, Option.guard, isShown, leads]
        rfl
      | dir last =>
        have given : givenName? tree dir (name, .link target) = visibleName? name := by
          simp only [givenName?, Option.guard, isShown, leads]
          exact visible
        by_cases back : last = place
        · refine .inr ⟨.inr (by rw [back]), .loop (FileTree.entryPath dir name) dir, ?_, trivial⟩
          simp [nameOfEntry, leads, back]
        · exact .inl ⟨by simp [back], by simp [nameOfEntry, leads, back, given]⟩

theorem nameOfEntry_eq_ok_iff (inside : entry ∈ tree.children place) {found : Option String} :
    nameOfEntry tree dir place entry = .ok found ↔
      ¬ Spoils tree dir place entry ∧ found = givenName? tree dir entry := by
  rcases nameOfEntry_of_mem inside with ⟨harmless, named⟩ | ⟨spoils, error, failed, _⟩
  · rw [named, and_iff_right harmless, Except.ok.injEq, eq_comm]
  · simp [failed, spoils]

theorem scanEntries_eq_ok_iff (inside : entries ⊆ tree.children place) :
    scanEntries tree dir place entries = .ok names ↔
      (∀ entry ∈ entries, ¬ Spoils tree dir place entry) ∧
      names = ((shown tree dir entries).map Utf8.decodeLossy).mergeSort Utf8.le := by
  have given : (entries.map (givenName? tree dir)).filterMap id =
      (shown tree dir entries).map Utf8.decodeLossy := by
    rw [List.filterMap_map, ← filterMap_givenName?]
    rfl
  have mapped (found : List (Option String)) :
      entries.mapM (nameOfEntry tree dir place) = .ok found ↔
        (∀ entry ∈ entries, ¬ Spoils tree dir place entry) ∧
        found = entries.map (givenName? tree dir) :=
    mapM_eq_ok_iff_of_forall fun entry member _ => nameOfEntry_eq_ok_iff (inside member)
  rw [← given]
  constructor
  · intro scanned
    cases names : entries.mapM (nameOfEntry tree dir place) with
    | error error =>
      rw [scanEntries, names] at scanned
      cases scanned
    | ok found =>
      rw [scanEntries, names] at scanned
      cases scanned
      obtain ⟨harmless, rfl⟩ := (mapped found).mp names
      exact ⟨harmless, rfl⟩
  · rintro ⟨harmless, rfl⟩
    rw [scanEntries, (mapped _).mpr ⟨harmless, rfl⟩]
    rfl

end Entries

section Scans

variable {tree : FileTree} {dir : Bytes} {place : Place} {names : List String}

theorem scan_of_resolve (leads : tree.resolve dir = .ok (.dir place)) :
    scan tree dir = scanEntries tree dir place (tree.listing place) := by
  rw [scan, leads]
  rfl

theorem exists_resolve_of_scan (scanned : scan tree dir = .ok names) :
    ∃ place, tree.resolve dir = .ok (.dir place) := by
  unfold scan at scanned
  split at scanned
  · exact ⟨_, ‹_›⟩
  · cases scanned
  · cases scanned

theorem pairwise_sorted (names : List String) :
    (names.mergeSort Utf8.le).Pairwise fun left right =>
      Utf8.encode left ≤ Utf8.encode right := by
  unfold Utf8.le
  exact pairwise_mergeSort_key Utf8.encode names

/-- The entries are met in one order and the names handed on in another, and neither matters. -/
theorem lists_of_scan (scanned : scan tree dir = .ok names) : Lists tree dir names := by
  obtain ⟨place, leads⟩ := exists_resolve_of_scan scanned
  rw [scan_of_resolve leads] at scanned
  obtain ⟨_, rfl⟩ := (scanEntries_eq_ok_iff FileTree.listing_perm.subset).mp scanned
  refine ⟨place, shown tree dir (tree.children place), FileTree.resolve_eq_ok_iff.mp leads,
    nodup_shown, fun _ => mem_shown, ?_, pairwise_sorted _⟩
  exact (List.mergeSort_perm _ _).trans (((FileTree.listing_perm.filter _).map _).map _)

theorem scan_of_sorted {found : List (Option String)}
    (leads : tree.resolve dir = .ok (.dir place))
    (entries : (tree.children place).Pairwise fun left right => left.1 ≤ right.1)
    (mapped : (tree.children place).mapM (nameOfEntry tree dir place) = .ok found)
    (names : (found.filterMap id).Pairwise fun left right =>
      Utf8.encode left ≤ Utf8.encode right) :
    scan tree dir = .ok (found.filterMap id) := by
  have listed : tree.listing place = tree.children place := by
    apply List.mergeSort_of_pairwise
    simpa only [decide_eq_true_eq] using entries
  have sorted : (found.filterMap id).mergeSort Utf8.le = found.filterMap id := by
    apply List.mergeSort_of_pairwise
    simpa only [Utf8.le, decide_eq_true_eq] using names
  rw [scan_of_resolve leads, listed, scanEntries, mapped]
  exact congrArg Except.ok sorted

end Scans

end Folder

end HostPattern
