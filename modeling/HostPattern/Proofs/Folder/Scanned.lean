import HostPattern.Proofs.Folder.Listing

/-!
# What a scan comes to

A scan of what is no directory is refused.  A link among the entries that leads nowhere, or
back to the directory, spoils it, whether its name is hidden or not.  Any other scan gives
the one list of names that `Lists` allows.  So neither the order in which the tree keeps its
nodes nor the order in which the entries are met matters, except that of several links which
spoil a scan the first one is blamed.
-/

namespace HostPattern

open Text

namespace Folder

section Entries

variable {tree : FileTree} {dir : Bytes} {place : Place}
  {entries : List (Bytes × Node)} {names : List String} {error : ScanError}

theorem ofLink_and_exists_of_scanEntries (inside : entries ⊆ tree.children place)
    (scanned : scanEntries tree dir place entries = .error error) :
    error.OfLink ∧ ∃ entry ∈ entries, Spoils tree dir place entry := by
  cases mapped : entries.mapM (nameOfEntry tree dir place) with
  | error blamed =>
    rw [scanEntries, mapped] at scanned
    cases scanned
    obtain ⟨entry, member, fails⟩ := exists_of_mapM_eq_error mapped
    rcases nameOfEntry_of_mem (inside member) with ⟨_, named⟩ | ⟨spoils, _, failed, ofLink⟩
    · rw [fails] at named
      cases named
    · rw [fails] at failed
      cases failed
      exact ⟨ofLink, entry, member, spoils⟩
  | ok found =>
    rw [scanEntries, mapped] at scanned
    cases scanned

theorem exists_scanEntries_eq_error_iff (inside : entries ⊆ tree.children place) :
    (∃ error, scanEntries tree dir place entries = .error error ∧ error.OfLink) ↔
      ∃ entry ∈ entries, Spoils tree dir place entry := by
  constructor
  · rintro ⟨error, scanned, _⟩
    exact (ofLink_and_exists_of_scanEntries inside scanned).2
  · rintro ⟨entry, member, spoils⟩
    cases scanned : scanEntries tree dir place entries with
    | error error => exact ⟨error, rfl, (ofLink_and_exists_of_scanEntries inside scanned).1⟩
    | ok names =>
      exact absurd spoils (((scanEntries_eq_ok_iff inside).mp scanned).1 entry member)

/-- Names that read alike are the same text, so that only one order of them is sorted. -/
theorem mergeSort_eq_of_perm {others : List String} (same : others.Perm names) :
    others.mergeSort Utf8.le = names.mergeSort Utf8.le := by
  unfold Utf8.le
  exact mergeSort_key_eq_of_perm Utf8.encode (fun _ _ _ _ bytes => Utf8.encode_injective bytes) same

/-- Only the blame depends on the order in which the entries are met. -/
theorem toOption_scanEntries_eq_of_perm {others : List (Bytes × Node)}
    (inside : entries ⊆ tree.children place) (same : others.Perm entries) :
    (scanEntries tree dir place others).toOption =
      (scanEntries tree dir place entries).toOption := by
  have found (any : List (Bytes × Node)) (names : List String) :
      (scanEntries tree dir place any).toOption = some names ↔
        scanEntries tree dir place any = .ok names := by
    cases scanEntries tree dir place any <;> simp [Except.toOption]
  apply Option.ext
  intro names
  rw [found, found, scanEntries_eq_ok_iff (fun _ member => inside (same.subset member)),
    scanEntries_eq_ok_iff inside]
  simp only [same.mem_iff, mergeSort_eq_of_perm (((same.filter _).map _).map _), shown]

end Entries

section Scans

variable {tree : FileTree} {dir : Bytes} {place : Place}

theorem scan_eq_notDirectory_iff {path : Bytes} :
    scan tree dir = .error (.notDirectory path) ↔
      path = dir ∧ ∀ place, ¬ tree.LeadsTo dir (.dir place) := by
  simp only [← FileTree.resolve_eq_ok_iff]
  constructor
  · intro refused
    cases leads : tree.resolve dir with
    | error error =>
      rw [scan, leads] at refused
      cases refused
      simp
    | ok found =>
      cases found with
      | file =>
        rw [scan, leads] at refused
        cases refused
        simp
      | dir place =>
        rw [scan_of_resolve leads] at refused
        exact (ofLink_and_exists_of_scanEntries FileTree.listing_perm.subset refused).1.elim
  · rintro ⟨rfl, nowhere⟩
    cases leads : tree.resolve path with
    | error error => rw [scan, leads]
    | ok found =>
      cases found with
      | file => rw [scan, leads]
      | dir place => exact absurd leads (nowhere place)

theorem scan_eq_of_perm {other : FileTree} (working : other.working = tree.working)
    (same : other.entries.Perm tree.entries) : scan other dir = scan tree dir := by
  have named (place : Place) : nameOfEntry other dir place = nameOfEntry tree dir place := by
    funext entry
    simp only [nameOfEntry, FileTree.resolve_eq_of_perm same working]
  simp only [scan, FileTree.resolve_eq_of_perm same working, FileTree.listing_eq_of_perm same,
    named]

end Scans

/-- A scan is refused exactly where the path leads to no directory.  Else it is spoiled exactly
by a link among the entries that leads nowhere or back, and if there is none it gives the one
list of the visible folders.  Neither the order of the nodes in the tree nor the order in which
the entries are met changes that. -/
theorem scan_by_nodes (tree : FileTree) (dir : Bytes) :
    (∀ path, scan tree dir = .error (.notDirectory path) ↔
      path = dir ∧ ∀ place, ¬ tree.LeadsTo dir (.dir place)) ∧
    (∀ place, tree.LeadsTo dir (.dir place) →
      ((∃ error, scan tree dir = .error error ∧ error.OfLink) ↔
        ∃ name node, (name :: place, node) ∈ tree.entries ∧
          Spoils tree dir place (name, node)) ∧
      ((∃ names, scan tree dir = .ok names ∧ ∀ others, Lists tree dir others ↔ others = names) ↔
        ∀ name node, (name :: place, node) ∈ tree.entries →
          ¬ Spoils tree dir place (name, node)) ∧
      ∀ met, tree.Holds place met →
        (scanEntries tree dir place met).toOption = (scan tree dir).toOption) ∧
    ∀ other : FileTree, other.working = tree.working → other.entries.Perm tree.entries →
      scan other dir = scan tree dir := by
  refine ⟨fun _ => scan_eq_notDirectory_iff, ?_, fun _ => scan_eq_of_perm⟩
  intro place leads
  have listed : (tree.listing place).Perm (tree.children place) := FileTree.listing_perm
  have scanned : scan tree dir = scanEntries tree dir place (tree.listing place) :=
    scan_of_resolve (FileTree.resolve_eq_ok_iff.mpr leads)
  refine ⟨?_, ?_, ?_⟩
  · rw [scanned, exists_scanEntries_eq_error_iff listed.subset]
    simp only [Prod.exists, listed.mem_iff, FileTree.mem_children]
  · constructor
    · rintro ⟨names, found, _⟩ name node member
      rw [scanned] at found
      exact ((scanEntries_eq_ok_iff listed.subset).mp found).1 _
        (listed.mem_iff.mpr (FileTree.mem_children.mpr member))
    · intro harmless
      have found := (scanEntries_eq_ok_iff listed.subset).mpr
        ⟨fun entry member => harmless entry.1 entry.2
          (FileTree.mem_children.mp (listed.mem_iff.mp member)), rfl⟩
      rw [← scanned] at found
      refine ⟨_, found, fun others => ⟨fun lists => lists.unique (lists_of_scan found), ?_⟩⟩
      rintro rfl
      exact lists_of_scan found
  · intro met holds
    rw [scanned]
    exact toOption_scanEntries_eq_of_perm listed.subset
      ((FileTree.holds_iff_perm.mp holds).trans listed.symm)

/-- A file system where links lead on to other links, up, to the root, around in a circle and
back to their directory. -/
def linked : FileTree :=
  let name := Utf8.encode
  ⟨[([name "srv"], .dir), ([name "hosts", name "srv"], .dir), ([name "mail"], .dir),
    ([name "Web%", name "hosts", name "srv"], .dir),
    ([name "first", name "hosts", name "srv"], .link (name "../spare")),
    ([name "spare", name "srv"], .link (name "/mail")),
    ([name "loop"], .dir), ([name "self", name "loop"], .link (name "self")),
    ([name "back"], .dir), ([name ".up", name "back"], .link (name "../back"))],
    [name "hosts", name "srv"], by decide, by decide, by decide⟩

example : scan linked (Utf8.encode "/srv/hosts") = .ok ["Web%", "first"] := by
  cbv

example : scan linked (Utf8.encode "..") = .ok ["hosts", "spare"] := by
  cbv

example : scan linked (Utf8.encode "/loop") =
    .error (.deadLink (Utf8.encode "/loop/self") .tooManyLinks) := by
  cbv

example : scan linked (Utf8.encode "../../back") =
    .error (.loop (Utf8.encode "../../back/.up") (Utf8.encode "../../back")) := by
  cbv

end Folder

end HostPattern
