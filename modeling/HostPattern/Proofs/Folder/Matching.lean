import HostPattern.Proofs.Folder.Listing
import HostPattern.Proofs.Pattern.Meaning

/-!
# Folders that match

Names of folders that are no UTF-8 are read as texts that stand for no folder, and several
of them as the same text.  Such a text has a replacement character in it and so is no
pattern.  A folder that matches is therefore named as it is on the disk, and no other has
its name.
-/

namespace HostPattern

open Text

namespace Folder

/-- The text of a name is a pattern only if the name is its encoding. -/
theorem encode_decodeLossy_of_means {bytes : Bytes} {name : String}
    (means : Pattern.Means (Utf8.decodeLossy bytes) name) :
    Utf8.encode (Utf8.decodeLossy bytes) = bytes := by
  obtain ⟨pattern, reading, _⟩ := means
  apply Utf8.encode_decodeLossy
  intro broken
  rcases reading.ascii _ broken with alphanum | separates | hyphen | marks
  · cases alphanum
  · cases separates
  · cases hyphen
  · cases marks

def accepting (folders : List String) (name : String) : List String :=
  folders.filter fun folder => Pattern.Means folder name

theorem mem_accepting {folders : List String} {name folder : String} :
    folder ∈ accepting folders name ↔ folder ∈ folders ∧ Pattern.Means folder name := by
  rw [accepting, List.mem_filter, decide_eq_true_eq]

theorem accepts_ofName (raw name : String) :
    (ofName raw).accepts name = decide (Pattern.Means raw name) := by
  rw [Bool.eq_iff_iff, decide_eq_true_eq, ← Pattern.accepts_compile_eq_true_iff_means]
  exact Iff.rfl

theorem map_name_matching_ofNames (sequential : Bool) (folders : List String) (name : String) :
    (matching (ofNames sequential folders) name).map Folder.name = accepting folders name := by
  rw [ofNames_eq_map, matching, accepting, List.filter_map, List.map_map]
  simp only [Function.comp_def, name_ofName, List.map_id', accepts_ofName]

theorem load_of_scan {tree : FileTree} {dir : Bytes} {folders : List String}
    (scanned : scan tree dir = .ok folders) (sequential : Bool) :
    load tree dir sequential = .ok (ofNames sequential folders) := by
  rw [load, scanned]
  rfl

section Listed

variable {folders : List Bytes} {names : List String} {name folder : String}

theorem encode_mem_of_mem_accepting (listed : names.Perm (folders.map Utf8.decodeLossy))
    (member : folder ∈ accepting names name) : Utf8.encode folder ∈ folders := by
  obtain ⟨inside, means⟩ := mem_accepting.mp member
  obtain ⟨bytes, isFolder, rfl⟩ := List.mem_map.mp (listed.mem_iff.mp inside)
  rwa [encode_decodeLossy_of_means means]

theorem nodup_accepting (listed : names.Perm (folders.map Utf8.decodeLossy))
    (distinct : folders.Nodup) : (accepting names name).Nodup := by
  have accepted : (accepting names name).Perm
      ((folders.map Utf8.decodeLossy).filter fun folder => Pattern.Means folder name) :=
    listed.filter _
  rw [accepted.nodup_iff, List.filter_map]
  apply List.Nodup.map_on
  · intro left leftAccepted right rightAccepted same
    have leftMeans := decide_eq_true_eq.mp (List.mem_filter.mp leftAccepted).2
    have rightMeans := decide_eq_true_eq.mp (List.mem_filter.mp rightAccepted).2
    rw [← encode_decodeLossy_of_means leftMeans, same, encode_decodeLossy_of_means rightMeans]
  · exact distinct.filter _

theorem strictly_increasing_of_nodup {names : List String} (distinct : names.Nodup)
    (sorted : names.Pairwise fun left right => Utf8.encode left ≤ Utf8.encode right) :
    names.Pairwise fun left right => Utf8.encode left < Utf8.encode right := by
  refine (sorted.and distinct).imp ?_
  rintro left right ⟨le, different⟩
  apply Std.lt_of_le_of_ne le
  exact fun same => different (Utf8.encode_injective same)

end Listed

/-- Each folder that matches is a visible entry of the directory with exactly its name, a
directory or a link to one; and the names of those that match increase strictly. -/
theorem matching_named_as_on_disk {tree : FileTree} {dir : Bytes} {names : List String}
    (scanned : scan tree dir = .ok names) (sequential : Bool) (candidate : String) :
    ∃ place folders, tree.resolve dir = .ok (.dir place) ∧
      load tree dir sequential = .ok folders ∧
      (∀ folder ∈ matching folders candidate,
        ∃ node, (Utf8.encode folder.name, node) ∈ tree.children place ∧
          IsFolder tree dir (Utf8.encode folder.name, node) ∧
          ¬ IsHidden (Utf8.encode folder.name)) ∧
      ((matching folders candidate).map Folder.name).Nodup ∧
      ((matching folders candidate).map Folder.name).Pairwise fun left right =>
        Utf8.encode left < Utf8.encode right := by
  obtain ⟨place, folders, leads, distinct, members, listed, sorted⟩ := lists_of_scan scanned
  have nodup : (accepting names candidate).Nodup := nodup_accepting listed distinct
  refine ⟨place, _, FileTree.resolve_eq_ok_iff.mpr leads, load_of_scan scanned sequential,
    ?_, ?_, ?_⟩
  · intro folder member
    have named : folder.name ∈ accepting names candidate := by
      rw [← map_name_matching_ofNames sequential]
      exact List.mem_map_of_mem member
    obtain ⟨visible, node, inside, isFolder⟩ :=
      (members _).mp (encode_mem_of_mem_accepting listed named)
    exact ⟨node, FileTree.mem_children.mpr inside, isFolder, visible⟩
  · rw [map_name_matching_ofNames]
    exact nodup
  · rw [map_name_matching_ofNames]
    exact strictly_increasing_of_nodup nodup (sorted.filter _)

/-- A pattern, and two names that are no UTF-8 and read as the same text. -/
def colliding : FileTree :=
  ⟨[([Utf8.encode "Web%"], .dir), ([[0xFE]], .dir), ([[0xFF]], .dir)], .root, by decide,
    by decide, by decide⟩

theorem matching_named_as_on_disk_colliding :
    scan colliding FileTree.dot = .ok ["Web%", "\uFFFD", "\uFFFD"] ∧
    ∃ place folders, colliding.resolve FileTree.dot = .ok (.dir place) ∧
      load colliding FileTree.dot false = .ok folders ∧
      (∀ folder ∈ matching folders "web5",
        ∃ node, (Utf8.encode folder.name, node) ∈ colliding.children place ∧
          IsFolder colliding FileTree.dot (Utf8.encode folder.name, node) ∧
          ¬ IsHidden (Utf8.encode folder.name)) ∧
      ((matching folders "web5").map Folder.name).Nodup ∧
      ((matching folders "web5").map Folder.name).Pairwise fun left right =>
        Utf8.encode left < Utf8.encode right := by
  have leads : colliding.resolve FileTree.dot = .ok (.dir .root) := by cbv
  have mapped : (colliding.children .root).mapM (nameOfEntry colliding FileTree.dot .root) =
      .ok [some "Web%", some "\uFFFD", some "\uFFFD"] := by cbv
  have scanned : scan colliding FileTree.dot = .ok ["Web%", "\uFFFD", "\uFFFD"] :=
    scan_of_sorted leads (by decide) mapped (by decide)
  exact ⟨scanned, matching_named_as_on_disk scanned false "web5"⟩

end Folder

end HostPattern
