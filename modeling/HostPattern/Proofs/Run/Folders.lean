import HostPattern.Proofs.Folder.Matching
import HostPattern.Proofs.Run.Question

/-!
# The search in a directory

For each name the folders that accept it are printed in the order of the listing, and for
a name that none accepts there is a line on standard error.  The answer is yes if there is
no such name.
-/

namespace HostPattern

open Text

namespace Folder

/-- One of the names is a pattern for the name to be checked. -/
def Answers (folders : List String) (name : String) : Prop :=
  ∃ folder ∈ folders, Pattern.Means folder name

instance (folders : List String) (name : String) : Decidable (Answers folders name) :=
  inferInstanceAs (Decidable (∃ folder ∈ folders, Pattern.Means folder name))

theorem accepting_eq_nil_iff {folders : List String} {name : String} :
    accepting folders name = [] ↔ ¬ Answers folders name := by
  rw [List.eq_nil_iff_forall_not_mem]
  constructor
  · rintro empty ⟨folder, member⟩
    exact empty folder (mem_accepting.mpr member)
  · intro unanswered folder member
    exact unanswered ⟨folder, mem_accepting.mp member⟩

theorem matching_eq_nil_iff {sequential : Bool} {folders : List String} {name : String} :
    matching (ofNames sequential folders) name = [] ↔ ¬ Answers folders name := by
  rw [← accepting_eq_nil_iff, ← map_name_matching_ofNames sequential, List.map_eq_nil_iff]

theorem all_matched_eq (sequential : Bool) (folders names : List String) :
    ((names.map fun name => (name, matching (ofNames sequential folders) name)).all
      (!·.2.isEmpty)) = decide (∀ name ∈ names, Answers folders name) := by
  rw [Bool.eq_iff_iff, decide_eq_true_eq, List.all_map, List.all_eq_true]
  apply forall₂_congr
  intro name _
  rw [Function.comp_apply, Bool.not_eq_true', List.isEmpty_eq_false_iff, Ne,
    matching_eq_nil_iff, not_not]

end Folder

namespace Plan

open Folder

def missLine (directory name : String) : String :=
  "No folder in " ++ directory ++ " matches " ++ name ++ "\n"

theorem render_folder (names : List String) (name : String) (folder : Folder) :
    (Report.folder (label names name) folder).render false = resultLine names name folder.name := by
  unfold label resultLine
  by_cases several : 1 < names.length
  · rw [if_pos several, if_pos several]
    simp [Report.folder, Block.render, Segment.render, String.append_assoc]
  · rw [if_neg several, if_neg several]
    simp [Report.folder, Block.render, Segment.render]

section Steps

variable {directory name : String} {names : List String} {matched : String → List Folder}

theorem join_printed_folderSteps (matched : List Folder) :
    String.join ((folderSteps directory names name matched).map (Step.printed false)) =
      String.join ((matched.map Folder.name).map (resultLine names name)) := by
  cases matched with
  | nil => rfl
  | cons first others =>
    -- There are folders to print, so that there is no warning among the steps.
    rw [folderSteps, if_neg (by simp), List.map_map, List.map_map]
    congr 2
    funext folder
    exact render_folder names name folder

theorem join_warned_folderSteps (matched : List Folder) :
    String.join ((folderSteps directory names name matched).map Step.warned) =
      if matched = [] then missLine directory name else "" := by
  cases matched with
  | nil => rfl
  | cons first others =>
    rw [folderSteps, if_neg (by simp), if_neg (by simp)]
    exact Step.join_warned_print _ _

theorem join_printed_search :
    String.join ((names.flatMap fun name => folderSteps directory names name (matched name)).map
      (Step.printed false)) =
      String.join (names.flatMap fun name =>
        ((matched name).map Folder.name).map (resultLine names name)) := by
  rw [List.map_flatMap, join_flatMap, join_flatMap]
  simp only [join_printed_folderSteps]

theorem join_warned_search :
    String.join ((names.flatMap fun name => folderSteps directory names name (matched name)).map
      Step.warned) =
      String.join ((names.filter fun name => matched name = []).map (missLine directory)) := by
  rw [join_map_filter, List.map_flatMap, join_flatMap]
  simp only [join_warned_folderSteps]

end Steps

section Listed

variable {line : CommandLine} {dir : Bytes} {folders names : List String}

def ofListed (line : CommandLine) (dir : Bytes) (folders names : List String) : Plan where
  steps := names.flatMap fun name => folderSteps (Utf8.decodeLossy dir) names name
    (matching (ofNames line.sequential folders) name)
  success := decide (∀ name ∈ names, Answers folders name)

theorem plan_eq_ofListed {setting : Setting} (plain : PlainText line setting)
    (search : line.dir = some dir) (scanned : scan setting.tree dir = .ok folders)
    (checks : Checks line.words setting.sources names) :
    plan line setting = .ok (some (ofListed line dir folders names)) := by
  rw [plan_of_lines plain (question_eq_search search scanned checks), ofListed,
    ← all_matched_eq line.sequential, ofNames_eq_map, List.all_map]
  rfl

theorem join_printed_ofListed :
    String.join ((ofListed line dir folders names).steps.map (Step.printed false)) =
      String.join (names.flatMap fun name =>
        (accepting folders name).map (resultLine names name)) := by
  rw [ofListed, join_printed_search]
  simp only [map_name_matching_ofNames]

theorem join_warned_ofListed :
    String.join ((ofListed line dir folders names).steps.map Step.warned) =
      String.join ((names.filter fun name => ¬ Answers folders name).map
        (missLine (Utf8.decodeLossy dir))) := by
  rw [ofListed, join_warned_search]
  simp only [matching_eq_nil_iff]

end Listed

end Plan

open Folder in
/-- A search in a directory prints a line for each name and each of the listed folders that
accepts it, both in order, and says of each other name that no folder does.  It succeeds
if there is no such name. -/
theorem outcome_of_search {arguments : List Bytes} {setting : Setting} {line : CommandLine}
    {dir : Bytes} {folders names : List String}
    (read : CommandLine.read arguments = .ok line) (search : line.dir = some dir)
    (plain : PlainText line setting) (scanned : scan setting.tree dir = .ok folders)
    (checks : Checks line.words setting.sources names) :
    Lists setting.tree dir folders ∧
    run arguments setting = some
      ⟨if ∀ name ∈ names, Answers folders name then 0 else 1,
        String.join (names.flatMap fun name =>
          (accepting folders name).map (resultLine names name)),
        String.join ((names.filter fun name => ¬ Answers folders name).map
          (Plan.missLine (Utf8.decodeLossy dir)))⟩ := by
  refine ⟨lists_of_scan scanned, ?_⟩
  rw [run_eq_of_plan read plain (Plan.plan_eq_ofListed plain search scanned checks),
    Plan.join_printed_ofListed, Plan.join_warned_ofListed]
  simp only [Plan.ofListed, decide_eq_true_eq]

def southRoom : Place :=
  [Utf8.encode "south", Utf8.encode "rooms"]

/-- A room with a hidden folder, folders that are patterns, a file, a folder that is no pattern,
and a link to a link to a folder; and at the root a link into it. -/
def machineRoom : FileTree :=
  let name := Utf8.encode
  ⟨[([name "rooms"], .dir), (southRoom, .dir), (name ".%" :: southRoom, .dir),
    (name "Rack01~09" :: southRoom, .dir), (name "Web%" :: southRoom, .link (name "../pool")),
    (name "db%" :: southRoom, .file), (name "old web" :: southRoom, .dir),
    (name "r%3" :: southRoom, .dir), ([name "pool", name "rooms"], .link (name "/spare")),
    ([name "spare"], .dir), ([name "now"], .link (name "/rooms/south/.%"))],
    [name "rooms"], by decide, by decide, by decide⟩

def inMachineRoom : Setting :=
  ⟨machineRoom, ⟨none, none, none, none, none⟩, ⟨none, none, none, none, none, none⟩, .pipe,
    false⟩

theorem outcome_of_search_machineRoom :
    let names := ["web5", "RACK03", "db1"]
    let arguments := ["-d/now/..", "web5", "RACK03", "db1"].map Utf8.encode
    let line : CommandLine :=
      ⟨names, some (Utf8.encode "/now/.."), false, false, false, false⟩
    CommandLine.read arguments = .ok line ∧ PlainText line inMachineRoom ∧
      Folder.scan machineRoom (Utf8.encode "/now/..") =
        .ok ["Rack01~09", "Web%", "old web", "r%3"] ∧
      Checks names inMachineRoom.sources names ∧
      run arguments inMachineRoom = some
        ⟨1, "web5: Web%\nRACK03: Rack01~09\nRACK03: r%3\n",
          "No folder in /now/.. matches db1\n"⟩ := by
  intro names arguments line
  have read : CommandLine.read arguments = .ok line := by decide +kernel
  have plain : PlainText line inMachineRoom := ⟨rfl, rfl, rfl, by decide⟩
  have leads : machineRoom.resolve (Utf8.encode "/now/..") = .ok (.dir southRoom) := by cbv
  have mapped : (machineRoom.children southRoom).mapM
      (Folder.nameOfEntry machineRoom (Utf8.encode "/now/..") southRoom) =
      .ok [none, some "Rack01~09", some "Web%", none, some "old web", some "r%3"] := by cbv
  have scanned : Folder.scan machineRoom (Utf8.encode "/now/..") =
      .ok ["Rack01~09", "Web%", "old web", "r%3"] :=
    Folder.scan_of_sorted leads (by decide) mapped (by decide)
  have checks : Checks names inMachineRoom.sources names := .given (by decide)
  refine ⟨read, plain, scanned, checks, ?_⟩
  rw [(outcome_of_search read rfl plain scanned checks).2]
  decide +kernel

end HostPattern
