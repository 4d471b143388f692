import HostPattern.Proofs.Json.Members
import HostPattern.Proofs.Json.RoundTrip
import HostPattern.Proofs.Run.Folders
import HostPattern.Proofs.Run.Question
import HostPattern.Proofs.Run.Verdicts
import HostPattern.Proofs.Traversal

/-!
# The presentations of one answer

A report holds all that the plain lines say: they are written from its results, and the
exit status is the same in every presentation.
-/

namespace HostPattern

open Text

namespace Report

def results? {α : Type} (matched? : Json → Option α) (report : Json) :
    Option (List (String × α)) := do
  let results ← report.member? "results"
  (← results.items?).mapM fun result => do
    let name ← result.member? "name"
    let matched ← result.member? "matched"
    return (← name.str?, ← matched? matched)

def texts? (value : Json) : Option (List String) := do
  (← value.items?).mapM Json.str?

def verdictLines (results : List (String × Bool)) : String :=
  String.join (results.map fun result =>
    resultLine (results.map Prod.fst) result.1 (Plan.verdictWord result.2))

def foundLines (results : List (String × List String)) : String :=
  String.join (results.flatMap fun result =>
    result.2.map (resultLine (results.map Prod.fst) result.1))

def missLines (directory : String) (results : List (String × List String)) : String :=
  String.join ((results.filter fun result => result.2 = []).map fun result =>
    Plan.missLine directory result.1)

/-- What standard output and standard error get where lines are to say what a report says. -/
def lines? (report : Json) : Option (String × String) :=
  match report.member? "directory" with
  | none => do
    let results ← results? Json.bool? report
    return (verdictLines results, "")
  | some directory => do
    let directory ← directory.str?
    let results ← results? texts? report
    return (foundLines results, missLines directory results)

section Decoding

open Json

theorem texts?_sorted {α : Type} (text : α → String) (xs : List α) :
    texts? (Json.arr (xs.map fun x => .str (text x))).sorted = some (xs.map text) := by
  unfold texts?
  rw [items?_sorted_arr, List.map_map]
  exact mapM_map_of_forall fun x _ => str?_sorted_str (text x)

variable {α β : Type} {matched? : Json → Option β} {json : α → Json} {value : α → β}

theorem results?_of_member {report : Json} {results : List (String × α)}
    (reads : ∀ x, matched? (json x).sorted = some (value x))
    (beside : report.member? "results" = some (Json.arr (results.map fun result =>
      .obj [("name", .str result.1), ("matched", json result.2)])).sorted) :
    results? matched? report = some (results.map fun result => (result.1, value result.2)) := by
  unfold results?
  rw [beside]
  simp only [Option.bind_eq_bind, Option.bind_some, items?_sorted_arr, List.map_map]
  apply mapM_map_of_forall
  intro result _
  have keys : ([("name", Json.str result.1), ("matched", json result.2)].map Prod.fst).Nodup := by
    simp
  have name : (Json.obj [("name", .str result.1), ("matched", json result.2)]).member? "name" =
      some (.str result.1) := rfl
  have matched : (Json.obj [("name", .str result.1), ("matched", json result.2)]).member?
      "matched" = some (json result.2) := rfl
  simp only [Function.comp_apply, member?_sorted keys, name, matched, Option.map_some,
    Option.bind_some, str?_sorted_str, reads]
  rfl

end Decoding

theorem lines?_of_verdicts {report : Json} {results : List (String × Bool)}
    (noDirectory : report.member? "directory" = none)
    (read : results? Json.bool? report = some results) :
    lines? report = some (verdictLines results, "") := by
  rw [lines?, noDirectory]
  dsimp only
  rw [read]
  rfl

theorem lines?_of_folders {report : Json} {directory : String}
    {results : List (String × List String)}
    (beside : report.member? "directory" = some (Json.str directory).sorted)
    (read : results? texts? report = some results) :
    lines? report = some (foundLines results, missLines directory results) := by
  rw [lines?, beside]
  dsimp only
  rw [Json.str?_sorted_str, read]
  rfl

theorem lines?_ofPattern? {raw : String} {pattern : Pattern} {results : List (String × Bool)}
    {report : Json} (made : ofPattern? raw pattern results = some report) :
    lines? report.sorted = some (verdictLines results, "") := by
  obtain ⟨description, -, made⟩ := Option.bind_eq_some_iff.mp made
  cases made
  refine lines?_of_verdicts (Json.member?_sorted (by simp) "directory") ?_
  rw [results?_of_member Json.bool?_sorted_bool (Json.member?_sorted (by simp) "results")]
  simp

theorem lines?_ofFolders (directory : String) (folders : List Folder)
    (results : List (String × List Folder)) :
    lines? (ofFolders directory folders results).sorted =
      some (foundLines (results.map fun result => (result.1, result.2.map Folder.name)),
        missLines directory (results.map fun result => (result.1, result.2.map Folder.name))) := by
  apply lines?_of_folders (Json.member?_sorted (by simp) "directory")
  exact results?_of_member (texts?_sorted Folder.name) (Json.member?_sorted (by simp) "results")

end Report

namespace Question

theorem lines?_of_report? {asked : Question} {report : Json} (made : asked.report? = some report) :
    Report.lines? report.sorted = some
      (String.join (asked.lines.map (Step.printed false)),
        String.join (asked.lines.map Step.warned)) := by
  cases asked with
  | check raw names =>
    rw [Report.lines?_ofPattern? made, Plan.join_printed_check, Plan.join_warned_check]
    simp only [Report.verdictLines, List.map_map, Function.comp_def, List.map_id']
  | search directory folders names =>
    cases made
    rw [Report.lines?_ofFolders, lines, Plan.join_printed_search, Plan.join_warned_search]
    simp [Report.foundLines, Report.missLines, List.flatMap_map, List.filter_map,
      Function.comp_def]

end Question

section Runs

variable {arguments : List Bytes} {setting : Setting} {line : CommandLine}

theorem run_eq_of_question (read : CommandLine.read arguments = .ok line) :
    run arguments setting =
      match question line setting with
      | .error failure => some ⟨1, "", failure.report⟩
      | .ok asked => (asked.present? line).map (Outcome.ofPlan setting.sink
          (showsColour (!line.noColor && setting.sink.isTerminal) setting.display.term
            setting.display.noColor)) := by
  unfold run
  rw [read]
  dsimp only
  rw [plan_eq_present?]
  cases question line setting with
  | error failure => rfl
  | ok asked =>
    dsimp only [Except.map]
    cases asked.present? line <;> rfl

theorem exit_of_run {outcome : Outcome} (room : setting.sink ≠ .full)
    (read : CommandLine.read arguments = .ok line) (done : run arguments setting = some outcome) :
    outcome.exit =
      match question line setting with
      | .error _ => 1
      | .ok asked => if asked.answer then 0 else 1 := by
  rw [run_eq_of_question read] at done
  cases asks : question line setting with
  | error failure =>
    rw [asks] at done
    cases done
    rfl
  | ok asked =>
    rw [asks] at done
    obtain ⟨shown, presented, rfl⟩ := Option.map_eq_some_iff.mp done
    rw [Outcome.ofPlan_eq room, Question.success_of_present? presented]

/-- A run breaks off only over a description, which nothing but flags asks for. -/
theorem shows_of_run_eq_none (broken : run arguments setting = none) :
    ∃ line, CommandLine.read arguments = .ok line ∧
      (line.json = true ∨ line.explain = true) := by
  cases read : CommandLine.read arguments with
  | error halt =>
    unfold run at broken
    rw [read] at broken
    cases halt <;> cases broken
  | ok line =>
    refine ⟨line, rfl, ?_⟩
    by_contra neither
    rw [not_or, Bool.not_eq_true, Bool.not_eq_true] at neither
    obtain ⟨noReport, noExplanations⟩ := neither
    rw [run_eq_of_question read] at broken
    cases asks : question line setting with
    | error failure =>
      rw [asks] at broken
      cases broken
    | ok asked =>
      rw [asks] at broken
      dsimp only at broken
      rw [Question.present?_of_lines noReport noExplanations] at broken
      cases broken

theorem run_eq_of_json {asked : Question} (room : setting.sink ≠ .full)
    (read : CommandLine.read arguments = .ok line) (json : line.json = true)
    (asks : question line setting = .ok asked) :
    run arguments setting = asked.report?.map fun report =>
      ⟨if asked.answer then 0 else 1, report.pretty ++ "\n", ""⟩ := by
  rw [run_eq_of_question read, asks]
  dsimp only
  rw [Question.present?_of_json json, Option.map_map]
  congr 1
  funext report
  rw [Function.comp_apply, Outcome.ofPlan_eq room]
  simp [Step.printed, Step.warned, Report.document, Block.render, Segment.render]

end Runs

section Pairs

variable {arguments others : List Bytes} {setting : Setting}

theorem run_eq_of_read (same : CommandLine.read others = CommandLine.read arguments) :
    run others setting = run arguments setting := by
  unfold run
  rw [same]

/-- Runs that ask for the same end with the same exit status. -/
theorem exit_eq_of_request
    (same : (CommandLine.read others).map CommandLine.request =
      (CommandLine.read arguments).map CommandLine.request)
    (room : setting.sink ≠ .full) {outcome other : Outcome}
    (done : run arguments setting = some outcome) (otherDone : run others setting = some other) :
    other.exit = outcome.exit := by
  cases read : CommandLine.read arguments with
  | error halt =>
    cases otherRead : CommandLine.read others with
    | error otherHalt =>
      rw [read, otherRead] at same
      cases same
      rw [run_eq_of_read (otherRead.trans read.symm), done] at otherDone
      cases otherDone
      rfl
    | ok otherLine =>
      rw [read, otherRead] at same
      cases same
  | ok line =>
    cases otherRead : CommandLine.read others with
    | error otherHalt =>
      rw [read, otherRead] at same
      cases same
    | ok otherLine =>
      rw [read, otherRead] at same
      rw [exit_of_run room read done, exit_of_run room otherRead otherDone,
        question_eq_of_request (Except.ok.inj same)]

/-- Whether folder names are read one after the other shows nowhere. -/
theorem run_sequential
    (same : CommandLine.read others = (CommandLine.read arguments).map (·.set .sequential)) :
    run others setting = run arguments setting := by
  cases read : CommandLine.read arguments with
  | error halt =>
    rw [read] at same
    exact run_eq_of_read (same.trans read.symm)
  | ok line =>
    rw [read] at same
    rw [run_eq_of_question read, run_eq_of_question same,
      question_eq_of_request (show (line.set .sequential).request = line.request from rfl)]
    simp only [CommandLine.set, Question.present?_sequential]

/-- The lines of a run are written from the report of a run that asks for the same. -/
theorem lines_of_report {line other : CommandLine} {report : Outcome}
    (same : other.request = line.request)
    (read : CommandLine.read arguments = .ok line) (plain : PlainText line setting)
    (otherRead : CommandLine.read others = .ok other) (json : other.json = true)
    (reported : run others setting = some report) :
    (∃ failure, plan line setting = .error failure ∧
      run arguments setting = some ⟨1, "", failure.report⟩ ∧ report = ⟨1, "", failure.report⟩) ∨
    ∃ document stdout stderr, Json.read? report.stdout = some document ∧
      Report.lines? document = some (stdout, stderr) ∧ report.stderr = "" ∧
      run arguments setting = some ⟨report.exit, stdout, stderr⟩ := by
  have otherAsks := question_eq_of_request same setting
  cases asks : question line setting with
  | error failure =>
    rw [asks] at otherAsks
    rw [run_eq_of_question otherRead, otherAsks] at reported
    left
    refine ⟨failure, ?_, ?_, (Option.some.inj reported).symm⟩
    · rw [plan_eq_present?, asks, Except.map]
    · rw [run_eq_of_question read, asks]
  | ok asked =>
    rw [asks] at otherAsks
    rw [run_eq_of_json plain.room otherRead json otherAsks] at reported
    obtain ⟨value, made, rfl⟩ := Option.map_eq_some_iff.mp reported
    right
    exact ⟨value.sorted, _, _, Json.read?_document value, Question.lines?_of_report? made, rfl,
      run_eq_of_plan read plain (plan_of_lines plain asks)⟩

end Pairs

/-- Flags change how an answer is shown and nothing else.  Runs that ask for the same end alike,
except that one which has to write a description may break off.  Whether one of them reads
folder names one after the other shows nowhere.  The lines of a plain run are written from what
is read in the report of the other. -/
theorem flags_keep_answer {arguments others : List Bytes} {setting : Setting}
    (same : (CommandLine.read others).map CommandLine.request =
      (CommandLine.read arguments).map CommandLine.request) :
    (setting.sink ≠ .full → ∀ outcome other, run arguments setting = some outcome →
      run others setting = some other → other.exit = outcome.exit) ∧
    (run others setting = none → ∃ line, CommandLine.read others = .ok line ∧
      (line.json = true ∨ line.explain = true)) ∧
    (CommandLine.read others = (CommandLine.read arguments).map (·.set .sequential) →
      run others setting = run arguments setting) ∧
    ∀ line other report, CommandLine.read arguments = .ok line → PlainText line setting →
      CommandLine.read others = .ok other → other.json = true →
      run others setting = some report →
      (∃ failure, plan line setting = .error failure ∧
        run arguments setting = some ⟨1, "", failure.report⟩ ∧
        report = ⟨1, "", failure.report⟩) ∨
      ∃ document stdout stderr, Json.read? report.stdout = some document ∧
        Report.lines? document = some (stdout, stderr) ∧ report.stderr = "" ∧
        run arguments setting = some ⟨report.exit, stdout, stderr⟩ := by
  refine ⟨?_, shows_of_run_eq_none, run_sequential, ?_⟩
  · intro room outcome other done otherDone
    exact exit_eq_of_request same room done otherDone
  · intro line other report read plain otherRead json reported
    rw [read, otherRead] at same
    exact lines_of_report (Except.ok.inj same) read plain otherRead json reported

theorem flags_keep_answer_web :
    let arguments := ["w%", "web", "db"].map Utf8.encode
    let others := ["--json", "-s", "w%", "web", "db"].map Utf8.encode
    (CommandLine.read others).map CommandLine.request =
      (CommandLine.read arguments).map CommandLine.request ∧
    ∃ report document, run others noTree = some report ∧ report.exit = 1 ∧
      Json.read? report.stdout = some document ∧
      Report.lines? document = some ("web: true\ndb: false\n", "") := by
  intro arguments others
  let line : CommandLine := ⟨["w%", "web", "db"], none, false, false, false, false⟩
  let other : CommandLine := ⟨["w%", "web", "db"], none, false, true, true, false⟩
  have read : CommandLine.read arguments = .ok line := by decide +kernel
  have otherRead : CommandLine.read others = .ok other := by decide +kernel
  have same : (CommandLine.read others).map CommandLine.request =
      (CommandLine.read arguments).map CommandLine.request := by
    rw [read, otherRead]
    rfl
  have plain : PlainText line noTree := ⟨rfl, rfl, rfl, by decide⟩
  have done : run arguments noTree = some ⟨1, "web: true\ndb: false\n", ""⟩ := by
    decide +kernel
  obtain ⟨report, reported⟩ : ∃ report, run others noTree = some report := by
    apply Option.isSome_iff_exists.mp
    decide +kernel
  refine ⟨same, report, ?_⟩
  obtain ⟨failure, -, failed, -⟩ | ⟨document, stdout, stderr, decoded, lines, -, shown⟩ :=
    (flags_keep_answer same).2.2.2 line other report read plain otherRead rfl reported
  · simp [done] at failed
  · obtain ⟨exit, rfl, rfl⟩ := Outcome.mk.inj (Option.some.inj (done.symm.trans shown))
    exact ⟨document, reported, exit.symm, decoded, lines⟩

end HostPattern
