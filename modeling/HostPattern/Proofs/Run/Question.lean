import HostPattern.Proofs.Run.Transcript
import Mathlib.Tactic.SplitIfs

/-!
# What a run has to answer

The names that a run checks, and what it checks them against, depend on its words and its
directory alone, and so does the answer.  The flags choose how it is shown.
-/

namespace HostPattern

open Text

/-- What arguments ask for, apart from how it is to be shown. -/
def CommandLine.request (line : CommandLine) : List String × Option Bytes :=
  (line.words, line.dir)

/-- Names and what they are checked against: a pattern, or the folders of a directory. -/
inductive Question
  | check (raw : String) (names : List String)
  | search (directory : String) (folders : List Folder) (names : List String)

def question (line : CommandLine) (setting : Setting) : Except Failure Question := do
  let names ← namesToCheck line setting.sources
  match line.dir, line.words with
  | some dir, _ =>
    let listed ← (Folder.scan setting.tree dir).mapError .scan
    return .search (Utf8.decodeLossy dir) (listed.map Folder.ofName) names
  | none, raw :: _ => return .check raw names
  | none, [] => throw .noPattern

namespace Question

def answer : Question → Bool
  | .check raw names => names.all (Folder.ofName raw).accepts
  | .search _ folders names => names.all fun name => !(Folder.matching folders name).isEmpty

def names : Question → List String
  | .check _ names => names
  | .search _ _ names => names

def present? (line : CommandLine) : Question → Option Plan
  | .check raw names => Plan.ofPattern? line raw names
  | .search directory folders names => Plan.ofFolders? line directory folders names

def report? : Question → Option Json
  | .check raw names =>
    Report.ofPattern? raw (Folder.ofName raw).pattern
      (names.map fun name => (name, (Folder.ofName raw).accepts name))
  | .search directory folders names =>
    some (Report.ofFolders directory folders
      (names.map fun name => (name, Folder.matching folders name)))

def explanations? : Question → Option (List Block)
  | .check raw _ =>
    (Report.explanation? raw (Folder.ofName raw).pattern (Folder.ofName raw).error?).map ([·])
  | .search _ folders _ => folders.mapM fun folder =>
    Report.explanation? folder.name folder.pattern folder.error?

def lines : Question → List Step
  | .check raw names => names.map fun name =>
    .print (Report.verdict (Plan.label names name) ((Folder.ofName raw).accepts name))
  | .search directory folders names => names.flatMap fun name =>
    Plan.folderSteps directory names name (Folder.matching folders name)

section Flags

variable {line : CommandLine} {asked : Question} {shown : Plan}

theorem success_of_present? (presented : asked.present? line = some shown) :
    shown.success = asked.answer := by
  cases asked with
  | check raw names =>
    have success : (names.map fun name => (name, (Folder.ofName raw).accepts name)).all (·.2) =
        names.all (Folder.ofName raw).accepts := List.all_map
    simp only [present?, Plan.ofPattern?, success, bind_pure_comp, Option.map_eq_map] at presented
    split_ifs at presented
    all_goals
      obtain ⟨_, _, rfl⟩ := Option.map_eq_some_iff.mp presented
      rfl
  | search directory folders names =>
    have success : (names.map fun name => (name, Folder.matching folders name)).all
        (!·.2.isEmpty) = names.all fun name => !(Folder.matching folders name).isEmpty :=
      List.all_map
    simp only [present?, Plan.ofFolders?, success, bind_pure_comp, Option.map_eq_map] at presented
    split_ifs at presented
    · cases presented
      rfl
    all_goals
      obtain ⟨_, _, rfl⟩ := Option.map_eq_some_iff.mp presented
      rfl

theorem present?_of_json (json : line.json = true) :
    asked.present? line =
      asked.report?.map fun report => ⟨[.print (Report.document report)], asked.answer⟩ := by
  cases asked with
  | check raw names =>
    simp only [present?, Plan.ofPattern?, json, if_true, List.all_map, report?]
    cases Report.ofPattern? raw (Folder.ofName raw).pattern
      (names.map fun name => (name, (Folder.ofName raw).accepts name)) <;> rfl
  | search directory folders names =>
    simp only [present?, Plan.ofFolders?, json, if_true, List.all_map]
    rfl

theorem present?_of_lines (noReport : line.json = false)
    (noExplanations : line.explain = false) :
    asked.present? line = some ⟨asked.lines, asked.answer⟩ := by
  cases asked with
  | check raw names =>
    simp only [present?, Plan.ofPattern?, noReport, noExplanations, Bool.false_eq_true, if_false,
      List.all_map, List.map_map]
    change some _ = _
    simp [lines, answer, Function.comp_def]
  | search directory folders names =>
    simp only [present?, Plan.ofFolders?, noReport, noExplanations, Bool.false_eq_true, if_false,
      List.all_map, List.flatMap_map]
    rfl

theorem present?_of_explain (noReport : line.json = false) (explain : line.explain = true) :
    asked.present? line = asked.explanations?.map fun explanations =>
      ⟨explanations.map .print ++ asked.lines, asked.answer⟩ := by
  cases asked with
  | check raw names =>
    simp only [present?, Plan.ofPattern?, noReport, explain, Bool.false_eq_true, if_false, if_true,
      List.all_map, List.map_map, explanations?]
    cases Report.explanation? raw (Folder.ofName raw).pattern (Folder.ofName raw).error? with
    | none => rfl
    | some explanation => simp [lines, answer, Function.comp_def]
  | search directory folders names =>
    simp only [present?, Plan.ofFolders?, noReport, explain, Bool.false_eq_true, if_false, if_true,
      List.all_map, List.flatMap_map, explanations?]
    cases folders.mapM fun folder =>
      Report.explanation? folder.name folder.pattern folder.error? <;> rfl

theorem present?_sequential (line : CommandLine) (asked : Question) (sequential : Bool) :
    asked.present? { line with sequential := sequential } = asked.present? line := by
  cases asked <;> rfl

end Flags

end Question

/-- The flags act on the presentation only. -/
theorem plan_eq_present? (line : CommandLine) (setting : Setting) :
    plan line setting = (question line setting).map (Question.present? line) := by
  unfold plan question
  cases namesToCheck line setting.sources with
  | error failure => rfl
  | ok names =>
    cases line.dir with
    | none => cases line.words <;> rfl
    | some dir =>
      change (((Folder.scan setting.tree dir).map _).mapError Failure.scan).bind _ =
        (((Folder.scan setting.tree dir).mapError Failure.scan).bind _).map _
      cases Folder.scan setting.tree dir with
      | error error => rfl
      | ok listed =>
        change Except.ok (Plan.ofFolders? line _ (Folder.ofNames line.sequential listed) _) = _
        rw [Folder.ofNames_eq_map]
        rfl

section Asked

variable {line : CommandLine} {setting : Setting} {names : List String}

theorem question_eq_check {raw : String} {given : List String} (check : line.dir = none)
    (words : line.words = raw :: given) (checks : Checks given setting.sources names) :
    question line setting = .ok (.check raw names) := by
  have givenNames : line.givenNames = given := by
    simp [CommandLine.givenNames, CommandLine.names, check, words]
  have checked : namesToCheck line setting.sources = .ok names :=
    namesToCheck_eq_ok_iff.mpr (givenNames ▸ checks)
  unfold question
  rw [checked, check, words]
  rfl

theorem question_eq_search {dir : Bytes} {listed : List String} (search : line.dir = some dir)
    (scanned : Folder.scan setting.tree dir = .ok listed)
    (checks : Checks line.words setting.sources names) :
    question line setting =
      .ok (.search (Utf8.decodeLossy dir) (listed.map Folder.ofName) names) := by
  have given : line.givenNames = line.words := by
    rw [CommandLine.givenNames, search]
  have checked : namesToCheck line setting.sources = .ok names :=
    namesToCheck_eq_ok_iff.mpr (given ▸ checks)
  unfold question
  rw [checked, search]
  dsimp only
  rw [scanned]
  rfl

theorem checks_of_question {asked : Question} (asks : question line setting = .ok asked) :
    Checks line.givenNames setting.sources asked.names := by
  apply namesToCheck_eq_ok_iff.mp
  unfold question at asks
  cases checked : namesToCheck line setting.sources with
  | error failure =>
    rw [checked] at asks
    cases asks
  | ok names =>
    rw [checked] at asks
    cases search : line.dir with
    | none =>
      rw [search] at asks
      cases words : line.words with
      | nil =>
        rw [words] at asks
        cases asks
      | cons raw given =>
        rw [words] at asks
        cases asks
        rfl
    | some dir =>
      rw [search] at asks
      change ((Folder.scan setting.tree dir).mapError Failure.scan).bind _ = _ at asks
      cases scanned : Folder.scan setting.tree dir with
      | error error =>
        rw [scanned] at asks
        cases asks
      | ok listed =>
        rw [scanned] at asks
        cases asks
        rfl

theorem plan_eq_ok_iff {shown : Option Plan} :
    plan line setting = .ok shown ↔
      ∃ asked, question line setting = .ok asked ∧ asked.present? line = shown := by
  rw [plan_eq_present?]
  cases question line setting <;> simp [Except.map]

theorem plan_eq_error_iff {failure : Failure} :
    plan line setting = .error failure ↔ question line setting = .error failure := by
  rw [plan_eq_present?]
  cases question line setting <;> simp [Except.map]

theorem plan_of_lines {asked : Question} (plain : PlainText line setting)
    (asks : question line setting = .ok asked) :
    plan line setting = .ok (some ⟨asked.lines, asked.answer⟩) := by
  rw [plan_eq_present?, asks]
  exact congrArg Except.ok (Question.present?_of_lines plain.noReport plain.noExplanations)

end Asked

theorem question_eq_of_request {line other : CommandLine}
    (same : other.request = line.request) (setting : Setting) :
    question other setting = question line setting := by
  obtain ⟨words, dir⟩ := Prod.mk.inj same
  simp only [question, namesToCheck, CommandLine.givenNames, CommandLine.names, words, dir]

end HostPattern
