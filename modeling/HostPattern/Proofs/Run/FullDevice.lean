import HostPattern.Proofs.Json.Order
import HostPattern.Proofs.Run.Presentation

/-!
# Runs on a full device

Everything that a run prints holds a line break, so that it is handed on to the device at
once, and a device that is full refuses it.  A run whose answer is yes prints before it does
anything else.  Hence no such run succeeds, whatever becomes of the styles.
-/

namespace HostPattern

open Text

def CommandLine.refusal (line : CommandLine) : Failure :=
  if line.json then .writeJson else .write

theorem Json.newline_mem_pretty_obj {members : List (String × Json)} (filled : members ≠ []) :
    '\n' ∈ (Json.obj members).pretty.toList := by
  obtain ⟨member, others, order⟩ : ∃ member others,
      ((sortedMembers members).mergeSort fun left right => Utf8.le left.1 right.1) =
        member :: others := by
    apply List.exists_cons_of_ne_nil
    intro empty
    have size := congrArg List.length empty
    rw [List.length_mergeSort, sortedMembers_eq_map, List.length_map] at size
    exact filled (List.eq_nil_of_length_eq_zero size)
  rw [pretty, sorted, order, String.toList_ofList, write]
  simp [newLine]

namespace Block

variable {block : Block}

theorem newline_mem_render_segment_iff (colour : Bool) (segment : Segment) :
    '\n' ∈ (segment.render colour).toList ↔ '\n' ∈ segment.content.toList := by
  cases segment with
  | text | json => rfl
  | style kind => cases kind <;> cases colour <;> decide
  | reset => cases colour <;> decide

/-- A block is refused exactly if a line ends in what it writes, with styles or without. -/
theorem exists_fault?_iff (colour : Bool) :
    (∃ failure, block.fault? = some failure) ↔ '\n' ∈ (block.render colour).toList := by
  rw [render, String.toList_join, List.flatMap_map, List.mem_flatMap, ← Option.isSome_iff_exists,
    fault?, List.findSome?_isSome_iff]
  simp only [newline_mem_render_segment_iff]
  refine exists_congr fun segment => and_congr_right fun _ => ?_
  split
  · exact iff_of_true (by split <;> rfl) ‹_›
  · exact iff_of_false Bool.false_ne_true ‹_›

/-- A block of lines fails where its first line ends. -/
theorem fault?_eq_write (noReport : ∀ value, Segment.json value ∉ block)
    (breaks : '\n' ∈ (block.render false).toList) : block.fault? = some .write := by
  obtain ⟨failure, fails⟩ := (exists_fault?_iff false).mpr breaks
  obtain ⟨segment, member, found⟩ := List.exists_of_findSome?_eq_some fails
  rw [Option.ite_none_right_eq_some] at found
  rw [fails, ← found.2]
  split
  · exact absurd member (noReport _)
  · rfl

end Block

namespace Report

theorem fault?_verdict (name : Option String) (matched : Bool) :
    (verdict name matched).fault? = some .write := by
  apply Block.fault?_eq_write
  · cases name <;> simp [verdict]
  · simp [verdict, Block.render, Segment.render]

theorem fault?_folder (name : Option String) (found : Folder) :
    (folder name found).fault? = some .write := by
  apply Block.fault?_eq_write
  · cases name <;> simp [folder]
  · simp [folder, Block.render, Segment.render]

theorem fault?_of_explanation? {raw : String} {pattern : Pattern} {error : Option PatternError}
    {block : Block} (made : explanation? raw pattern error = some block) :
    block.fault? = some .write := by
  obtain ⟨description, _, made⟩ := Option.bind_eq_some_iff.mp made
  cases made
  apply Block.fault?_eq_write
  · cases error <;> simp
  · cases error <;> simp [Block.render, Segment.render]

theorem fault?_document {members : List (String × Json)} (filled : members ≠ []) :
    (document (.obj members)).fault? = some .writeJson := by
  rw [Block.fault?, document, List.findSome?_cons, if_pos]
  exact Json.newline_mem_pretty_obj filled

end Report

namespace Question

variable {line : CommandLine} {asked : Question} {shown : Plan}

theorem fault?_of_mem_explanations? {explanations : List Block}
    (made : asked.explanations? = some explanations) :
    ∀ block ∈ explanations, block.fault? = some .write := by
  intro block member
  cases asked with
  | check raw names =>
    obtain ⟨explanation, explained, rfl⟩ := Option.map_eq_some_iff.mp made
    rw [List.mem_singleton.mp member]
    exact Report.fault?_of_explanation? explained
  | search directory folders names =>
    obtain ⟨folder, _, explained⟩ := exists_of_mem_of_mapM_eq_some made member
    exact Report.fault?_of_explanation? explained

theorem steps_of_present? (noReport : line.json = false)
    (presented : asked.present? line = some shown) :
    ∃ explanations : List Block, shown.steps = explanations.map .print ++ asked.lines ∧
      ∀ block ∈ explanations, block.fault? = some .write := by
  by_cases explain : line.explain = true
  · rw [present?_of_explain noReport explain] at presented
    obtain ⟨explanations, made, rfl⟩ := Option.map_eq_some_iff.mp presented
    exact ⟨explanations, rfl, fault?_of_mem_explanations? made⟩
  · rw [present?_of_lines noReport (Bool.eq_false_iff.mpr explain)] at presented
    cases presented
    exact ⟨[], rfl, nofun⟩

theorem fault?_of_mem_lines {block : Block} (member : Step.print block ∈ asked.lines) :
    block.fault? = some .write := by
  cases asked with
  | check raw names =>
    obtain ⟨name, _, printed⟩ := List.mem_map.mp member
    cases printed
    exact Report.fault?_verdict _ _
  | search directory folders names =>
    obtain ⟨name, _, inside⟩ := List.mem_flatMap.mp member
    unfold Plan.folderSteps at inside
    split at inside
    · cases List.mem_singleton.mp inside
    · obtain ⟨folder, _, printed⟩ := List.mem_map.mp inside
      cases printed
      exact Report.fault?_folder _ _

/-- Where every name has a match, there is something to print, and it comes first. -/
theorem exists_cons_lines (filled : asked.names ≠ []) (answer : asked.answer = true) :
    ∃ block rest, asked.lines = .print block :: rest := by
  cases asked with
  | check raw names =>
    obtain ⟨name, others, rfl⟩ := List.exists_cons_of_ne_nil filled
    exact ⟨_, _, rfl⟩
  | search directory folders names =>
    obtain ⟨name, others, rfl⟩ := List.exists_cons_of_ne_nil filled
    rw [Question.answer, List.all_cons, Bool.and_eq_true, Bool.not_eq_true'] at answer
    obtain ⟨folder, more, found⟩ :=
      List.exists_cons_of_ne_nil (List.isEmpty_eq_false_iff.mp answer.1)
    simp only [Question.lines, List.flatMap_cons, Plan.folderSteps, found]
    exact ⟨_, _, rfl⟩

theorem exists_members_of_report? {report : Json} (made : asked.report? = some report) :
    ∃ members, members ≠ [] ∧ report = .obj members := by
  cases asked with
  | check raw names =>
    obtain ⟨description, _, made⟩ := Option.bind_eq_some_iff.mp made
    cases made
    exact ⟨_, List.cons_ne_nil _ _, rfl⟩
  | search directory folders names =>
    cases made
    exact ⟨_, List.cons_ne_nil _ _, rfl⟩

theorem fault?_of_mem_present? {block : Block} (presented : asked.present? line = some shown)
    (member : Step.print block ∈ shown.steps) : block.fault? = some line.refusal := by
  by_cases json : line.json = true
  · rw [present?_of_json json] at presented
    obtain ⟨report, made, rfl⟩ := Option.map_eq_some_iff.mp presented
    obtain ⟨members, filled, rfl⟩ := exists_members_of_report? made
    cases List.mem_singleton.mp member
    rw [CommandLine.refusal, if_pos json]
    exact Report.fault?_document filled
  · obtain ⟨explanations, steps, faults⟩ :=
      steps_of_present? (Bool.eq_false_iff.mpr json) presented
    rw [CommandLine.refusal, if_neg json]
    rw [steps] at member
    rcases List.mem_append.mp member with explanation | inside
    · obtain ⟨explained, explains, same⟩ := List.mem_map.mp explanation
      cases same
      exact faults block explains
    · exact fault?_of_mem_lines inside

theorem exists_cons_of_present? (presented : asked.present? line = some shown)
    (filled : asked.names ≠ []) (answer : asked.answer = true) :
    ∃ block rest, shown.steps = .print block :: rest := by
  by_cases json : line.json = true
  · rw [present?_of_json json] at presented
    obtain ⟨report, _, rfl⟩ := Option.map_eq_some_iff.mp presented
    exact ⟨_, _, rfl⟩
  · obtain ⟨explanations, steps, _⟩ := steps_of_present? (Bool.eq_false_iff.mpr json) presented
    obtain ⟨block, rest, lines⟩ := exists_cons_lines filled answer
    rw [steps, lines]
    cases explanations with
    | nil => exact ⟨_, _, rfl⟩
    | cons explanation others => exact ⟨_, _, rfl⟩

end Question

namespace Transcript

variable {colour : Bool} {steps : List Step}

theorem ofSteps_full_cons {block : Block} {failure : Failure}
    (fails : block.fault? = some failure) :
    ofSteps .full colour (.print block :: steps) = ⟨"", "", some failure⟩ := by
  rw [ofSteps, if_pos rfl, fails]

theorem stdout_ofSteps_full
    (refused : ∀ block, Step.print block ∈ steps → ∃ failure, block.fault? = some failure) :
    (ofSteps .full colour steps).stdout = "" := by
  induction steps with
  | nil => rfl
  | cons step steps inductionHypothesis =>
    cases step with
    | print block =>
      obtain ⟨failure, fails⟩ := refused block List.mem_cons_self
      rw [ofSteps_full_cons fails]
    | warn line =>
      rw [ofSteps]
      exact inductionHypothesis fun block member => refused block (List.mem_cons_of_mem _ member)

end Transcript

section Full

variable {line : CommandLine} {setting : Setting} {shown : Plan}

theorem exists_question_of_plan (planned : plan line setting = .ok (some shown)) :
    ∃ asked : Question, asked.names ≠ [] ∧ asked.present? line = some shown := by
  obtain ⟨asked, asks, presented⟩ := plan_eq_ok_iff.mp planned
  exact ⟨asked, (checks_of_question asks).ne_nil, presented⟩

namespace Outcome

/-- A plan of success ends with its first line, and with the failure to write it. -/
theorem ofPlan_full_of_success (planned : plan line setting = .ok (some shown))
    (success : shown.success = true) (colour : Bool) :
    ofPlan .full colour shown = ⟨1, "", line.refusal.report⟩ := by
  obtain ⟨asked, filled, presented⟩ := exists_question_of_plan planned
  rw [Question.success_of_present? presented] at success
  obtain ⟨block, rest, steps⟩ := Question.exists_cons_of_present? presented filled success
  have fails : block.fault? = some line.refusal := by
    apply Question.fault?_of_mem_present? presented
    rw [steps]
    exact List.mem_cons_self
  rw [ofPlan, steps, Transcript.ofSteps_full_cons fails]
  rfl

theorem stdout_ofPlan_full (planned : plan line setting = .ok (some shown)) (colour : Bool) :
    (ofPlan .full colour shown).stdout = "" := by
  obtain ⟨asked, _, presented⟩ := exists_question_of_plan planned
  have empty : (Transcript.ofSteps .full colour shown.steps).stdout = "" := by
    apply Transcript.stdout_ofSteps_full
    intro block member
    exact ⟨_, Question.fault?_of_mem_present? presented member⟩
  unfold ofPlan
  dsimp only
  split <;> exact empty

theorem exit_ofPlan_full (planned : plan line setting = .ok (some shown)) (colour : Bool) :
    (ofPlan .full colour shown).exit = 1 := by
  by_cases success : shown.success = true
  · rw [ofPlan_full_of_success planned success]
  · unfold ofPlan
    dsimp only
    split
    · rfl
    · exact if_neg success

end Outcome

end Full

/-- On a full device no run ends with success once its arguments are read, and nothing is on
standard output.  A run that would have succeeded tells that it could not write, whether or not
it was to write styles as well.  There is an outcome, unless a description is asked for. -/
theorem failure_on_full_device {arguments : List Bytes} {setting : Setting} {line : CommandLine}
    (read : CommandLine.read arguments = .ok line) (full : setting.sink = .full) :
    (∀ outcome, run arguments setting = some outcome → outcome.exit = 1 ∧ outcome.stdout = "") ∧
    (run arguments setting = none → line.json = true ∨ line.explain = true) ∧
    ∀ shown colour, plan line setting = .ok (some shown) →
      (Outcome.ofPlan .full colour shown).exit = 1 ∧
      (shown.success = true →
        Outcome.ofPlan .full colour shown = ⟨1, "", line.refusal.report⟩) := by
  refine ⟨?_, ?_, ?_⟩
  · intro outcome done
    unfold run at done
    rw [read, full] at done
    dsimp only at done
    split at done
    · cases done
      exact ⟨rfl, rfl⟩
    · cases done
    · rename_i shown planned
      cases done
      exact ⟨Outcome.exit_ofPlan_full planned _, Outcome.stdout_ofPlan_full planned _⟩
  · intro broken
    obtain ⟨other, otherRead, shows⟩ := shows_of_run_eq_none broken
    rw [read] at otherRead
    cases otherRead
    exact shows
  · intro shown colour planned
    refine ⟨Outcome.exit_ofPlan_full planned colour, ?_⟩
    exact fun success => Outcome.ofPlan_full_of_success planned success colour

/-- The answer is yes, and on a pipe the run succeeds. -/
theorem failure_on_full_device_web :
    let arguments := ["-e", "w%", "web"].map Utf8.encode
    let line : CommandLine := ⟨["w%", "web"], none, true, false, false, false⟩
    let onFull : Setting := { noTree with sink := .full }
    CommandLine.read arguments = .ok line ∧ onFull.sink = .full ∧
      (run arguments noTree).map Outcome.exit = some 0 ∧
      ∃ outcome, run arguments onFull = some outcome ∧ outcome.exit = 1 ∧ outcome.stdout = "" := by
  intro arguments line onFull
  have read : CommandLine.read arguments = .ok line := by decide +kernel
  have full : onFull.sink = .full := rfl
  obtain ⟨outcome, done⟩ : ∃ outcome, run arguments onFull = some outcome := by
    apply Option.isSome_iff_exists.mp
    decide +kernel
  have failed := (failure_on_full_device read full).1 outcome done
  exact ⟨read, full, by decide +kernel, outcome, done, failed.1, failed.2⟩

end HostPattern
