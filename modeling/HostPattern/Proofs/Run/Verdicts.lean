import HostPattern.Proofs.Folder.Matching
import HostPattern.Proofs.Run.Question

/-!
# The check of names against a pattern

Each name has a line that says whether the text given as a pattern means it.  The answer is
yes if it means every name; a text that is no pattern means none, and is no failure.
-/

namespace HostPattern

open Text

namespace Plan

variable {raw : String} {names : List String}

def verdictWord (means : Bool) : String :=
  if means then "true" else "false"

theorem render_verdict (names : List String) (name : String) (means : Bool) :
    (Report.verdict (label names name) means).render false =
      resultLine names name (verdictWord means) := by
  unfold label resultLine verdictWord
  by_cases several : 1 < names.length <;>
    simp [several, Report.verdict, Block.render, Segment.render, String.append_assoc]

theorem join_printed_check :
    String.join ((Question.check raw names).lines.map (Step.printed false)) =
      String.join (names.map fun name =>
        resultLine names name (verdictWord ((Folder.ofName raw).accepts name))) := by
  simp only [Question.lines, List.map_map, Function.comp_def, Step.printed, render_verdict]

theorem join_warned_check :
    String.join ((Question.check raw names).lines.map Step.warned) = "" :=
  Step.join_warned_print _ _

theorem not_means_of_unusable {error : PatternError} {name : String}
    (unusable : Pattern.Reading raw (.error error)) : ¬ Pattern.Means raw name := by
  rintro ⟨pattern, reading, _⟩
  have read := Pattern.parse_eq_iff.mpr unusable
  rw [Pattern.parse_eq_iff.mpr reading] at read
  cases read

end Plan

open Plan in
/-- A check of names against a pattern prints a line for each name, in order, and succeeds if
the text given as a pattern means all of them.  No text fails: one that is read as no pattern
means none of them. -/
theorem outcome_of_check {arguments : List Bytes} {setting : Setting} {line : CommandLine}
    {raw : String} {given names : List String}
    (read : CommandLine.read arguments = .ok line) (check : line.dir = none)
    (words : line.words = raw :: given) (plain : PlainText line setting)
    (checks : Checks given setting.sources names) :
    names ≠ [] ∧
    run arguments setting = some
      ⟨if ∀ name ∈ names, Pattern.Means raw name then 0 else 1,
        String.join (names.map fun name =>
          resultLine names name (if Pattern.Means raw name then "true" else "false")), ""⟩ ∧
    ∀ error, Pattern.Reading raw (.error error) →
      run arguments setting = some
        ⟨1, String.join (names.map fun name => resultLine names name "false"), ""⟩ := by
  have outcome : run arguments setting = some
      ⟨if ∀ name ∈ names, Pattern.Means raw name then 0 else 1,
        String.join (names.map fun name =>
          resultLine names name (if Pattern.Means raw name then "true" else "false")), ""⟩ := by
    rw [run_eq_of_plan read plain (plan_of_lines plain (question_eq_check check words checks)),
      join_printed_check, join_warned_check]
    simp only [Question.answer, verdictWord, Folder.accepts_ofName, List.all_eq_true,
      decide_eq_true_eq]
  have nonempty : names ≠ [] := by
    rcases checks with nonempty | _
    · exact nonempty
    · simp
  refine ⟨nonempty, outcome, ?_⟩
  intro error unusable
  have none (name : String) : ¬ Pattern.Means raw name := not_means_of_unusable unusable
  rw [outcome, if_neg]
  · simp [none]
  · intro all
    obtain ⟨name, inside⟩ := List.exists_mem_of_ne_nil names nonempty
    exact none name (all name inside)

def noTree : Setting :=
  ⟨.empty, ⟨none, none, none, none, none⟩, ⟨none, none, none, none, none, none⟩, .pipe, false⟩

theorem outcome_of_check_db :
    let names := ["db4", "DB2"]
    let arguments := ["Db1~3", "db4", "DB2"].map Utf8.encode
    let line : CommandLine := ⟨"Db1~3" :: names, none, false, false, false, false⟩
    CommandLine.read arguments = .ok line ∧ line.dir = none ∧ PlainText line noTree ∧
      Checks names noTree.sources names ∧
      run arguments noTree = some ⟨1, "db4: false\nDB2: true\n", ""⟩ := by
  intro names arguments line
  have read : CommandLine.read arguments = .ok line := by decide +kernel
  have check : line.dir = none := rfl
  have words : line.words = "Db1~3" :: names := rfl
  have plain : PlainText line noTree := ⟨rfl, rfl, rfl, by decide⟩
  have checks : Checks names noTree.sources names := .given (by decide)
  refine ⟨read, check, plain, checks, ?_⟩
  rw [(outcome_of_check read check words plain checks).2.1]
  decide +kernel

end HostPattern
