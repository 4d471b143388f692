import HostPattern.Proofs.CommandLine.Positionals
import HostPattern.Proofs.Run.Question

/-!
# The names of a run

Once its arguments are read, a run has a pattern or a directory, and the words among the
arguments are its pattern and the names, or the names alone.  So it never lacks a pattern where
it needs one, and there is always a name to check.
-/

namespace HostPattern

open Text

section Read

variable {arguments : List Bytes} {line : CommandLine}

theorem words_eq_positionals (read : CommandLine.read arguments = .ok line) :
    line.words.map Utf8.encode = positionals arguments :=
  (PartialLine.words_of_read read).1

theorem dir_ne_none_of_read (read : CommandLine.read arguments = .ok line)
    (wordless : line.words = []) : line.dir ≠ none :=
  (PartialLine.words_of_read read).2 wordless

end Read

section Words

variable {line : CommandLine} {setting : Setting}

theorem toList_pattern?_append_names (line : CommandLine) :
    line.pattern?.toList ++ line.names = line.words := by
  unfold CommandLine.pattern? CommandLine.names
  cases line.words <;> rfl

theorem givenNames_eq (line : CommandLine) :
    line.givenNames = if line.dir.isSome then line.words else line.words.tail := by
  unfold CommandLine.givenNames CommandLine.names
  cases line.dir <;> rfl

theorem question_ne_noPattern (asks : line.words = [] → line.dir ≠ none) :
    question line setting ≠ .error .noPattern := by
  unfold question
  cases checked : namesToCheck line setting.sources with
  | error failure =>
    obtain ⟨rfl, _⟩ := namesToCheck_eq_error_iff.mp checked
    nofun
  | ok names =>
    cases search : line.dir with
    | none =>
      cases words : line.words with
      | nil => exact absurd search (asks words)
      | cons raw given => nofun
    | some dir =>
      change ((Folder.scan setting.tree dir).mapError Failure.scan).bind _ ≠ _
      cases Folder.scan setting.tree dir <;> nofun

end Words

/-- A command line that is read has a pattern, or a directory and no names.  The pattern and the
names are the words among the arguments, in order, and those given to be checked are all of them
beside a directory and all but the first without one.  So a run never fails for want of a
pattern, and what it plans is the answer to a question about these names or the machine's, at
least one. -/
theorem names_of_read {arguments : List Bytes} {line : CommandLine}
    (read : CommandLine.read arguments = .ok line) :
    (line.pattern? = none → line.dir ≠ none ∧ line.names = []) ∧
    (line.pattern?.toList ++ line.names).map Utf8.encode = positionals arguments ∧
    line.givenNames.map Utf8.encode =
      (if line.dir.isSome then positionals arguments else (positionals arguments).tail) ∧
    ∀ setting : Setting, plan line setting ≠ .error .noPattern ∧
      ∀ shown, plan line setting = .ok shown →
        ∃ asked : Question, asked.present? line = shown ∧
          Checks line.givenNames setting.sources asked.names ∧ asked.names ≠ [] := by
  have words := words_eq_positionals read
  refine ⟨?_, ?_, ?_, ?_⟩
  · intro wordless
    have noWords : line.words = [] := List.head?_eq_none_iff.mp wordless
    refine ⟨dir_ne_none_of_read read noWords, ?_⟩
    rw [CommandLine.names, noWords, List.tail_nil]
  · rw [toList_pattern?_append_names, words]
  · rw [givenNames_eq, ← words]
    split
    · rfl
    · exact List.map_tail
  · intro setting
    constructor
    · rw [ne_eq, plan_eq_error_iff]
      exact question_ne_noPattern (dir_ne_none_of_read read)
    · intro shown planned
      obtain ⟨asked, asks, presented⟩ := plan_eq_ok_iff.mp planned
      have checks := checks_of_question asks
      exact ⟨asked, presented, checks, checks.ne_nil⟩

/-- A directory named by a hyphen, an empty word, and words that look like options. -/
theorem names_of_read_hyphens :
    let arguments := ["a", "-sd", "-", "", "--", "--", "-e"].map Utf8.encode
    let line : CommandLine :=
      ⟨["a", "", "--", "-e"], some (Utf8.encode "-"), false, false, true, false⟩
    CommandLine.read arguments = .ok line ∧
      positionals arguments = ["a", "", "--", "-e"].map Utf8.encode ∧
      line.givenNames.map Utf8.encode = positionals arguments := by
  intro arguments line
  have read : CommandLine.read arguments = .ok line := by decide +kernel
  exact ⟨read, by decide +kernel, (names_of_read read).2.2.1⟩

end HostPattern
