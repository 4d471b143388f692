import HostPattern.Proofs.Checked.Ranges
import HostPattern.Proofs.Pattern.Description
import HostPattern.Proofs.Run.Presentation

/-!
# No step of a pattern breaks off

Whatever text is read as a pattern and whatever name it is asked for, each step has a result.
Only a description may break off, over a range whose numbers are too wide to be written.
-/

namespace HostPattern.Checked

open Text SerialRange

def parse? (raw : String) : Option (Except PatternError Pattern) :=
  if Parts.form.admits raw.toList then (parseRange? raw.toList).map (·.map .serial)
  else
    match Wildcard.read? raw.toList with
    | some wildcard =>
      some (if wildcard.gaps ≤ Pattern.maxGaps then .ok (.wild wildcard) else .error .tooManyGaps)
    | none => some (.error (.unrecognized raw))

def compile? (raw : String) : Option Pattern :=
  (parse? raw).map fun
    | .ok pattern => pattern
    | .error _ => .unavailable

def accepts? (name : String) : Pattern → Option Bool
  | .unavailable => some false
  | .serial range => acceptsRange? range name
  | .wild wildcard => some (wildcard.accepts name)

def describe? : Pattern → Option String
  | .unavailable => some "unavailable"
  | .serial range => do
    let ends ← range.endsText?
    if range.isEmpty then return "range " ++ ends ++ " (empty)"
    return "range " ++ ends ++ " (" ++ (← size? range).repr ++ " names)"
  | .wild wildcard => some ("wildcard /" ++ wildcard.regex ++ "/")

def verdicts? (raw : String) (names : List String) : Option Plan := do
  let pattern ← compile? raw
  let results ← names.mapM fun name => (accepts? name pattern).map (name, ·)
  return ⟨results.map fun (name, matched) =>
    .print (Report.verdict (Plan.label names name) matched), results.all (·.2)⟩

variable {raw : String}

theorem parse?_eq (fits : Fits raw.toList) : parse? raw = some (Pattern.parse raw) := by
  unfold parse?
  split
  · rename_i admitted
    obtain ⟨parts, wellFormed, written⟩ := Parts.admits_iff.mp admitted
    rw [written] at fits
    rw [written, parseRange?_write wellFormed fits, Pattern.parse_of_write wellFormed written]
    rfl
  · rename_i refused
    have unread : Parts.read? raw.toList = none := if_neg refused
    rw [Pattern.parse, unread]
    cases Wildcard.read? raw.toList <;> rfl

theorem compile?_eq (fits : Fits raw.toList) : compile? raw = some (Pattern.compile raw) := by
  rw [compile?, parse?_eq fits]
  rfl

theorem fits_of_parse {range : SerialRange} (fits : Fits raw.toList)
    (read : Pattern.parse raw = .ok (.serial range)) :
    Fits range.before.toList ∧ Fits range.after.toList := by
  cases Pattern.parse_eq_iff.mp read with
  | serial _ written described =>
    obtain ⟨number, rest, left, _, _, after, _⟩ := described
    rw [written, Parts.write, left, ← after] at fits
    unfold Fits at *
    simp at fits
    omega

theorem accepts?_eq (fits : Fits raw.toList) (name : String) :
    accepts? name (Pattern.compile raw) = some ((Pattern.compile raw).accepts name) := by
  cases found : Pattern.compile raw with
  | unavailable => rfl
  | serial range =>
    obtain ⟨before, after⟩ := fits_of_parse fits (Pattern.parse_of_compile found (by simp))
    exact acceptsRange?_eq name before after
  | wild wildcard => rfl

theorem describe?_eq (pattern : Pattern) : describe? pattern = pattern.describe? := by
  cases pattern with
  | unavailable => rfl
  | serial range =>
    rw [describe?, Pattern.describe?, size?_eq]
    rfl
  | wild wildcard => rfl

theorem verdicts?_eq (fits : Fits raw.toList) (names : List String) :
    verdicts? raw names =
      some ⟨(Question.check raw names).lines, (Question.check raw names).answer⟩ := by
  have accepted : (fun name => (accepts? name (Pattern.compile raw)).map (name, ·)) =
      fun name => some (name, (Pattern.compile raw).accepts name) := by
    funext name
    rw [accepts?_eq fits]
    rfl
  have results : names.mapM (fun name => some (name, (Pattern.compile raw).accepts name)) =
      some (names.map fun name => (name, (Pattern.compile raw).accepts name)) :=
    List.mapM_pure
  rw [verdicts?, compile?_eq fits]
  simp only [accepted, results, Option.bind_eq_bind, Option.bind_some, List.map_map, List.all_map]
  rfl

theorem width_of_parse {parts : Parts} {range : SerialRange} (wellFormed : parts.WellFormed)
    (written : raw.toList = parts.write) (read : Pattern.parse raw = .ok (.serial range)) :
    range.width = parts.digits.length := by
  rw [Pattern.parse_of_write wellFormed written] at read
  cases made : ofParts parts with
  | error error =>
    rw [made] at read
    cases read
  | ok other =>
    rw [made] at read
    cases read
    obtain ⟨_, _, _, _, _, _, width, _⟩ := describes_of_ofParts wellFormed made
    exact width

/-- A description breaks off over what is read as a range with too many digits, and over
nothing else. -/
theorem describe?_compile_eq_none_iff :
    (Pattern.compile raw).describe? = none ↔
      ∃ parts range, Parts.WellFormed parts ∧ raw.toList = parts.write ∧
        Pattern.parse raw = .ok (.serial range) ∧ 65535 < parts.digits.length := by
  constructor
  · intro broken
    cases found : Pattern.compile raw with
    | unavailable =>
      rw [found] at broken
      cases broken
    | serial range =>
      have read := Pattern.parse_of_compile found (by simp)
      cases Pattern.parse_eq_iff.mp read with
      | serial wellFormed written _ =>
        refine ⟨_, range, wellFormed, written, read, ?_⟩
        rw [← width_of_parse wellFormed written read]
        by_contra narrow
        rw [found, describe?_serial (Nat.not_lt.mp narrow)] at broken
        cases broken
    | wild wildcard =>
      rw [found] at broken
      cases broken
  · rintro ⟨parts, range, wellFormed, written, read, wide⟩
    rw [← width_of_parse wellFormed written read] at wide
    have found : Pattern.compile raw = .serial range := by
      rw [Pattern.compile, read]
    rw [found, Option.eq_none_iff_forall_ne_some]
    intro text described
    exact absurd (describe?_eq_some_iff.mp described).1 (Nat.not_le.mpr wide)

section Runs

variable {arguments : List Bytes} {setting : Setting}

theorem run_eq_of_verdicts {line : CommandLine} {names : List String} (fits : Fits raw.toList)
    (read : CommandLine.read arguments = .ok line) (noReport : line.json = false)
    (noExplanations : line.explain = false)
    (asks : question line setting = .ok (.check raw names)) :
    ∃ shown, verdicts? raw names = some shown ∧
      run arguments setting = some (.ofPlan setting.sink
        (showsColour (!line.noColor && setting.sink.isTerminal) setting.display.term
          setting.display.noColor) shown) := by
  refine ⟨_, verdicts?_eq fits names, ?_⟩
  rw [run_eq_of_question read, asks]
  dsimp only
  rw [Question.present?_of_lines noReport noExplanations]
  rfl

theorem exists_run_of_no_flags
    (plain : ∀ line, CommandLine.read arguments = .ok line →
      line.json = false ∧ line.explain = false) :
    ∃ outcome, run arguments setting = some outcome := by
  rw [← Option.isSome_iff_exists, ← Option.ne_none_iff_isSome]
  intro broken
  obtain ⟨line, read, json | explain⟩ := shows_of_run_eq_none broken
  · rw [(plain line read).1] at json
    cases json
  · rw [(plain line read).2] at explain
    cases explain

end Runs

/-- No step breaks off when a text is read as a pattern and asked for a name, and none for a
range of any fields.  A description breaks off exactly over what is read as a range with more
than 65535 digits, so that a run without the flags that ask for descriptions has an outcome. -/
theorem steps_have_results (fits : Fits raw.toList) :
    parse? raw = some (Pattern.parse raw) ∧
    compile? raw = some (Pattern.compile raw) ∧
    (∀ name, accepts? name (Pattern.compile raw) = some ((Pattern.compile raw).accepts name)) ∧
    (∀ range : SerialRange, size? range = some range.size ∧
      (Fits range.before.toList → Fits range.after.toList →
        ∀ name, acceptsRange? range name = some (range.accepts name))) ∧
    (∀ pattern, describe? pattern = pattern.describe?) ∧
    ((Pattern.compile raw).describe? = none ↔
      ∃ parts range, Parts.WellFormed parts ∧ raw.toList = parts.write ∧
        Pattern.parse raw = .ok (.serial range) ∧ 65535 < parts.digits.length) ∧
    (∀ arguments setting line names, CommandLine.read arguments = .ok line →
      line.json = false → line.explain = false →
      question line setting = .ok (.check raw names) →
      ∃ shown, verdicts? raw names = some shown ∧
        run arguments setting = some (.ofPlan setting.sink
          (showsColour (!line.noColor && setting.sink.isTerminal) setting.display.term
            setting.display.noColor) shown)) ∧
    ∀ arguments setting, (∀ line, CommandLine.read arguments = .ok line →
      line.json = false ∧ line.explain = false) →
      ∃ outcome, run arguments setting = some outcome :=
  ⟨parse?_eq fits, compile?_eq fits, accepts?_eq fits,
    fun range => ⟨size?_eq range, fun before after name => acceptsRange?_eq name before after⟩,
    describe?_eq, describe?_compile_eq_none_iff,
    fun _ _ _ _ read noReport noExplanations asks =>
      run_eq_of_verdicts fits read noReport noExplanations asks,
    fun _ _ plain => exists_run_of_no_flags plain⟩

section Wide

/-- Some letters, and a number of as many zeros. -/
def zeros (size : Nat) : Parts :=
  ⟨List.replicate size 'a', List.replicate size '0', []⟩

theorem wellFormed_zeros {size : Nat} (filled : size ≠ 0) : (zeros size).WellFormed := by
  refine ⟨?_, ?_, ?_, ?_, List.forall_mem_nil _⟩
  · simpa [zeros] using filled
  · intro c member
    rw [List.eq_of_mem_replicate member]
    rfl
  · simpa [zeros] using filled
  · intro c member
    rw [List.eq_of_mem_replicate member]
    rfl

theorem exists_parse_zeros {size : Nat} (filled : size ≠ 0) :
    ∃ range, Pattern.parse (String.ofList (zeros size).write) = .ok (.serial range) := by
  have room : (zeros size).needed ≤ (zeros size).left.length := by
    simp [zeros, Parts.needed]
  have small : Decimal.value (zeros size).digits < 2 ^ 64 := by
    simp [zeros, Decimal.value_replicate_zero]
  obtain ⟨range, made⟩ := exists_ofParts (wellFormed_zeros filled) room small
  refine ⟨range, ?_⟩
  rw [Pattern.parse_of_write (wellFormed_zeros filled) String.toList_ofList, made]
  rfl

theorem fits_zeros {size : Nat} (filled : size ≠ 0) (small : size < 2 ^ 61) :
    Fits (zeros size).write := by
  have ⟨_, leftAll, _, digitsAll, _⟩ := wellFormed_zeros filled
  have left := byteSize_of_isAlphanum leftAll
  have digits := byteSize_of_isAlphanum fun c member => isAlphanum_of_isDigit (digitsAll c member)
  have separator : Parts.separator.utf8Size = 1 := rfl
  unfold Fits Parts.write
  rw [byteSize_append, byteSize_cons, byteSize_append, left, digits, separator]
  simp [zeros]
  omega

end Wide

theorem steps_have_results_zeros :
    let raw := String.ofList (zeros 65536).write
    Fits raw.toList ∧ (∃ range, parse? raw = some (.ok (.serial range))) ∧
    (accepts? "a" (Pattern.compile raw)).isSome ∧ describe? (Pattern.compile raw) = none := by
  intro raw
  have fits : Fits raw.toList := by
    rw [String.toList_ofList]
    exact fits_zeros (by decide) (by decide)
  obtain ⟨range, read⟩ := exists_parse_zeros (by decide : 65536 ≠ 0)
  obtain ⟨parses, _, accepts, _, describes, breaks, _⟩ := steps_have_results fits
  refine ⟨fits, ⟨range, parses.trans (congrArg some read)⟩, ?_, ?_⟩
  · rw [accepts]
    rfl
  · rw [describes, breaks]
    have wide : 65535 < (zeros 65536).digits.length := by
      rw [zeros, List.length_replicate]
      decide
    exact ⟨zeros 65536, range, wellFormed_zeros (by decide), String.toList_ofList, read, wide⟩

end HostPattern.Checked
