import HostPattern.Run

/-!
# What a run leaves behind

Where standard output takes all that is written, a run writes every step of its plan and
then tells whether the answer is yes.  A run is plain if besides it shows neither colours
nor explanations and is not to give a report.
-/

namespace HostPattern

open Text

theorem join_flatMap {α : Type} (texts : α → List String) (xs : List α) :
    String.join (xs.flatMap texts) = String.join (xs.map fun x => String.join (texts x)) := by
  induction xs with
  | nil => rfl
  | cons x xs inductionHypothesis =>
    rw [List.flatMap_cons, String.join_append, inductionHypothesis, List.map_cons,
      String.join_cons]

theorem join_map_filter {α : Type} (keeps : α → Prop) [DecidablePred keeps] (text : α → String)
    (xs : List α) :
    String.join ((xs.filter fun x => keeps x).map text) =
      String.join (xs.map fun x => if keeps x then text x else "") := by
  induction xs with
  | nil => rfl
  | cons x xs inductionHypothesis =>
    rw [List.map_cons, String.join_cons, ← inductionHypothesis, List.filter_cons]
    by_cases kept : keeps x
    · rw [if_pos (decide_eq_true kept), if_pos kept, List.map_cons, String.join_cons]
    · rw [if_neg (by simpa using kept), if_neg kept, String.empty_append]

namespace Step

def printed (colour : Bool) : Step → String
  | .print block => block.render colour
  | .warn _ => ""

def warned : Step → String
  | .print _ => ""
  | .warn line => line

theorem join_warned_print {α : Type} (block : α → Block) (xs : List α) :
    String.join ((xs.map fun x => Step.print (block x)).map warned) = "" := by
  induction xs with
  | nil => rfl
  | cons x xs inductionHypothesis =>
    rw [List.map_cons, List.map_cons, String.join_cons, inductionHypothesis]
    rfl

end Step

theorem Transcript.ofSteps_eq {sink : Sink} (room : sink ≠ .full) (colour : Bool)
    (steps : List Step) :
    ofSteps sink colour steps =
      ⟨String.join (steps.map (Step.printed colour)), String.join (steps.map Step.warned),
        none⟩ := by
  induction steps with
  | nil => rfl
  | cons step steps inductionHypothesis =>
    rw [List.map_cons, List.map_cons, String.join_cons, String.join_cons]
    cases step with
    | print block =>
      rw [ofSteps, if_neg room, inductionHypothesis, Step.warned, String.empty_append]
      rfl
    | warn line =>
      rw [ofSteps, inductionHypothesis, Step.printed, String.empty_append]
      rfl

theorem Outcome.ofPlan_eq {sink : Sink} (room : sink ≠ .full) (colour : Bool) (plan : Plan) :
    ofPlan sink colour plan =
      ⟨if plan.success then 0 else 1, String.join (plan.steps.map (Step.printed colour)),
        String.join (plan.steps.map Step.warned)⟩ := by
  rw [ofPlan, Transcript.ofSteps_eq room]

/-- The names to check are the given ones, or this machine's where none is given. -/
inductive Checks (given : List String) (sources : NameSources) : List String → Prop
  | given : given ≠ [] → Checks given sources given
  | machine {name : String} : given = [] → sources.machineName? = some name →
      Checks given sources [name]

theorem namesToCheck_eq_ok_iff {line : CommandLine} {sources : NameSources}
    {names : List String} :
    namesToCheck line sources = .ok names ↔ Checks line.givenNames sources names := by
  unfold namesToCheck
  cases given : line.givenNames with
  | nil =>
    cases machine : sources.machineName? with
    | none =>
      constructor
      · intro checked
        cases checked
      · rintro (nonempty | ⟨_, named⟩)
        · exact absurd rfl nonempty
        · rw [machine] at named
          cases named
    | some name =>
      constructor
      · intro checked
        cases checked
        exact .machine rfl machine
      · rintro (nonempty | ⟨_, named⟩)
        · exact absurd rfl nonempty
        · rw [machine] at named
          cases named
          rfl
  | cons first others =>
    constructor
    · intro checked
      cases checked
      exact .given (by simp)
    · rintro (_ | ⟨empty, _⟩)
      · rfl
      · cases empty

theorem namesToCheck_eq_error_iff {line : CommandLine} {sources : NameSources}
    {failure : Failure} :
    namesToCheck line sources = .error failure ↔
      failure = .noMachineName ∧ line.givenNames = [] ∧ sources.machineName? = none := by
  unfold namesToCheck
  cases line.givenNames with
  | nil => cases sources.machineName? <;> simp [eq_comm]
  | cons first others => simp

theorem Checks.ne_nil {given names : List String} {sources : NameSources}
    (checks : Checks given sources names) : names ≠ [] := by
  cases checks with
  | given nonempty => exact nonempty
  | machine => exact List.cons_ne_nil _ _

/-- The run writes lines of text in no colour, and standard output takes them. -/
structure PlainText (line : CommandLine) (setting : Setting) : Prop where
  noReport : line.json = false
  noExplanations : line.explain = false
  noColour : showsColour (!line.noColor && setting.sink.isTerminal) setting.display.term
    setting.display.noColor = false
  room : setting.sink ≠ .full

/-- The line of a result, with the name beside it where there are several. -/
def resultLine (names : List String) (name result : String) : String :=
  (if 1 < names.length then name ++ ": " else "") ++ result ++ "\n"

theorem run_eq_of_plan {arguments : List Bytes} {setting : Setting} {line : CommandLine}
    {carried : Plan} (read : CommandLine.read arguments = .ok line)
    (plain : PlainText line setting) (planned : plan line setting = .ok (some carried)) :
    run arguments setting = some
      ⟨if carried.success then 0 else 1, String.join (carried.steps.map (Step.printed false)),
        String.join (carried.steps.map Step.warned)⟩ := by
  unfold run
  rw [read]
  dsimp only
  rw [planned, plain.noColour]
  dsimp only
  rw [Outcome.ofPlan_eq plain.room]

end HostPattern
