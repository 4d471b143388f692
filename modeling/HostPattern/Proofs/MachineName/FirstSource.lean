import HostPattern.Proofs.Run.Transcript
import HostPattern.Proofs.Text.Trim
import Mathlib.Data.List.Nodup

/-!
# The first source that tells a name

A source tells the machine's name if what it says can be read as a text and is not all blank.
The name is what the first such source tells.  So what is said by the sources behind it does
not matter, and those before it might as well say nothing.
-/

namespace HostPattern

open Text

inductive NameSource
  | computerName
  | kernelFile
  | etcFile
  | systemCall
  | hostName
  deriving DecidableEq, Repr

namespace NameSource

/-- In the order in which they are asked. -/
def all : List NameSource :=
  [.computerName, .kernelFile, .etcFile, .systemCall, .hostName]

theorem mem_all (source : NameSource) : source ∈ all := by
  cases source <;> decide

theorem nodup_all : all.Nodup := by
  decide

def before (source : NameSource) : List NameSource :=
  all.takeWhile (· ≠ source)

theorem exists_all_eq_before_append (source : NameSource) :
    ∃ behind, all = source.before ++ source :: behind := by
  cases source <;> exact ⟨_, rfl⟩

/-- There is one place only at which a source stands among all. -/
theorem eq_before_of_all_eq {front behind : List NameSource} {source : NameSource}
    (split : all = front ++ source :: behind) : front = source.before := by
  have nodup := nodup_all
  rw [split, List.nodup_middle, List.nodup_cons, List.mem_append, not_or] at nodup
  have others : ∀ other ∈ front, decide (other ≠ source) = true := by
    intro other inside
    rw [decide_eq_true_eq]
    rintro rfl
    exact nodup.1.1 inside
  rw [before, split, List.takeWhile_append_of_pos others, List.takeWhile_cons_of_neg (by simp),
    List.append_nil]

end NameSource

namespace NameSources

def content (sources : NameSources) : NameSource → Option Bytes
  | .computerName => sources.computerName
  | .kernelFile => sources.kernelFile
  | .etcFile => sources.etcFile
  | .systemCall => sources.systemCall
  | .hostName => sources.hostName

/-- The field that the system call fills, zeros standing where nothing is written. -/
def fieldOf (written : Bytes) : Bytes :=
  (written ++ List.replicate fieldLength 0).take fieldLength

/-- `name` is what stands in the field before its first zero, or all of it if there is none. -/
def EndsAtZero (field name : Bytes) : Prop :=
  0 ∉ name ∧ (field = name ∨ ∃ rest, field = name ++ 0 :: rest)

/-- The text that the bytes of a source stand for.  Those of a variable or a file have to be
UTF-8; in the field of the system call a replacement character stands for what is not. -/
inductive Reads : NameSource → Bytes → String → Prop
  | text {source : NameSource} {text : String} :
      source ≠ .systemCall → Reads source (Utf8.encode text) text
  | field {written name : Bytes} :
      EndsAtZero (fieldOf written) name → Reads .systemCall written (Utf8.decodeLossy name)

/-- The source says something that is not all blank, and `name` is what is left of it without
the blanks at its ends. -/
def Tells (sources : NameSources) (source : NameSource) (name : String) : Prop :=
  ∃ bytes text, sources.content source = some bytes ∧ Reads source bytes text ∧
    (∃ c ∈ text.toList, isBlank c = false) ∧ IsTrimOf name.toList text.toList

/-- The source tells the name, and none that is asked before it tells any. -/
structure First (sources : NameSources) (source : NameSource) (name : String) : Prop where
  tells : sources.Tells source name
  silent : ∀ earlier ∈ source.before, ∀ other, ¬ sources.Tells earlier other

def taken? (source : NameSource) (said : Option Bytes) : Option String :=
  match source with
  | .systemCall => fromField said
  | _ => fromText said

theorem machineName?_eq_findSome? (sources : NameSources) :
    sources.machineName? =
      NameSource.all.findSome? fun source => taken? source (sources.content source) :=
  rfl

section Field

variable {field name : Bytes}

theorem endsAtZero_iff : EndsAtZero field name ↔ field.takeWhile (· != 0) = name := by
  constructor
  · rintro ⟨nonzero, ends⟩
    have written : ∀ b ∈ name, (b != 0) = true := by
      intro b inside
      rw [bne_iff_ne]
      rintro rfl
      exact nonzero inside
    rcases ends with rfl | ⟨rest, rfl⟩
    · exact List.takeWhile_eq_self_iff.mpr written
    · rw [List.takeWhile_append_of_pos written, List.takeWhile_cons_of_neg (by simp),
        List.append_nil]
  · rintro rfl
    have split := List.takeWhile_append_dropWhile (p := (· != 0)) (l := field)
    refine ⟨fun inside => by simpa using List.mem_takeWhile_imp inside, ?_⟩
    cases rest : field.dropWhile (· != 0) with
    | nil =>
      rw [rest, List.append_nil] at split
      exact .inl split.symm
    | cons b others =>
      have zero := List.head?_dropWhile_not (· != 0) field
      simp only [rest, List.head?_cons, bne_eq_false_iff_eq] at zero
      rw [rest, zero] at split
      exact .inr ⟨others, split.symm⟩

theorem takeWhile_append_zeros (written : Bytes) (count : Nat) :
    (written ++ List.replicate count 0).takeWhile (· != 0) = written.takeWhile (· != 0) := by
  rw [List.takeWhile_append, List.takeWhile_replicate]
  split
  · rename_i whole
    simpa using (List.takeWhile_prefix _).eq_of_length whole |>.symm
  · rfl

theorem takeWhile_fieldOf (written : Bytes) :
    (fieldOf written).takeWhile (· != 0) =
      (written.take fieldLength).takeWhile (· != 0) := by
  rw [fieldOf, List.take_append, List.take_replicate, takeWhile_append_zeros]

end Field

section Taken

variable {sources other : NameSources} {source : NameSource} {name : String}

theorem reads_text_iff {bytes : Bytes} {text : String} (stored : source ≠ .systemCall) :
    Reads source bytes text ↔ Utf8.decode? bytes = some text := by
  rw [Utf8.decode?_eq_some_iff]
  constructor
  · intro reads
    cases reads with
    | text => rfl
    | field => exact absurd rfl stored
  · rintro rfl
    exact .text stored

theorem reads_systemCall_iff {written : Bytes} {text : String} :
    Reads .systemCall written text ↔
      Utf8.decodeLossy ((written.take fieldLength).takeWhile (· != 0)) = text := by
  rw [← takeWhile_fieldOf]
  constructor
  · intro reads
    cases reads with
    | text stored => exact absurd rfl stored
    | field ends => rw [endsAtZero_iff.mp ends]
  · rintro rfl
    exact .field (endsAtZero_iff.mpr rfl)

theorem tells_iff :
    sources.Tells source name ↔
      ∃ bytes, sources.content source = some bytes ∧
        ∃ text, Reads source bytes text ∧ nonBlank? text = some name := by
  simp only [Tells, nonBlank?_eq_some_iff]
  constructor
  · rintro ⟨bytes, text, said, reads, visible, trim⟩
    refine ⟨bytes, said, text, reads, ?_, trim⟩
    rw [ne_eq, ← String.toList_eq_nil_iff]
    exact trim.ne_nil_iff.mpr visible
  · rintro ⟨bytes, said, text, reads, filled, trim⟩
    refine ⟨bytes, text, said, reads, trim.ne_nil_iff.mp ?_, trim⟩
    rw [ne_eq, String.toList_eq_nil_iff]
    exact filled

theorem fromText_eq_some_iff {said : Option Bytes} :
    fromText said = some name ↔
      ∃ bytes, said = some bytes ∧
        ∃ text, Utf8.decode? bytes = some text ∧ nonBlank? text = some name := by
  unfold fromText
  rw [Option.bind_eq_bind, Option.bind_eq_some_iff]
  simp only [Option.bind_eq_bind, Option.bind_eq_some_iff]

theorem taken?_eq_some_iff :
    taken? source (sources.content source) = some name ↔ sources.Tells source name := by
  rw [tells_iff]
  by_cases called : source = .systemCall
  · subst called
    simp only [reads_systemCall_iff, exists_eq_left']
    exact Option.bind_eq_some_iff
  · simp only [reads_text_iff called]
    rw [← fromText_eq_some_iff]
    cases source with
    | systemCall => exact absurd rfl called
    | computerName | kernelFile | etcFile | hostName => rfl

theorem taken?_eq_none_iff :
    taken? source (sources.content source) = none ↔ ∀ name, ¬ sources.Tells source name := by
  simp only [← taken?_eq_some_iff, Option.eq_none_iff_forall_ne_some, ne_eq]

theorem not_tells_of_absent (absent : sources.content source = none) :
    ¬ sources.Tells source name := by
  rintro ⟨bytes, _, said, _⟩
  rw [absent] at said
  cases said

theorem tells_congr (same : other.content source = sources.content source) :
    other.Tells source name ↔ sources.Tells source name := by
  rw [Tells, same, Tells]

theorem machineName?_eq_none_iff :
    sources.machineName? = none ↔ ∀ source name, ¬ sources.Tells source name := by
  rw [machineName?_eq_findSome?, List.findSome?_eq_none_iff]
  simp only [taken?_eq_none_iff]
  constructor
  · intro silent source
    exact silent source source.mem_all
  · intro silent source _
    exact silent source

theorem machineName?_eq_some_iff :
    sources.machineName? = some name ↔ ∃ source, sources.First source name := by
  rw [machineName?_eq_findSome?, List.findSome?_eq_some_iff]
  constructor
  · rintro ⟨front, source, behind, split, told, silent⟩
    -- As no source is asked twice, the ones in front are those before it.
    obtain rfl := NameSource.eq_before_of_all_eq split
    refine ⟨source, taken?_eq_some_iff.mp told, ?_⟩
    intro earlier inside
    exact taken?_eq_none_iff.mp (silent earlier inside)
  · rintro ⟨source, tells, silent⟩
    obtain ⟨behind, split⟩ := source.exists_all_eq_before_append
    refine ⟨source.before, source, behind, split, taken?_eq_some_iff.mpr tells, ?_⟩
    intro earlier inside
    exact taken?_eq_none_iff.mpr (silent earlier inside)

/-- What tells the name first goes on doing so if those before it say what they said or
nothing, and whatever those behind it say. -/
theorem First.of_content (first : sources.First source name)
    (here : other.content source = sources.content source)
    (front : ∀ earlier ∈ source.before, other.content earlier = sources.content earlier ∨
      other.content earlier = none) : other.First source name := by
  refine ⟨(tells_congr here).mpr first.tells, ?_⟩
  intro earlier inside told tells
  rcases front earlier inside with same | absent
  · exact first.silent earlier inside told ((tells_congr same).mp tells)
  · exact not_tells_of_absent absent tells

theorem Tells.trimmed (tells : sources.Tells source name) :
    name ≠ "" ∧ trimChars name.toList = name.toList := by
  obtain ⟨_, _, _, _, visible, trim⟩ := tells
  refine ⟨?_, trimChars_of_trimmed trim.1⟩
  rw [ne_eq, ← String.toList_eq_nil_iff]
  exact trim.ne_nil_iff.mpr visible

end Taken

end NameSources

open NameSources in
/-- The machine's name is told by the first source that tells any.  There is none exactly where no
source tells one, and for this reason alone a run has no names to check.  The name is not empty
and has no blanks at its ends, and it stays the same if sources before the first are absent, and
whatever those behind it say. -/
theorem machineName?_by_first_source (sources : NameSources) :
    (∀ name, sources.machineName? = some name ↔ ∃ source, sources.First source name) ∧
    (sources.machineName? = none ↔ ∀ source name, ¬ sources.Tells source name) ∧
    (∀ line : CommandLine, namesToCheck line sources = .error .noMachineName ↔
      line.givenNames = [] ∧ ∀ source name, ¬ sources.Tells source name) ∧
    (∀ name, sources.machineName? = some name →
      name ≠ "" ∧ trimChars name.toList = name.toList) ∧
    ∀ source name, sources.First source name → ∀ other : NameSources,
      other.content source = sources.content source →
      (∀ earlier ∈ source.before, other.content earlier = sources.content earlier ∨
        other.content earlier = none) →
      other.machineName? = some name := by
  refine ⟨fun name => machineName?_eq_some_iff, machineName?_eq_none_iff, ?_, ?_, ?_⟩
  · intro line
    rw [namesToCheck_eq_error_iff, machineName?_eq_none_iff]
    exact and_iff_right rfl
  · intro name found
    obtain ⟨source, first⟩ := machineName?_eq_some_iff.mp found
    exact first.tells.trimmed
  · intro source name first other here front
    exact machineName?_eq_some_iff.mpr ⟨source, first.of_content here front⟩

/-- A variable that is no UTF-8, a file of blanks, and a field with a broken character before
its first zero. -/
def brokenSources : NameSources where
  computerName := some [0x77, 0xFF]
  kernelFile := some (Utf8.encode " \n\u00A0")
  etcFile := none
  systemCall := some (0x20 :: Utf8.encode "web" ++ 0xFF :: 0x20 :: 0x00 :: Utf8.encode "old")
  hostName := some (Utf8.encode "late")

open NameSources in
theorem machineName?_by_first_source_broken :
    let fewer : NameSources := { brokenSources with computerName := none, hostName := none }
    brokenSources.First .systemCall "web\uFFFD" ∧
      brokenSources.machineName? = some "web\uFFFD" ∧
      fewer.machineName? = some "web\uFFFD" := by
  intro fewer
  have silent : ∀ earlier ∈ NameSource.systemCall.before,
      taken? earlier (brokenSources.content earlier) = none := by
    decide +kernel
  have first : brokenSources.First .systemCall "web\uFFFD" :=
    ⟨taken?_eq_some_iff.mp (by decide +kernel),
      fun earlier inside => taken?_eq_none_iff.mp (silent earlier inside)⟩
  obtain ⟨found, _, _, _, unchanged⟩ := machineName?_by_first_source brokenSources
  refine ⟨first, (found _).mpr ⟨_, first⟩, ?_⟩
  exact unchanged .systemCall _ first fewer rfl (by decide +kernel)

end HostPattern
