import HostPattern.Proofs.CommandLine.RoundTrip
import HostPattern.Proofs.Traversal

/-!
# The words among the arguments

An argument is a word unless it is an option or the value of the option before it, and behind a
lone pair of hyphens every argument is one.  Reading keeps the words in their order: those that
were read up to an argument, settled or held, and those from there on are the words of the
command line.
-/

namespace HostPattern

open Text

def dirLetter : UInt8 := 0x64

/-- The value of the option for a directory is to come in the next argument: nothing stands
behind the name of the option, or behind its letter, in this one. -/
def AwaitsValue (argument : Bytes) : Prop :=
  argument = Choice.dir.longArgument ∨
    argument.take 2 ≠ [hyphen, hyphen] ∧ argument.idxOf dirLetter + 1 = argument.length

instance (argument : Bytes) : Decidable (AwaitsValue argument) :=
  inferInstanceAs (Decidable (argument = Choice.dir.longArgument ∨
    argument.take 2 ≠ [hyphen, hyphen] ∧ argument.idxOf dirLetter + 1 = argument.length))

/-- The words among the arguments; if a value is awaited, the first argument is that. -/
def positionalsFrom (awaited : Bool) : List Bytes → List Bytes
  | [] => []
  | argument :: arguments =>
    if awaited then positionalsFrom false arguments
    else if argument = [hyphen, hyphen] then arguments
    else if StandsAlone argument then argument :: positionalsFrom false arguments
    else positionalsFrom (AwaitsValue argument) arguments

def positionals (arguments : List Bytes) : List Bytes :=
  positionalsFrom false arguments

theorem exists_of_bind_eq_ok {ε α β : Type} {first : Except ε α} {next : α → Except ε β} {b : β}
    (done : (first >>= next) = .ok b) : ∃ a, first = .ok a ∧ next a = .ok b := by
  cases first with
  | error e => cases done
  | ok a => exact ⟨a, rfl, done⟩

theorem Choice.eq_dir_iff_of_ofLong? {name : String} {choice : Choice}
    (found : ofLong? name = some choice) : choice = .dir ↔ name = Choice.dir.long := by
  have named : choice.long = name := by simpa using List.find?_some found
  constructor
  · rintro rfl
    exact named.symm
  · rintro rfl
    rw [ofLong?_long] at found
    exact (Option.some.inj found).symm

theorem Choice.short?_of_ofShort? {letter : Char} {choice : Choice}
    (found : ofShort? letter = some choice) : choice.short? = some letter := by
  simpa using List.find?_some found

theorem Choice.letter_eq_dirLetter_iff {letter : Char} {choice : Choice}
    (short : choice.short? = some letter) : letter.toUInt8 = dirLetter ↔ choice = .dir := by
  cases choice with
  | flag flag => cases flag <;> cases short <;> decide
  | dir | help | version => cases short; decide

namespace PartialLine

variable {part next : PartialLine} {line : CommandLine}

def wordsSoFar (part : PartialLine) : List Bytes :=
  part.line.words.map Utf8.encode ++
    match part.held with
    | .words words => words
    | _ => []

def awaits (part : PartialLine) : Bool :=
  part.held = .dir none

theorem eq_map_encode_of_decodeWords {words : List Bytes} {texts : List String}
    (decoded : decodeWords words = .ok texts) : texts.map Utf8.encode = words := by
  unfold decodeWords at decoded
  split at decoded
  · rename_i found mapped
    cases decoded
    exact map_eq_of_mapM_eq_some (fun _ _ read => (Utf8.decode?_eq_some_iff.mp read).symm) mapped
  · cases decoded

section Settled

theorem words_of_setDir {value : Bytes} {set : CommandLine}
    (done : setDir line value = .ok set) : set.words = line.words := by
  unfold setDir at done
  split at done
  · cases done
  · split at done
    · cases done
    · cases done
      rfl

theorem words_of_setFlag {flag : Flag} {set : CommandLine}
    (done : setFlag line flag = .ok set) : set.words = line.words := by
  unfold setFlag at done
  split at done
  · cases done
  · cases done
    cases flag <;> rfl

theorem words_of_settle (settled : part.settle = .ok line) :
    part.awaits = false ∧ line.words.map Utf8.encode = part.wordsSoFar := by
  obtain ⟨start, held⟩ := part
  cases held with
  | nothing =>
    cases settled
    exact ⟨rfl, by simp [wordsSoFar]⟩
  | dir value =>
    cases value with
    | none => cases settled
    | some value =>
      refine ⟨by simp [awaits], ?_⟩
      rw [words_of_setDir settled]
      simp [wordsSoFar]
  | words words =>
    obtain ⟨texts, decoded, rfl⟩ := settle_words_eq_ok_iff.mp settled
    refine ⟨by simp [awaits], ?_⟩
    rw [List.map_append, eq_map_encode_of_decodeWords decoded]
    rfl

end Settled

/-- Nothing was awaited and no word was added; a value may be awaited from here on. -/
structure Passes (part next : PartialLine) (awaited : Prop) : Prop where
  settled : part.awaits = false
  words : next.wordsSoFar = part.wordsSoFar
  awaits_iff : next.awaits = true ↔ awaited

theorem Passes.congr {awaited other : Prop} (passes : Passes part next awaited)
    (same : awaited ↔ other) : Passes part next other :=
  ⟨passes.settled, passes.words, passes.awaits_iff.trans same⟩

section Options

theorem passes_take {choice : Choice} (taken : part.take choice = .ok next) :
    Passes part next (choice = .dir) := by
  obtain ⟨line, settled, taken⟩ := exists_of_bind_eq_ok taken
  obtain ⟨still, words⟩ := words_of_settle settled
  cases choice with
  | dir =>
    cases taken
    exact ⟨still, by simpa [wordsSoFar] using words, by simp [awaits]⟩
  | flag flag =>
    obtain ⟨set, flagged, taken⟩ := exists_of_bind_eq_ok taken
    cases taken
    refine ⟨still, ?_, by simp [awaits]⟩
    simpa [wordsSoFar, words_of_setFlag flagged] using words
  | help => cases taken
  | version => cases taken

theorem passes_takeWith {choice : Choice} {value : Bytes}
    (taken : part.takeWith choice value = .ok next) : Passes part next False := by
  cases choice with
  | dir =>
    obtain ⟨line, settled, taken⟩ := exists_of_bind_eq_ok taken
    obtain ⟨set, valued, taken⟩ := exists_of_bind_eq_ok taken
    obtain ⟨still, words⟩ := words_of_settle settled
    cases taken
    refine ⟨still, ?_, by simp [awaits]⟩
    simpa [wordsSoFar, words_of_setDir valued] using words
  | flag | help | version => cases taken

theorem passes_takeName {name : Bytes} {value : Option Bytes}
    (taken : part.takeName name value = .ok next) :
    Passes part next (name = Utf8.encode Choice.dir.long ∧ value = none) := by
  unfold takeName at taken
  split at taken
  · cases taken
  · rename_i choice found
    obtain ⟨text, read, known⟩ := Option.bind_eq_some_iff.mp found
    obtain rfl := Utf8.decode?_eq_some_iff.mp read
    apply (passes_take taken).congr
    rw [Choice.eq_dir_iff_of_ofLong? known, and_iff_left rfl]
    exact ⟨congrArg Utf8.encode, Utf8.encode_injective⟩
  · simpa using passes_takeWith taken

theorem splitEquals_eq_none_iff {rest : Bytes} :
    (splitEquals rest).1 = Utf8.encode Choice.dir.long ∧ (splitEquals rest).2 = none ↔
      rest = Utf8.encode Choice.dir.long := by
  constructor
  · rintro ⟨name, bare⟩
    unfold splitEquals at name bare
    split at name
    · exact name
    · rename_i stopped
      rw [stopped] at bare
      cases bare
  · rintro rfl
    rw [(splitEquals_of_not_mem (Choice.equalsSign_not_mem_long .dir)).1]
    exact ⟨rfl, rfl⟩

theorem takeLetters_of_ne_dir {letter : Char} {choice : Choice}
    (found : Choice.ofShort? letter = some choice) (other : choice ≠ .dir) (letters : List Char)
    (rest : Bytes) :
    part.takeLetters (letter :: letters) rest =
      (part.take choice >>= fun next => next.takeLetters letters rest) := by
  rw [takeLetters, found]
  cases choice with
  | dir => exact absurd rfl other
  | flag | help | version => rfl

/-- What stands behind the letter of the option for a directory is its value. -/
theorem passes_takeLetters_dir {letters : List Char} {rest : Bytes}
    (taken : part.takeLetters ('d' :: letters) rest = .ok next) :
    Passes part next (Utf8.encodeChars letters ++ rest = []) := by
  rw [takeLetters_dir] at taken
  cases value : Utf8.encodeChars letters ++ rest with
  | nil =>
    rw [value] at taken
    simpa using passes_take taken
  | cons b others =>
    rw [value] at taken
    simpa using passes_takeWith taken

/-- A value is to come behind letters if the first that asks for one is the last byte. -/
theorem passes_takeLetters {letters : List Char} {rest : Bytes}
    (taken : part.takeLetters letters rest = .ok next) :
    (letters = [] ∧ rest = [] ∧ next = part) ∨
      Passes part next ((Utf8.encodeChars letters ++ rest).idxOf dirLetter + 1 =
        (Utf8.encodeChars letters ++ rest).length) := by
  induction letters generalizing part with
  | nil =>
    cases rest with
    | nil =>
      cases taken
      exact .inl ⟨rfl, rfl, rfl⟩
    | cons b rest => cases taken
  | cons letter letters inductionHypothesis =>
    right
    cases found : Choice.ofShort? letter with
    | none =>
      rw [takeLetters, found] at taken
      cases taken
    | some choice =>
      have short := Choice.short?_of_ofShort? found
      obtain ⟨single, -⟩ := Choice.encode_letter short
      have isDirLetter := Choice.letter_eq_dirLetter_iff short
      rw [Utf8.encodeChars_cons, single, List.singleton_append, List.cons_append, List.length_cons]
      by_cases named : choice = .dir
      · rw [isDirLetter.mpr named, List.idxOf_cons_self]
        subst named
        cases short
        apply (passes_takeLetters_dir taken).congr
        rw [← List.length_eq_zero_iff]
        omega
      · rw [List.idxOf_cons_ne _ (isDirLetter.not.mpr named)]
        rw [takeLetters_of_ne_dir found named] at taken
        obtain ⟨middle, taken, takenLetters⟩ := exists_of_bind_eq_ok taken
        have passes := passes_take taken
        -- The letter holds nothing, so that what follows it decides, or the letter if it is last.
        rcases inductionHypothesis takenLetters with ⟨rfl, rfl, rfl⟩ | passesLetters
        · simpa [named] using passes
        · have whole := passesLetters.words.trans passes.words
          exact ⟨passes.settled, whole, passesLetters.awaits_iff.trans (by omega)⟩

theorem awaitsValue_hyphens_iff {rest : Bytes} :
    AwaitsValue (hyphen :: hyphen :: rest) ↔ rest = Utf8.encode Choice.dir.long := by
  simp [AwaitsValue, Choice.longArgument]

theorem awaitsValue_hyphen_iff {first : UInt8} {rest : Bytes} (single : first ≠ hyphen) :
    AwaitsValue (hyphen :: first :: rest) ↔
      (first :: rest).idxOf dirLetter + 1 = (first :: rest).length := by
  have differs : hyphen ≠ dirLetter := by decide
  simp [AwaitsValue, Choice.longArgument, single, List.idxOf_cons_ne _ differs]

/-- An option is no word, and whether the next argument is one can be told from it. -/
theorem passes_takeArgument {argument : Bytes} (option : ¬ StandsAlone argument)
    (taken : part.takeArgument argument = .ok next) :
    Passes part next (AwaitsValue argument) := by
  unfold takeArgument at taken
  split at taken
  · rename_i rest
    show Passes part next (AwaitsValue (hyphen :: hyphen :: rest))
    rw [awaitsValue_hyphens_iff, ← splitEquals_eq_none_iff]
    exact passes_takeName taken
  · rename_i first rest single
    have whole := Utf8.encodeChars_splitValid (first :: rest)
    show Passes part next (AwaitsValue (hyphen :: first :: rest))
    rw [awaitsValue_hyphen_iff single]
    rcases passes_takeLetters taken with ⟨noLetters, noBytes, _⟩ | passes
    · rw [noLetters, noBytes] at whole
      cases whole
    · rw [whole] at passes
      exact passes
  · rename_i several letters
    apply absurd _ option
    intro first
    obtain ⟨rest, rfl⟩ := List.head?_eq_some_iff.mp first
    cases rest with
    | nil => rfl
    | cons b rest => exact (letters b rest rfl).elim

end Options

section Words

variable {word : Bytes} {arguments : List Bytes}

theorem words_of_addWord (added : part.addWord word = .ok next) :
    part.awaits = false ∧ next.awaits = false ∧
      next.wordsSoFar = part.wordsSoFar ++ [word] := by
  unfold addWord at added
  split at added
  · rename_i words first others held earlier
    cases added
    simp [awaits, wordsSoFar, held]
  · obtain ⟨line, settled, added⟩ := exists_of_bind_eq_ok added
    obtain ⟨still, words⟩ := words_of_settle settled
    cases added
    exact ⟨still, by simp [awaits], by simp [wordsSoFar, words]⟩

theorem words_of_addValue (added : part.addValue word = .ok next) :
    next.awaits = false ∧
      next.wordsSoFar = part.wordsSoFar ++ if part.awaits then [] else [word] := by
  unfold addValue at added
  split at added
  · rename_i held
    cases added
    simp [awaits, wordsSoFar, held]
  · obtain ⟨still, none, words⟩ := words_of_addWord added
    rw [still]
    exact ⟨none, words⟩

theorem words_of_finish (finished : part.finish = .ok line) :
    part.awaits = false ∧ line.words.map Utf8.encode = part.wordsSoFar ∧
      (line.words = [] → line.dir ≠ none) := by
  obtain ⟨settledLine, settled, finished⟩ := exists_of_bind_eq_ok finished
  obtain ⟨still, words⟩ := words_of_settle settled
  split at finished
  · cases finished
  · rename_i complete
    cases finished
    refine ⟨still, words, ?_⟩
    intro wordless undirected
    simp [wordless, undirected] at complete

theorem words_of_readWords (read : part.readWords arguments = .ok line) :
    part.awaits = false ∧ line.words.map Utf8.encode = part.wordsSoFar ++ arguments ∧
      (line.words = [] → line.dir ≠ none) := by
  induction arguments generalizing part with
  | nil =>
    simpa using words_of_finish read
  | cons word arguments inductionHypothesis =>
    obtain ⟨next, added, read⟩ := exists_of_bind_eq_ok read
    obtain ⟨still, _, words⟩ := words_of_addWord added
    obtain ⟨_, wordsBehind, asks⟩ := inductionHypothesis read
    refine ⟨still, ?_, asks⟩
    rw [wordsBehind, words, List.append_assoc, List.singleton_append]

/-- The words of the command line are those read so far and those among the arguments that
are left. -/
theorem words_of_read (read : part.read arguments = .ok line) :
    line.words.map Utf8.encode =
        part.wordsSoFar ++ positionalsFrom part.awaits arguments ∧
      (line.words = [] → line.dir ≠ none) := by
  induction arguments generalizing part with
  | nil =>
    obtain ⟨_, words, asks⟩ := words_of_finish read
    exact ⟨by simpa [positionalsFrom] using words, asks⟩
  | cons argument arguments inductionHypothesis =>
    rw [PartialLine.read] at read
    split at read
    · rename_i pair
      -- A lone pair of hyphens is not taken for a value.
      obtain ⟨still, words, asks⟩ := words_of_readWords read
      refine ⟨?_, asks⟩
      rw [words, still, positionalsFrom, if_neg Bool.false_ne_true, if_pos]
      exact pair
    · rename_i single
      obtain ⟨next, taken, read⟩ := exists_of_bind_eq_ok read
      obtain ⟨words, asks⟩ := inductionHypothesis read
      refine ⟨?_, asks⟩
      rw [words]
      by_cases alone : StandsAlone argument
      · rw [takeArgument_of_standsAlone alone] at taken
        obtain ⟨still, added⟩ := words_of_addValue taken
        rw [still, added, positionalsFrom]
        cases part.awaits with
        | false => simp [alone, ne_hyphens_of_standsAlone alone]
        | true => simp
      · have passes := passes_takeArgument alone taken
        have awaited : next.awaits = decide (AwaitsValue argument) := by
          rw [Bool.eq_iff_iff, passes.awaits_iff, decide_eq_true_eq]
        rw [passes.words, awaited, positionalsFrom, passes.settled]
        simp [alone, show argument ≠ [hyphen, hyphen] from single]

end Words

end PartialLine

end HostPattern
