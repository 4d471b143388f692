import HostPattern.Proofs.CommandLine.Spelling

/-!
# Command lines are read back

What is read of a piece is settled at once, or held until the next argument shows that it
can be.  In either way reading goes on from a command line that has gathered the words, the
directory and the flags of all pieces before.
-/

namespace HostPattern

open Text

namespace CommandLine

/-- The command line with the words, the first of the directories and the flags. -/
def gathered (words : List String) (dirs : List Bytes) (flags : List Flag) : CommandLine :=
  ⟨words, dirs.head?, .explain ∈ flags, .json ∈ flags, .sequential ∈ flags, .noColor ∈ flags⟩

section Gathered

variable {words : List String} {dirs : List Bytes} {flags : List Flag}

theorem has_gathered (flag : Flag) :
    (gathered words dirs flags).has flag = decide (flag ∈ flags) := by
  cases flag <;> rfl

theorem set_gathered (flag : Flag) :
    (gathered words dirs flags).set flag = gathered words dirs (flags ++ [flag]) := by
  cases flag <;> simp [set, gathered]

theorem eq_gathered {line : CommandLine} (words_eq : words = line.words)
    (dirs_eq : dirs = line.dir.toList)
    (mem_flags_iff : ∀ flag, flag ∈ flags ↔ line.has flag = true) :
    line = gathered words dirs flags := by
  obtain ⟨_, dir, explain, json, sequential, noColor⟩ := line
  have explains := mem_flags_iff .explain
  have reports := mem_flags_iff .json
  have inTurn := mem_flags_iff .sequential
  have plain := mem_flags_iff .noColor
  simp only [has] at explains reports inTurn plain
  subst words_eq dirs_eq
  cases dir <;> simp [gathered, explains, reports, inTurn, plain]

end Gathered

end CommandLine

namespace Choice

theorem ofLong?_long (choice : Choice) : ofLong? choice.long = some choice := by
  cases choice with
  | flag flag => cases flag <;> decide
  | _ => decide

theorem ofShort?_eq_some {choice : Choice} {letter : Char} (short : choice.short? = some letter) :
    ofShort? letter = some choice := by
  cases choice with
  | flag flag => cases flag <;> cases short <;> decide
  | _ => cases short; decide

theorem equalsSign_not_mem_long (choice : Choice) : equalsSign ∉ Utf8.encode choice.long := by
  cases choice with
  | flag flag => cases flag <;> decide
  | _ => decide

theorem encode_long_ne_nil (choice : Choice) : Utf8.encode choice.long ≠ [] := by
  cases choice with
  | flag flag => cases flag <;> decide
  | _ => decide

theorem encode_letter {choice : Choice} {letter : Char} (short : choice.short? = some letter) :
    String.utf8EncodeChar letter = [letter.toUInt8] ∧ letter.toUInt8 ≠ hyphen := by
  cases choice with
  | flag flag => cases flag <;> cases short <;> decide
  | _ => cases short; decide

end Choice

namespace PartialLine

variable {part : PartialLine} {line : CommandLine}

section Arguments

theorem read_cons {argument : Bytes} {next : PartialLine} (option : argument ≠ [hyphen, hyphen])
    (taken : part.takeArgument argument = .ok next) (rest : List Bytes) :
    part.read (argument :: rest) = next.read rest := by
  rw [read, if_neg (show argument ≠ [0x2D, 0x2D] from option), taken]
  rfl

theorem takeArgument_of_standsAlone {argument : Bytes} (alone : StandsAlone argument) :
    part.takeArgument argument = part.addValue argument := by
  unfold takeArgument
  split
  · cases alone rfl
  · cases alone rfl
  · rfl

theorem ne_hyphens_of_standsAlone {argument : Bytes} (alone : StandsAlone argument) :
    argument ≠ [hyphen, hyphen] := by
  rintro rfl
  cases alone rfl

theorem splitEquals_of_not_mem {name : Bytes} (plain : equalsSign ∉ name) :
    splitEquals name = (name, none) ∧
      ∀ value, splitEquals (name ++ equalsSign :: value) = (name, some value) := by
  have differs : ∀ b ∈ name, (b != 0x3D) = true := by
    intro b inside
    rw [bne_iff_ne]
    rintro rfl
    exact plain inside
  constructor
  · have passed : (name ++ []).dropWhile (· != 0x3D) = [] := by
      rw [List.dropWhile_append_of_pos differs]
      rfl
    rw [List.append_nil] at passed
    rw [splitEquals, passed]
  · intro value
    have stop : ¬ (equalsSign != 0x3D) = true := by decide
    unfold splitEquals
    rw [List.dropWhile_append_of_pos differs, List.dropWhile_cons_of_neg (p := (· != 0x3D)) stop,
      List.takeWhile_append_of_pos differs, List.takeWhile_cons_of_neg (p := (· != 0x3D)) stop,
      List.append_nil]

theorem takeArgument_longArgument (part : PartialLine) (choice : Choice) :
    part.takeArgument choice.longArgument = part.take choice ∧
      ∀ value, part.takeArgument (choice.longArgument ++ equalsSign :: value) =
        part.takeWith choice value := by
  have named : (Utf8.decode? (Utf8.encode choice.long)).bind Choice.ofLong? = some choice := by
    rw [Utf8.decode?_eq_some_iff.mpr rfl]
    exact choice.ofLong?_long
  obtain ⟨bare, valued⟩ := splitEquals_of_not_mem choice.equalsSign_not_mem_long
  constructor
  · show part.takeArgument (0x2D :: 0x2D :: Utf8.encode choice.long) = _
    simp only [takeArgument, bare, takeName, named]
  · intro value
    show part.takeArgument (0x2D :: 0x2D :: (Utf8.encode choice.long ++ _)) = _
    simp only [takeArgument, valued, takeName, named]

theorem takeArgument_lettersArgument (part : PartialLine) {choices : List Choice}
    (filled : choices ≠ [])
    (lettered : ∀ choice ∈ choices, choice.short?.isSome = true) (bytes : Bytes) :
    Choice.lettersArgument choices ++ bytes ≠ [hyphen, hyphen] ∧
      part.takeArgument (Choice.lettersArgument choices ++ bytes) =
        part.takeLetters (Choice.letters choices ++ (Utf8.splitValid bytes).1)
          (Utf8.splitValid bytes).2 := by
  obtain ⟨choice, choices, rfl⟩ := List.exists_cons_of_ne_nil filled
  obtain ⟨letter, short⟩ := Option.isSome_iff_exists.mp (lettered choice List.mem_cons_self)
  obtain ⟨single, differs⟩ := Choice.encode_letter short
  have letters : Choice.letters (choice :: choices) = letter :: Choice.letters choices := by
    simp [Choice.letters, short]
  have argument : Choice.lettersArgument (choice :: choices) ++ bytes =
      hyphen :: letter.toUInt8 :: (Utf8.encodeChars (Choice.letters choices) ++ bytes) := by
    simp [Choice.lettersArgument, letters, single]
  have valid := Utf8.splitValid_encodeChars_append (letter :: Choice.letters choices) bytes
  rw [Utf8.encodeChars_cons, single, List.singleton_append, List.cons_append] at valid
  rw [argument, letters]
  constructor
  · simp [differs]
  · unfold takeArgument
    split
    · rename_i same
      simp only [List.cons.injEq] at same
      exact absurd same.2.1 differs
    · rename_i same
      simp only [List.cons.injEq] at same
      obtain ⟨-, rfl, rfl⟩ := same
      simp only [valid]
    · rename_i other
      exact (other _ _ rfl).elim

end Arguments

section Settled

variable {words : List String} {dirs : List Bytes} {flags : List Flag}

theorem take_dir (settled : part.settle = .ok line) :
    part.take .dir = .ok ⟨line, .dir none⟩ := by
  rw [take, settled]
  rfl

theorem take_flag (settled : part.settle = .ok (.gathered words dirs flags)) {flag : Flag}
    (fresh : flag ∉ flags) :
    part.take (.flag flag) = .ok ⟨.gathered words dirs (flags ++ [flag]), .nothing⟩ := by
  have unset : (CommandLine.gathered words dirs flags).has flag = false := by
    simpa [CommandLine.has_gathered] using fresh
  have added : setFlag (.gathered words dirs flags) flag =
      .ok (.gathered words dirs (flags ++ [flag])) := by
    simp [setFlag, unset, CommandLine.set_gathered]
  rw [take, settled]
  change (do return (⟨← setFlag (.gathered words dirs flags) flag, .nothing⟩ : PartialLine)) = _
  rw [added]
  rfl

theorem setDir_gathered {value : Bytes} (filled : value ≠ []) :
    setDir (.gathered words [] flags) value = .ok (.gathered words [value] flags) := by
  simp [setDir, CommandLine.gathered, filled]

theorem takeWith_dir (settled : part.settle = .ok (.gathered words [] flags))
    {value : Bytes} (filled : value ≠ []) :
    part.takeWith .dir value = .ok ⟨.gathered words [value] flags, .nothing⟩ := by
  rw [takeWith, settled]
  change (do return (⟨← setDir (.gathered words [] flags) value, .nothing⟩ : PartialLine)) = _
  rw [setDir_gathered filled]
  rfl

theorem addValue_of_settled (settled : part.settle = .ok line) (word : Bytes) :
    part.addValue word = part.addWord word := by
  obtain ⟨held_line, held⟩ := part
  cases held with
  | nothing => rfl
  | words held => rfl
  | dir value =>
    cases value with
    | none => cases settled
    | some value => rfl

theorem decodeWords_append {held : List Bytes} {texts : List String}
    (decoded : decodeWords held = .ok texts) (text : String) :
    decodeWords (held ++ [Utf8.encode text]) = .ok (texts ++ [text]) := by
  unfold decodeWords at decoded ⊢
  rw [List.mapM_append]
  cases before : held.mapM Utf8.decode? with
  | none => simp [before] at decoded
  | some found =>
    simp only [before, Except.ok.injEq] at decoded
    simp [decoded, Utf8.decode?_eq_some_iff.mpr rfl]

theorem settle_words_eq_ok_iff {settledLine : CommandLine} {held : List Bytes} :
    settle ⟨line, .words held⟩ = .ok settledLine ↔
      ∃ texts, decodeWords held = .ok texts ∧
        settledLine = { line with words := line.words ++ texts } := by
  unfold settle
  dsimp only
  cases decodeWords held with
  | error halt =>
    constructor
    · intro settled
      cases settled
    · rintro ⟨_, decoded, _⟩
      cases decoded
  | ok texts =>
    constructor
    · intro settled
      cases settled
      exact ⟨texts, rfl, rfl⟩
    · rintro ⟨_, decoded, rfl⟩
      cases decoded
      rfl

/-- A word is held: with those before it, or alone where these can be settled. -/
theorem exists_addWord (settled : part.settle = .ok line) (text : String) :
    ∃ next, part.addWord (Utf8.encode text) = .ok next ∧
      next.settle = .ok { line with words := line.words ++ [text] } := by
  have single : decodeWords ([] ++ [Utf8.encode text]) = .ok ([] ++ [text]) :=
    decodeWords_append rfl text
  have begun : (do return (⟨← part.settle, .words [Utf8.encode text]⟩ : PartialLine)) =
      .ok ⟨line, .words [Utf8.encode text]⟩ := by
    rw [settled]
    rfl
  unfold addWord
  split
  · rename_i held first others heldWords _
    obtain ⟨texts, decoded, rfl⟩ : ∃ texts, decodeWords held = .ok texts ∧
        line = { part.line with words := part.line.words ++ texts } := by
      apply settle_words_eq_ok_iff.mp
      rw [← heldWords]
      exact settled
    refine ⟨_, rfl, settle_words_eq_ok_iff.mpr ⟨_, decodeWords_append decoded text, ?_⟩⟩
    simp
  · exact ⟨_, begun, settle_words_eq_ok_iff.mpr ⟨_, single, rfl⟩⟩

theorem takeLetters_flag {flag : Flag} {letter : Char} {next : PartialLine}
    (short : (Choice.flag flag).short? = some letter)
    (taken : part.take (.flag flag) = .ok next) (letters : List Char) (rest : Bytes) :
    part.takeLetters (letter :: letters) rest = next.takeLetters letters rest := by
  rw [takeLetters, Choice.ofShort?_eq_some short]
  dsimp only
  rw [taken]
  rfl

theorem exists_takeLetters (settled : part.settle = .ok (.gathered words dirs flags))
    {added : List Flag} (lettered : ∀ flag ∈ added, flag.HasLetter)
    (once : (flags ++ added).Nodup) :
    ∃ next : PartialLine, next.settle = .ok (.gathered words dirs (flags ++ added)) ∧
      ∀ letters rest, part.takeLetters (Choice.letters (added.map .flag) ++ letters) rest =
        next.takeLetters letters rest := by
  induction added generalizing part flags with
  | nil =>
    refine ⟨part, ?_, fun _ _ => rfl⟩
    rw [List.append_nil]
    exact settled
  | cons flag added inductionHypothesis =>
    obtain ⟨here, there⟩ := List.forall_mem_cons.mp lettered
    obtain ⟨letter, short⟩ := Option.isSome_iff_exists.mp here
    rw [List.append_cons] at once ⊢
    have fresh : flag ∉ flags := by
      have before := once.sublist (List.sublist_append_left _ _)
      exact fun inside => (List.nodup_append.mp before).2.2 flag inside flag (by simp) rfl
    have taken := take_flag settled fresh
    have gatheredOne : settle ⟨.gathered words dirs (flags ++ [flag]), .nothing⟩ =
        .ok (.gathered words dirs (flags ++ [flag])) := rfl
    obtain ⟨next, gathers, goesOn⟩ := inductionHypothesis gatheredOne there once
    refine ⟨next, gathers, ?_⟩
    intro letters rest
    rw [← goesOn, ← takeLetters_flag short taken]
    simp [Choice.letters, short]

theorem takeLetters_dir (letters : List Char) (rest : Bytes) :
    part.takeLetters ('d' :: letters) rest =
      match Utf8.encodeChars letters ++ rest with
      | [] => part.take .dir
      | value => part.takeWith .dir (withoutEquals value) := by
  have found : Choice.ofShort? 'd' = some .dir := by decide
  unfold takeLetters
  generalize Utf8.encodeChars letters ++ rest = value
  cases value <;> simp only [found]

theorem read_value {value : Bytes} (alone : StandsAlone value) (rest : List Bytes) :
    read ⟨line, .dir none⟩ (value :: rest) = read ⟨line, .dir (some value)⟩ rest := by
  apply read_cons (ne_hyphens_of_standsAlone alone)
  rw [takeArgument_of_standsAlone alone]
  rfl

theorem withoutEquals_of_head?_ne {value : Bytes} (bare : value.head? ≠ some equalsSign) :
    withoutEquals value = value := by
  unfold withoutEquals
  split
  · exact absurd rfl bare
  · rfl

theorem lettered_dir {added : List Flag} (lettered : ∀ flag ∈ added, flag.HasLetter) :
    ∀ choice ∈ added.map Choice.flag ++ [.dir], choice.short?.isSome = true := by
  intro choice inside
  rcases List.mem_append.mp inside with flagInside | dirInside
  · obtain ⟨flag, member, rfl⟩ := List.mem_map.mp flagInside
    exact lettered flag member
  · cases List.mem_singleton.mp dirInside
    rfl

/-- The option for a directory is reached with the flags before it gathered, whatever name
it has and wherever its value stands. -/
theorem exists_read_dirName (settled : part.settle = .ok (.gathered words dirs flags))
    {name : DirName} (lettered : ∀ flag ∈ name.flags, flag.HasLetter)
    (once : (flags ++ name.flags).Nodup) :
    ∃ next : PartialLine, next.settle = .ok (.gathered words dirs (flags ++ name.flags)) ∧
      (∀ last rest, next.take .dir = .ok last →
        part.read (name.argument :: rest) = last.read rest) ∧
      (∀ value last rest, next.takeWith .dir value = .ok last →
        part.read ((name.argument ++ equalsSign :: value) :: rest) = last.read rest) ∧
      ∀ value last rest, name ≠ .long → value ≠ [] → value.head? ≠ some equalsSign →
        next.takeWith .dir value = .ok last →
        part.read ((name.argument ++ value) :: rest) = last.read rest := by
  cases name with
  | long =>
    obtain ⟨bare, valued⟩ := takeArgument_longArgument part .dir
    refine ⟨part, by simpa [DirName.flags] using settled, ?_, ?_, ?_⟩
    · intro last rest taken
      exact read_cons (by decide) (bare.trans taken) rest
    · intro value last rest taken
      apply read_cons (by simp [DirName.argument, Choice.longArgument, Choice.encode_long_ne_nil])
      exact (valued value).trans taken
    · intro _ _ _ named
      exact absurd rfl named
  | letter added =>
    change ∀ flag ∈ added, flag.HasLetter at lettered
    change (flags ++ added).Nodup at once
    obtain ⟨next, gathers, goesOn⟩ := exists_takeLetters settled lettered once
    have reached (value : Bytes) (last : PartialLine) (rest : List Bytes)
        (taken : (match value with
          | [] => next.take .dir
          | value => next.takeWith .dir (withoutEquals value)) = .ok last) :
        part.read (((DirName.letter added).argument ++ value) :: rest) = last.read rest := by
      obtain ⟨option, letters⟩ := takeArgument_lettersArgument part (by simp)
        (lettered_dir lettered) value
      apply read_cons option
      have split : Choice.letters (added.map Choice.flag ++ [.dir]) =
          Choice.letters (added.map Choice.flag) ++ ['d'] := List.filterMap_append
      change part.takeArgument (Choice.lettersArgument (added.map .flag ++ [.dir]) ++ value) = _
      rw [letters, split, List.append_assoc, goesOn, List.singleton_append, takeLetters_dir,
        Utf8.encodeChars_splitValid]
      exact taken
    refine ⟨next, gathers, ?_, ?_, ?_⟩
    · intro last rest taken
      have read := reached [] last rest taken
      rw [List.append_nil] at read
      exact read
    · intro value last rest taken
      exact reached (equalsSign :: value) last rest taken
    · intro value last rest _ filled bare taken
      obtain ⟨first, others, rfl⟩ := List.exists_cons_of_ne_nil filled
      apply reached
      rw [← withoutEquals_of_head?_ne bare] at taken
      exact taken

theorem exists_read_piece (settled : part.settle = .ok (.gathered words dirs flags))
    {piece : Piece} (writable : piece.IsWritable) (oneDir : (dirs ++ piece.dirs).length ≤ 1)
    (filled : ∀ value ∈ piece.dirs, value ≠ []) (once : (flags ++ piece.flags).Nodup) :
    ∃ next : PartialLine, next.settle = .ok (.gathered (words ++ piece.words) (dirs ++ piece.dirs)
        (flags ++ piece.flags)) ∧
      ∀ rest, part.read (piece.arguments ++ rest) = next.read rest := by
  cases piece with
  | word text =>
    obtain ⟨next, added, gathers⟩ := exists_addWord settled text
    refine ⟨next, ?_, ?_⟩
    · simpa [CommandLine.gathered, Piece.words, Piece.dirs, Piece.flags] using gathers
    · apply read_cons (ne_hyphens_of_standsAlone writable)
      rw [takeArgument_of_standsAlone writable, addValue_of_settled settled, added]
  | long flag =>
    have fresh : flag ∉ flags := by
      intro inside
      exact (List.nodup_append.mp once).2.2 flag inside flag (by simp [Piece.flags]) rfl
    refine ⟨⟨.gathered words dirs (flags ++ [flag]), .nothing⟩, ?_, ?_⟩
    · simp [settle, Piece.words, Piece.dirs, Piece.flags]
    · apply read_cons (by simp [Choice.longArgument, Choice.encode_long_ne_nil])
      exact (takeArgument_longArgument part (.flag flag)).1.trans (take_flag settled fresh)
  | letters added =>
    obtain ⟨nonempty, lettered⟩ := writable
    obtain ⟨next, gathers, goesOn⟩ := exists_takeLetters settled lettered once
    refine ⟨next, by simpa [Piece.words, Piece.dirs, Piece.flags] using gathers, ?_⟩
    have choices : ∀ choice ∈ added.map Choice.flag, choice.short?.isSome = true :=
      List.forall_mem_map.mpr lettered
    obtain ⟨option, letters⟩ := takeArgument_lettersArgument part (by simpa using nonempty)
      choices []
    rw [List.append_nil] at option letters
    apply read_cons option
    rw [letters, Utf8.splitValid_nil, goesOn]
    rfl
  | dir name attachment value =>
    obtain rfl : dirs = [] := by
      simpa [Piece.dirs] using oneDir
    have nonempty : value ≠ [] := filled value (by simp [Piece.dirs])
    have lettered : ∀ flag ∈ name.flags, flag.HasLetter := by
      cases attachment with
      | joined => exact writable.2.1
      | equals => exact writable
      | apart => exact writable.1
    obtain ⟨next, gathers, bare, valued, joined⟩ := exists_read_dirName settled lettered once
    cases attachment with
    | joined =>
      obtain ⟨short, _, plain⟩ := writable
      refine ⟨_, ?_, fun rest => joined value _ rest short nonempty plain
        (takeWith_dir gathers nonempty)⟩
      simp [settle, Piece.words, Piece.dirs, Piece.flags]
    | equals =>
      refine ⟨_, ?_, fun rest => valued value _ rest (takeWith_dir gathers nonempty)⟩
      simp [settle, Piece.words, Piece.dirs, Piece.flags]
    | apart =>
      obtain ⟨_, alone⟩ := writable
      refine ⟨⟨.gathered words [] (flags ++ name.flags), .dir (some value)⟩, ?_, ?_⟩
      · simpa [settle, Piece.words, Piece.dirs, Piece.flags] using setDir_gathered nonempty
      · intro rest
        exact (bare _ _ (take_dir gathers)).trans (read_value alone rest)

theorem exists_read_pieces (settled : part.settle = .ok (.gathered words dirs flags))
    {pieces : List Piece} (writable : ∀ piece ∈ pieces, piece.IsWritable)
    (oneDir : (dirs ++ pieces.flatMap Piece.dirs).length ≤ 1)
    (filled : ∀ value ∈ pieces.flatMap Piece.dirs, value ≠ [])
    (once : (flags ++ pieces.flatMap Piece.flags).Nodup) :
    ∃ next : PartialLine, next.settle = .ok (.gathered (words ++ pieces.flatMap Piece.words)
        (dirs ++ pieces.flatMap Piece.dirs) (flags ++ pieces.flatMap Piece.flags)) ∧
      ∀ rest, part.read (pieces.flatMap Piece.arguments ++ rest) = next.read rest := by
  induction pieces generalizing part words dirs flags with
  | nil => exact ⟨part, by simpa using settled, fun _ => rfl⟩
  | cons piece pieces inductionHypothesis =>
    obtain ⟨here, there⟩ := List.forall_mem_cons.mp writable
    simp only [List.flatMap_cons, ← List.append_assoc] at oneDir once ⊢
    rw [List.flatMap_cons, List.forall_mem_append] at filled
    have hereOneDir : (dirs ++ piece.dirs).length ≤ 1 := by
      rw [List.length_append] at oneDir
      omega
    obtain ⟨middle, gathers, goesOn⟩ := exists_read_piece settled here hereOneDir filled.1
      (once.sublist (List.sublist_append_left _ _))
    obtain ⟨next, gathersAll, goesFurther⟩ :=
      inductionHypothesis gathers there oneDir filled.2 once
    refine ⟨next, gathersAll, ?_⟩
    intro rest
    rw [List.append_assoc, goesOn, goesFurther]

theorem finish_of_settled (settled : part.settle = .ok line)
    (asks : line.words = [] → line.dir ≠ none) : part.finish = .ok line := by
  have complete : (line.words.isEmpty && line.dir.isNone) = false := by
    cases words : line.words with
    | nil => simpa [Option.isNone_eq_false_iff, Option.isSome_iff_ne_none] using asks words
    | cons first others => rfl
  rw [finish, settled]
  change (if (line.words.isEmpty && line.dir.isNone) = true then _ else _) = _
  rw [complete]
  rfl

theorem readWords_encode (settled : part.settle = .ok line) {late : List String}
    (asks : line.words ++ late = [] → line.dir ≠ none) :
    part.readWords (late.map Utf8.encode) = .ok { line with words := line.words ++ late } := by
  induction late generalizing part line with
  | nil =>
    rw [List.append_nil] at asks ⊢
    exact finish_of_settled settled asks
  | cons text late inductionHypothesis =>
    obtain ⟨next, added, gathers⟩ := exists_addWord settled text
    rw [List.map_cons, readWords, added]
    change next.readWords (late.map Utf8.encode) = _
    rw [inductionHypothesis gathers (by simp)]
    simp

theorem read_lateArguments (settled : part.settle = .ok line) {late : Option (List String)}
    (asks : line.words ++ late.getD [] = [] → line.dir ≠ none) :
    part.read (Spelling.lateArguments late) =
      .ok { line with words := line.words ++ late.getD [] } := by
  cases late with
  | none =>
    rw [Option.getD_none, List.append_nil] at asks ⊢
    exact finish_of_settled settled asks
  | some words => exact readWords_encode settled asks

end Settled

end PartialLine

namespace CommandLine

/-- A command line is read back from every way to write it, if it has words or a directory,
and if the directory's name is not empty. -/
theorem read_arguments_of_spelling {line : CommandLine} (filled : line.dir ≠ some [])
    (asks : line.words = [] → line.dir ≠ none) (spelling : Spelling line) :
    read spelling.arguments = .ok line := by
  have oneDir : ([] ++ spelling.pieces.flatMap Piece.dirs).length ≤ 1 := by
    rw [List.nil_append, spelling.dirs_eq]
    cases line.dir <;> simp
  have filledDirs : ∀ value ∈ spelling.pieces.flatMap Piece.dirs, value ≠ [] := by
    rw [spelling.dirs_eq]
    rintro value inside rfl
    exact filled (by simpa using inside)
  have begun : PartialLine.begin.settle = .ok (gathered [] [] []) := rfl
  obtain ⟨next, gathers, goesOn⟩ := PartialLine.exists_read_pieces begun spelling.writable oneDir
    filledDirs (by simpa using spelling.flags_nodup)
  have whole : line = { gathered ([] ++ spelling.pieces.flatMap Piece.words)
      ([] ++ spelling.pieces.flatMap Piece.dirs) ([] ++ spelling.pieces.flatMap Piece.flags) with
      words := spelling.pieces.flatMap Piece.words ++ spelling.late.getD [] } :=
    eq_gathered spelling.words_eq spelling.dirs_eq spelling.mem_flags_iff
  rw [read, Spelling.arguments, goesOn, PartialLine.read_lateArguments gathers]
  · exact congrArg _ whole.symm
  · intro wordless
    have noWords : line.words = [] := by
      rw [← spelling.words_eq]
      exact wordless
    have named := asks noWords
    rw [whole] at named
    exact named

/-- Words that look like options, and a directory whose name begins with an equals sign. -/
def crowded : CommandLine :=
  ⟨["-", "", "-e", "--"], some (Utf8.encode "=dir"), true, true, true, false⟩

def crowdedSpelling : Spelling crowded where
  pieces := [.word "-", .dir (.letter [.sequential, .explain]) .equals (Utf8.encode "=dir"),
    .word "", .long .json]
  late := some ["-e", "--"]
  writable := by decide
  words_eq := by decide
  dirs_eq := by decide
  flags_nodup := by decide
  mem_flags_iff := by rintro (_ | _ | _ | _) <;> decide

theorem read_arguments_of_spelling_crowded :
    crowded.dir ≠ some [] ∧ (crowded.words = [] → crowded.dir ≠ none) ∧
      crowdedSpelling.arguments =
        ["-", "-sed==dir", "", "--json", "--", "-e", "--"].map Utf8.encode ∧
      read crowdedSpelling.arguments = .ok crowded :=
  ⟨by decide, by decide, by decide,
    read_arguments_of_spelling (by decide) (by decide) crowdedSpelling⟩

end CommandLine

end HostPattern
