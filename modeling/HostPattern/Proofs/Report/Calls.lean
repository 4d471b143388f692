import HostPattern.Proofs.Json.Characters
import HostPattern.Proofs.Pattern.Description
import HostPattern.Proofs.Styled.Blocks
import HostPattern.Report

/-!
# Calls that write output

Each call writes one block.  The texts of a call are those that it is given, JSON values
aside, which are written without escape characters in any case.
-/

namespace HostPattern

open Text Styled

namespace SerialRange

/-- The texts that the range is made of. -/
def texts (range : SerialRange) : List String :=
  [range.before, range.after]

end SerialRange

namespace Pattern

def texts : Pattern → List String
  | .unavailable => []
  | .serial range => range.texts
  | .wild wildcard => wildcard.pieces

end Pattern

namespace PatternError

def texts : PatternError → List String
  | .unrecognized raw => [raw]
  | .leftTooShort left _ => [left]
  | .endTooLarge digits => [digits]
  | .tooManyGaps => []

end PatternError

namespace Report

inductive Call
  | verdict (name : Option String) (matched : Bool)
  | explain (raw : String) (pattern : Pattern) (error : Option PatternError)
  | folder (name : Option String) (found : Folder)
  | json (value : Json)

namespace Call

def block? : Call → Option Block
  | .verdict name matched => some (Report.verdict name matched)
  | .explain raw pattern error => explanation? raw pattern error
  | .folder name found => some (Report.folder name found)
  | .json value => some (document value)

/-- What the call writes; none if it breaks off. -/
def write? (colour : Bool) (call : Call) : Option String :=
  call.block?.map (Block.render colour)

/-- The names and the texts of patterns and errors that the call is given. -/
def texts : Call → List String
  | .verdict name _ => name.toList
  | .explain raw pattern error => raw :: (pattern.texts ++ error.elim [] PatternError.texts)
  | .folder name found => found.name :: name.toList
  | .json _ => []

def Clean (call : Call) : Prop :=
  ∀ text ∈ call.texts, '\x1b' ∉ text.toList

/-- No range is too wide to be written. -/
def IsNarrow : Call → Prop
  | .explain _ pattern _ => pattern.IsNarrow
  | _ => True

end Call

section Texts

theorem escape_not_mem_of_isDigit {digits : List Char} (all : ∀ c ∈ digits, c.isDigit = true) :
    '\x1b' ∉ digits := fun inside =>
  absurd (all _ inside) (by decide)

theorem escape_not_mem_repr (n : Nat) : '\x1b' ∉ n.repr.toList := by
  rw [Nat.toList_repr]
  exact escape_not_mem_of_isDigit fun c =>
    Nat.isDigit_of_mem_toDigits (by decide) (by decide)

section Ranges

variable {range : SerialRange} (clean : ∀ text ∈ range.texts, '\x1b' ∉ text.toList)
include clean

theorem escape_not_mem_nameAt (n : Nat) : '\x1b' ∉ (range.nameAt n).toList := by
  have number : '\x1b' ∉ Decimal.padded range.width n :=
    escape_not_mem_of_isDigit fun c => Decimal.isDigit_of_mem_padded
  have before := clean range.before (by simp [SerialRange.texts])
  have after := clean range.after (by simp [SerialRange.texts])
  simp [number, before, after]

theorem escape_not_mem_description : '\x1b' ∉ range.description.toList := by
  have name := escape_not_mem_nameAt clean
  have count : '\x1b' ∉ range.countText.toList := by
    have size := escape_not_mem_repr range.size
    unfold SerialRange.countText
    split
    · decide
    · simp only [String.toList_append, List.mem_append, size]
      decide
  simp only [SerialRange.description, String.toList_append, List.mem_append, name, count]
  decide

end Ranges

theorem escape_not_mem_pieceSource {piece : List Char} (clean : '\x1b' ∉ piece) :
    '\x1b' ∉ Wildcard.pieceSource piece := by
  have letters : '\x1b' ∉ piece.flatMap Wildcard.escaped := by
    rw [List.mem_flatMap]
    rintro ⟨c, member, inside⟩
    unfold Wildcard.escaped at inside
    split at inside
    · exact absurd inside (by decide)
    · rw [List.mem_singleton] at inside
      exact clean (inside ▸ member)
  unfold Wildcard.pieceSource
  split
  · simp
  · simp only [List.mem_append, letters]
    decide

theorem escape_not_mem_piecesSource {pieces : List (List Char)} (several : pieces ≠ [])
    (clean : ∀ piece ∈ pieces, '\x1b' ∉ piece) : '\x1b' ∉ Wildcard.piecesSource pieces := by
  induction pieces with
  | nil => exact absurd rfl several
  | cons piece pieces inductionHypothesis =>
    obtain ⟨first, others⟩ := List.forall_mem_cons.mp clean
    have source := escape_not_mem_pieceSource first
    by_cases last : pieces = []
    · rw [last, Wildcard.piecesSource_singleton, List.mem_append]
      simp [source]
    · have rest := inductionHypothesis last others
      rw [Wildcard.piecesSource_cons last]
      simp only [List.mem_append, source, rest]
      decide

/-- A description shows the texts of its pattern and nothing that a terminal acts on. -/
theorem escape_not_mem_describe? {pattern : Pattern} {description : String}
    (clean : ∀ text ∈ pattern.texts, '\x1b' ∉ text.toList)
    (described : pattern.describe? = some description) : '\x1b' ∉ description.toList := by
  cases pattern with
  | unavailable =>
    cases described
    decide
  | serial range =>
    rw [(SerialRange.describe?_eq_some_iff.mp described).2]
    exact escape_not_mem_description clean
  | wild wildcard =>
    cases described
    have source : '\x1b' ∉ Wildcard.piecesSource (wildcard.pieces.map String.toList) :=
      escape_not_mem_piecesSource (by simp [Wildcard.pieces])
        (by simpa [Pattern.texts] using clean)
    simp only [String.toList_append, List.mem_append, Wildcard.toList_regex, List.mem_cons, source]
    decide

theorem escape_not_mem_message {error : PatternError}
    (clean : ∀ text ∈ error.texts, '\x1b' ∉ text.toList) :
    '\x1b' ∉ error.message.toList := by
  cases error with
  | unrecognized raw =>
    have text := clean raw List.mem_cons_self
    simp only [PatternError.message, String.toList_append, List.mem_append, text]
    decide
  | leftTooShort left needed =>
    have text := clean left List.mem_cons_self
    have number := escape_not_mem_repr needed
    simp only [PatternError.message, String.toList_append, List.mem_append, text, number]
    decide
  | endTooLarge digits =>
    have text := clean digits List.mem_cons_self
    simp only [PatternError.message, String.toList_append, List.mem_append, text]
    decide
  | tooManyGaps => simp [PatternError.message]

end Texts

namespace Call

variable {call : Call} {block : Block}

theorem clean_explanation? {raw : String} {pattern : Pattern} {error : Option PatternError}
    (clean : (explain raw pattern error).Clean)
    (made : explanation? raw pattern error = some block) : block.Clean := by
  obtain ⟨rawClean, others⟩ := List.forall_mem_cons.mp clean
  obtain ⟨patternClean, errorClean⟩ := List.forall_mem_append.mp others
  obtain ⟨description, described, made⟩ := Option.bind_eq_some_iff.mp made
  cases made
  have shown := escape_not_mem_describe? patternClean described
  cases error with
  | none => simp [Block.Clean, Segment.content, rawClean, shown]
  | some error =>
    have message := escape_not_mem_message errorClean
    simp [Block.Clean, Segment.content, rawClean, shown, message]

theorem clean_of_block? (clean : call.Clean) (made : call.block? = some block) :
    block.Clean := by
  cases call with
  | verdict name matched =>
    cases made
    cases name with
    | none => cases matched <;> simp [Report.verdict, Block.Clean, Segment.content]
    | some name =>
      have named := clean name (by simp [texts])
      cases matched <;> simp [Report.verdict, Block.Clean, Segment.content, named]
  | explain raw pattern error => exact clean_explanation? clean made
  | folder name found =>
    cases made
    have shown := clean found.name List.mem_cons_self
    cases name with
    | none => simp [Report.folder, Block.Clean, Segment.content, shown]
    | some name =>
      have named := clean name (by simp [texts])
      simp [Report.folder, Block.Clean, Segment.content, shown, named]
  | json value =>
    cases made
    simp [document, Block.Clean, Segment.content, Json.escape_not_mem_pretty]

/-- Each style of a block is followed by a reset. -/
theorem settled_of_block? (made : call.block? = some block) : block.leftSet [] = [] := by
  cases call with
  | verdict name matched =>
    cases made
    cases name <;> rfl
  | explain raw pattern error =>
    obtain ⟨description, _, made⟩ := Option.bind_eq_some_iff.mp made
    cases made
    cases error <;> rfl
  | folder name found =>
    cases made
    cases name <;> rfl
  | json value =>
    cases made
    rfl

theorem exists_block (narrow : call.IsNarrow) : ∃ block, call.block? = some block := by
  cases call with
  | explain raw pattern error =>
    obtain ⟨description, described⟩ := Pattern.exists_description narrow
    exact ⟨_, by rw [block?, explanation?, described]; rfl⟩
  | verdict | folder | json => exact ⟨_, rfl⟩

/-- The blocks of a sequence of calls do not depend on the colour. -/
theorem exists_blocks {calls : List Call} (clean : ∀ call ∈ calls, call.Clean)
    (narrow : ∀ call ∈ calls, call.IsNarrow) :
    ∃ blocks : List Block,
      (∀ colour, calls.mapM (write? colour) = some (blocks.map (Block.render colour))) ∧
      (∀ block ∈ blocks, block.Clean) ∧ ∀ block ∈ blocks, block.leftSet [] = [] := by
  induction calls with
  | nil => exact ⟨[], fun _ => rfl, by simp, by simp⟩
  | cons call calls inductionHypothesis =>
    obtain ⟨first, others⟩ := List.forall_mem_cons.mp clean
    obtain ⟨firstNarrow, othersNarrow⟩ := List.forall_mem_cons.mp narrow
    obtain ⟨block, made⟩ := exists_block firstNarrow
    obtain ⟨blocks, written, blocksClean, settled⟩ := inductionHypothesis others othersNarrow
    refine ⟨block :: blocks, fun colour => ?_,
      List.forall_mem_cons.mpr ⟨clean_of_block? first made, blocksClean⟩,
      List.forall_mem_cons.mpr ⟨settled_of_block? made, settled⟩⟩
    rw [List.mapM_cons, written, write?, made]
    rfl

theorem clean_explain_ofName {raw : String} (clean : '\x1b' ∉ raw.toList) :
    (explain raw (Folder.ofName raw).pattern (Folder.ofName raw).error?).Clean := by
  have reading := Pattern.reading_parse raw
  unfold Folder.ofName Folder.pattern Folder.error?
  generalize Pattern.parse raw = result at reading ⊢
  have part {text : String} (inside : text.toList ⊆ raw.toList) : '\x1b' ∉ text.toList :=
    fun member => clean (inside member)
  suffices others : ∀ text ∈ (explain raw _ _).texts.tail, text.toList ⊆ raw.toList from
    List.forall_mem_cons.mpr ⟨clean, fun text member => part (others text member)⟩
  cases reading with
  | leftTooShort _ written _ =>
    simp [texts, Pattern.texts, PatternError.texts, written, SerialRange.Parts.write]
  | endTooLarge _ written _ _ =>
    simp only [texts, Pattern.texts, PatternError.texts, Option.elim_some, List.nil_append,
      List.tail_cons, List.forall_mem_singleton, written, String.toList_ofList]
    exact fun c digit => List.mem_append_right _ (List.mem_cons_of_mem _
      (List.mem_append_left _ digit))
  | serial _ written described =>
    obtain ⟨number, rest, left, _, _, after, _⟩ := described
    simp only [texts, Pattern.texts, SerialRange.texts, Option.elim_none, List.append_nil,
      List.tail_cons, List.forall_mem_cons, written, after]
    refine ⟨fun c front => ?_, fun c letter => ?_, by simp⟩
    · rw [SerialRange.Parts.write, left]
      exact List.mem_append_left _ (List.mem_append_left _ front)
    · exact List.mem_append_right _ (List.mem_cons_of_mem _ (List.mem_append_right _ letter))
  | tooManyGaps => simp [texts, Pattern.texts, PatternError.texts]
  | wild _ _ split =>
    simp only [texts, Option.elim_none, List.append_nil, List.tail_cons, Pattern.texts]
    intro text member c inside
    have piece := List.mem_map_of_mem (f := String.toList) member
    rw [split] at piece
    exact Wildcard.mem_of_mem_splitOn piece inside
  | unrecognized => simp [texts, Pattern.texts, PatternError.texts]

end Call

/-- Whether colours are shown changes nothing but the attribute sequences of each call.  An
attribute is set only right after all are unset, and after any number of calls none is set. -/
theorem calls_same_in_colour (wanted : Bool) (term noColor : Option Bytes) {calls : List Call}
    (clean : ∀ call ∈ calls, call.Clean) (narrow : ∀ call ∈ calls, call.IsNarrow) :
    ∃ shown hidden : List String,
      calls.mapM (Call.write? (showsColour wanted term noColor)) = some shown ∧
      calls.mapM (Call.write? (showsColour false term noColor)) = some hidden ∧
      shown.map (fun text => plain text.toList) = hidden.map String.toList ∧
      (∀ text ∈ shown, Tidy text.toList) ∧
      ∀ count, leftSet [] (String.join (shown.take count)).toList = [] := by
  obtain ⟨blocks, written, blocksClean, settled⟩ := Call.exists_blocks clean narrow
  refine ⟨_, _, written _, written _, ?_, ?_, ?_⟩
  · rw [List.map_map, List.map_map]
    exact List.map_congr_left fun block member => Block.plain_render (blocksClean block member) _
  · rw [List.forall_mem_map]
    exact fun block member => Block.tidy_render (blocksClean block member) (settled block member) _
  · intro count
    rw [← List.map_take]
    exact Block.leftSet_join_render
      (fun block member => blocksClean block (List.mem_of_mem_take member))
      (fun block member => settled block (List.mem_of_mem_take member)) _

/-- A verdict, an explanation of what a text reads as, and a value with an escape character. -/
theorem calls_same_in_colour_rack :
    let rack := Folder.ofName "Rack001~20"
    let calls := [Call.verdict (some "rack7") true,
      .explain rack.name rack.pattern rack.error?, .json (.str "\x1b[31m")]
    (∀ call ∈ calls, call.Clean) ∧ (∀ call ∈ calls, call.IsNarrow) ∧
    ∃ shown hidden : List String,
      calls.mapM (Call.write? (showsColour true (some (Utf8.encode "xterm")) none)) = some shown ∧
      calls.mapM (Call.write? false) = some hidden ∧
      shown.map (fun text => plain text.toList) = hidden.map String.toList ∧
      (∀ text ∈ shown, Tidy text.toList) ∧
      shown.head? = some "rack7: \x1b[0m\x1b[32mtrue\x1b[0m\n" := by
  intro rack calls
  have clean : ∀ call ∈ calls, call.Clean := by
    simp only [calls, List.forall_mem_cons]
    exact ⟨by simp [Call.Clean, Call.texts], Call.clean_explain_ofName (by decide),
      by simp [Call.Clean, Call.texts], by simp⟩
  have narrow : ∀ call ∈ calls, call.IsNarrow := by
    have found : rack.pattern = .serial ⟨"Rack0", "", 2, 1, 20⟩ := by decide
    simp only [calls, List.forall_mem_cons, Call.IsNarrow, found, Pattern.IsNarrow]
    exact ⟨trivial, by decide, trivial, by simp⟩
  obtain ⟨shown, hidden, written, without, same, tidy, _⟩ :=
    calls_same_in_colour true (some (Utf8.encode "xterm")) none clean narrow
  refine ⟨clean, narrow, shown, hidden, written, without, same, tidy, ?_⟩
  rw [List.mapM_cons] at written
  obtain ⟨first, verdict, others⟩ := Option.bind_eq_some_iff.mp written
  obtain ⟨rest, _, shownEq⟩ := Option.bind_eq_some_iff.mp others
  cases shownEq
  rw [List.head?_cons, ← verdict]
  decide

end Report

end HostPattern
