import HostPattern.Proofs.Json.Grammar

/-!
# JSON texts are read back

Reading takes from the front of a text the value that the grammar gives it and leaves what
stands after it.  After a number no digit may stand, and the grammar puts none there.  So every
text of the grammar is read, none has two values, and an indented text is read as the value that
was written.
-/

namespace HostPattern.Json

open Grammar

section Blanks

theorem skipSpace_of_head {c : Char} (visible : isSpace c = false) (text : List Char) :
    skipSpace (c :: text) = c :: text := by
  simp [skipSpace, visible]

theorem skipSpace_append {blanks : List Char} (isBlanks : Blanks blanks) (text : List Char) :
    skipSpace (blanks ++ text) = skipSpace text :=
  List.dropWhile_append_of_pos isBlanks

theorem readValue_append {blanks : List Char} (isBlanks : Blanks blanks) (fuel : Nat)
    (text : List Char) : readValue fuel (blanks ++ text) = readValue fuel text := by
  cases fuel with
  | zero => rfl
  | succ fuel => simp only [readValue, skipSpace_append isBlanks]

end Blanks

section Texts

def andThen (c : Char) (text : List Char) : Option (List Char × List Char) :=
  (readQuoted text).map fun (chars, rest) => (c :: chars, rest)

theorem readQuoted_plain {c : Char} (noQuote : c ≠ '"') (noEscape : c ≠ '\\')
    (printable : 0x20 ≤ c.toNat) (text : List Char) :
    readQuoted (c :: text) = andThen c text := by
  rw [readQuoted.eq_7 c text noQuote (fun _ _ _ _ _ escape => (noEscape escape).elim)
    (fun _ _ escape => (noEscape escape).elim), if_neg]
  · rfl
  · rintro (control | escape)
    · omega
    · exact noEscape escape

theorem readQuoted_letter {letter c : Char} (stands : unescape? letter = some c)
    (text : List Char) : readQuoted ('\\' :: letter :: text) = andThen c text := by
  rw [readQuoted.eq_6 letter text, stands]
  · rfl
  · rintro _ _ _ _ _ rfl
    cases stands

theorem readQuoted_unit {a b c d : Char} {code : Nat} (unit : hexUnit? a b c d = some code)
    (valid : code.isValidChar) (text : List Char) :
    readQuoted ('\\' :: 'u' :: a :: b :: c :: d :: text) = andThen (Char.ofNat code) text := by
  have char : charOfCode? code = some (Char.ofNat code) := if_pos valid
  by_cases pair : ∃ a b c d rest, text = '\\' :: 'u' :: a :: b :: c :: d :: rest
  · obtain ⟨_, _, _, _, _, rfl⟩ := pair
    have single : ¬(0xD800 ≤ code ∧ code < 0xDC00) := by
      rcases valid with low | high
      · omega
      · omega
    rw [readQuoted.eq_4 _ _ _ _ code _ _ _ _ _ unit, if_neg single, char]
    rfl
  · rw [readQuoted.eq_5 _ _ _ _ text code unit (fun a b c d rest same =>
      pair ⟨a, b, c, d, rest, same⟩), char]
    rfl

theorem readQuoted_letter_append {c : Char} {body : List Char} (letter : Letter c body)
    (text : List Char) : readQuoted (body ++ text) = andThen c text := by
  cases letter with
  | plain noQuote noEscape printable => exact readQuoted_plain noQuote noEscape printable text
  | escape stands => exact readQuoted_letter stands text
  | unit unit valid => exact readQuoted_unit unit valid text
  | units high highFrom highTo low lowFrom lowTo =>
    simp only [List.cons_append, List.nil_append]
    rw [readQuoted.eq_4 _ _ _ _ _ _ _ _ _ _ high, if_pos ⟨highFrom, highTo⟩, low]
    dsimp only
    rw [if_pos ⟨lowFrom, lowTo⟩]
    rfl

theorem readQuoted_letters_append {chars body : List Char} (letters : Letters chars body)
    (text : List Char) : readQuoted (body ++ '"' :: text) = some (chars, text) := by
  induction letters with
  | nil => simp [readQuoted]
  | cons letter _ inductionHypothesis =>
    rw [List.append_assoc, readQuoted_letter_append letter, andThen, inductionHypothesis]
    rfl

end Texts

section Numbers

def NoDigit (text : List Char) : Prop :=
  ∀ c ∈ text.head?, c.isDigit = false

theorem noDigit_cons {c : Char} (other : c.isDigit = false) (text : List Char) :
    NoDigit (c :: text) := by
  intro first head
  cases head
  exact other

theorem takeWhile_isDigit_append {digits rest : List Char}
    (all : ∀ c ∈ digits, c.isDigit = true) (stops : NoDigit rest) :
    (digits ++ rest).takeWhile Char.isDigit = digits ∧
      (digits ++ rest).dropWhile Char.isDigit = rest := by
  rw [List.takeWhile_append_of_pos all, List.dropWhile_append_of_pos all]
  cases rest with
  | nil => simp
  | cons c rest => simp [stops c rfl]

theorem readNat_digits_append {n : Nat} {digits rest : List Char} (isNumber : Digits n digits)
    (stops : NoDigit rest) : readNat (digits ++ rest) = some (n, rest) := by
  obtain ⟨taken, after⟩ := takeWhile_isDigit_append isNumber.all stops
  unfold readNat
  rw [taken, after]
  split
  · exact absurd rfl isNumber.filled
  · exact absurd rfl (isNumber.canonical (by simp))
  · exact congrArg (fun n => some (n, rest)) isNumber.value

end Numbers

section Values

theorem ne_of_isDigit {c d : Char} (digit : c.isDigit = true) (other : d.isDigit = false) :
    c ≠ d := by
  rintro rfl
  rw [digit] at other
  cases other

theorem isSpace_of_isDigit {c : Char} (digit : c.isDigit = true) : isSpace c = false := by
  simp [isSpace, ne_of_isDigit digit]

theorem readValue_digit {c : Char} (digit : c.isDigit = true) (fuel : Nat) (text : List Char) :
    readValue (fuel + 1) (c :: text) =
      (readNat (c :: text)).map fun (n, rest) => (.int n, rest) := by
  rw [readValue, skipSpace_of_head (isSpace_of_isDigit digit)]
  split
  all_goals first
    | rfl
    | rename_i same
      obtain ⟨rfl, -⟩ := List.cons.inj same
      cases digit

variable {value : Json} {text : List Char}

theorem exists_head_value (isValue : Value value text) :
    ∃ c rest, text = c :: rest ∧ isSpace c = false ∧ c ≠ ']' := by
  cases isValue with
  | nat digits =>
    obtain ⟨c, rest, rfl⟩ := List.exists_cons_of_ne_nil digits.filled
    have digit := digits.all c List.mem_cons_self
    exact ⟨c, rest, rfl, isSpace_of_isDigit digit, ne_of_isDigit digit rfl⟩
  | null | true | false | negative | str | emptyArr | arr | emptyObj | obj =>
    exact ⟨_, _, rfl, rfl, by decide⟩

theorem exists_skipSpace_element (element : Element value text) (rest : List Char) :
    ∃ c after, skipSpace (text ++ rest) = c :: after ∧ c ≠ ']' := by
  cases element with
  | blanks front isValue back =>
    obtain ⟨c, tail, rfl, visible, filled⟩ := exists_head_value isValue
    rw [List.append_assoc, skipSpace_append front]
    exact ⟨c, _, skipSpace_of_head visible _, filled⟩

theorem exists_skipSpace_items {items : List Json} (isItems : Items items text)
    (rest : List Char) : ∃ c after, skipSpace (text ++ rest) = c :: after ∧ c ≠ ']' := by
  cases isItems with
  | last element => exact exists_skipSpace_element element rest
  | next element _ =>
    rw [List.append_assoc]
    exact exists_skipSpace_element element _

theorem exists_skipSpace_member {member : String × Json} (isMember : Member member text)
    (rest : List Char) : ∃ after, skipSpace (text ++ rest) = '"' :: after := by
  cases isMember with
  | pair front =>
    rw [List.append_assoc, skipSpace_append front]
    exact ⟨_, skipSpace_of_head rfl _⟩

theorem exists_skipSpace_members {members : List (String × Json)}
    (isMembers : Members members text) (rest : List Char) :
    ∃ after, skipSpace (text ++ rest) = '"' :: after := by
  cases isMembers with
  | last member => exact exists_skipSpace_member member rest
  | next member _ =>
    rw [List.append_assoc]
    exact exists_skipSpace_member member _

theorem noDigit_blanks_append {blanks rest : List Char} (isBlanks : Blanks blanks)
    (stops : NoDigit rest) : NoDigit (blanks ++ rest) := by
  cases blanks with
  | nil => exact stops
  | cons c blanks =>
    intro first head
    cases head
    have blank := isBlanks c List.mem_cons_self
    by_contra digit
    rw [Bool.not_eq_false] at digit
    rw [isSpace_of_isDigit digit] at blank
    cases blank

end Values

section Documents

theorem readValue_bracket {body text : List Char} {c : Char}
    (opens : skipSpace body = c :: text) (filled : c ≠ ']') (fuel : Nat) :
    readValue (fuel + 1) ('[' :: body) =
      (readItems fuel body).map fun (items, rest) => (Json.arr items, rest) := by
  rw [readValue, skipSpace_of_head rfl]
  simp only
  rw [opens]
  split
  · rename_i same
    exact absurd (List.cons.inj same).1 filled
  · rfl

theorem readValue_brace {body text : List Char} (opens : skipSpace body = '"' :: text)
    (fuel : Nat) :
    readValue (fuel + 1) ('\x7b' :: body) =
      (readMembers fuel body).map fun (members, rest) => (Json.obj members, rest) := by
  rw [readValue, skipSpace_of_head rfl]
  simp only
  rw [opens]
  rfl

theorem readItems_item {fuel : Nat} {text after : List Char} {item : Json}
    (read : readValue fuel text = some (item, after)) :
    readItems (fuel + 1) text =
      match skipSpace after with
      | ']' :: rest => some ([item], rest)
      | ',' :: rest => (readItems fuel rest).map fun (items, rest) => (item :: items, rest)
      | _ => none := by
  rw [readItems, read]
  rfl

theorem readMembers_pair {front chars key between text after : List Char} {value : Json}
    {fuel : Nat} (isFront : Blanks front) (letters : Letters chars key)
    (isBetween : Blanks between) (read : readValue fuel text = some (value, after)) :
    readMembers (fuel + 1) (front ++ '"' :: (key ++ '"' :: (between ++ ':' :: text))) =
      match skipSpace after with
      | '\x7d' :: rest => some ([(String.ofList chars, value)], rest)
      | ',' :: rest =>
        (readMembers fuel rest).map fun (members, rest) =>
          ((String.ofList chars, value) :: members, rest)
      | _ => none := by
  rw [readMembers, skipSpace_append isFront, skipSpace_of_head rfl]
  change (readQuoted (key ++ '"' :: (between ++ ':' :: text))).bind _ = _
  rw [readQuoted_letters_append letters, Option.bind_some]
  dsimp only
  rw [skipSpace_append isBetween, skipSpace_of_head rfl]
  change (readValue fuel text).bind _ = _
  rw [read]
  rfl

mutual

/-- A value is read where the fuel is at least the length of its text. -/
theorem readValue_value_append {value : Json} {text : List Char} : Value value text →
    (fuel : Nat) → (rest : List Char) → text.length ≤ fuel → NoDigit rest →
    readValue fuel (text ++ rest) = some (value, rest)
  | isValue, 0, _, enough, _ => by
    obtain ⟨c, tail, rfl, _⟩ := exists_head_value isValue
    simp at enough
  | .null, _ + 1, _, _, _ => rfl
  | .true, _ + 1, _, _, _ => rfl
  | .false, _ + 1, _, _, _ => rfl
  | .nat digits, fuel + 1, rest, _, stops => by
    have read := readNat_digits_append digits stops
    obtain ⟨c, others, rfl⟩ := List.exists_cons_of_ne_nil digits.filled
    rw [List.cons_append] at read ⊢
    rw [readValue_digit (digits.all c List.mem_cons_self), read]
    rfl
  | .negative digits, fuel + 1, rest, _, stops => by
    have read := readNat_digits_append digits stops
    exact congrArg (Option.map fun (n, rest) => (Json.int (-n), rest)) read
  | .str letters, fuel + 1, rest, _, _ => by
    have read := readQuoted_letters_append letters rest
    rw [List.cons_append, List.append_assoc]
    exact congrArg (Option.map fun (chars, rest) => (Json.str (String.ofList chars), rest)) read
  | .emptyArr blanks, fuel + 1, rest, _, _ => by
    rw [List.cons_append, List.append_assoc, readValue, skipSpace_of_head rfl]
    simp only
    rw [skipSpace_append blanks]
    rfl
  | .arr items, fuel + 1, rest, enough, _ => by
    rw [List.cons_append, List.append_assoc]
    obtain ⟨c, after, opens, filled⟩ := exists_skipSpace_items items ([']'] ++ rest)
    have read := readItems_items_append items fuel rest (by simp at enough; omega)
    rw [readValue_bracket opens filled, List.singleton_append, read]
    rfl
  | .emptyObj blanks, fuel + 1, rest, _, _ => by
    rw [List.cons_append, List.append_assoc, readValue, skipSpace_of_head rfl]
    simp only
    rw [skipSpace_append blanks]
    rfl
  | .obj members, fuel + 1, rest, enough, _ => by
    rw [List.cons_append, List.append_assoc]
    obtain ⟨after, opens⟩ := exists_skipSpace_members members (['\x7d'] ++ rest)
    have read := readMembers_members_append members fuel rest (by simp at enough; omega)
    rw [readValue_brace opens, List.singleton_append, read]
    rfl

theorem readValue_element_append {value : Json} {text : List Char} : Element value text →
    (fuel : Nat) → (rest : List Char) → text.length ≤ fuel → NoDigit rest →
    ∃ after, readValue fuel (text ++ rest) = some (value, after) ∧
      skipSpace after = skipSpace rest
  | .blanks isFront isValue isBack, fuel, rest, enough, stops => by
    have read := readValue_value_append isValue fuel _ (by simp at enough; omega)
      (noDigit_blanks_append isBack stops)
    refine ⟨_, ?_, skipSpace_append isBack rest⟩
    rw [List.append_assoc, List.append_assoc, readValue_append isFront, read]

theorem readItems_items_append {items : List Json} {text : List Char} : Items items text →
    (fuel : Nat) → (rest : List Char) → text.length < fuel →
    readItems fuel (text ++ ']' :: rest) = some (items, rest)
  | .last element, fuel + 1, rest, enough => by
    obtain ⟨after, read, same⟩ := readValue_element_append element fuel (']' :: rest)
      (by omega) (noDigit_cons rfl _)
    rw [readItems_item read, same, skipSpace_of_head rfl]
    rfl
  | .next element items, fuel + 1, rest, enough => by
    rw [List.append_assoc, List.cons_append]
    obtain ⟨after, read, same⟩ := readValue_element_append element fuel
      (',' :: (_ ++ ']' :: rest)) (by simp at enough; omega) (noDigit_cons rfl _)
    have readOn := readItems_items_append items fuel rest (by simp at enough; omega)
    rw [readItems_item read, same, skipSpace_of_head rfl]
    exact congrArg (Option.map _) readOn

theorem readMembers_member_append {member : String × Json} {text : List Char} :
    Member member text → (fuel : Nat) → (rest : List Char) → text.length ≤ fuel →
    NoDigit rest →
    readMembers (fuel + 1) (text ++ rest) =
      match skipSpace rest with
      | '\x7d' :: rest => some ([member], rest)
      | ',' :: rest => (readMembers fuel rest).map fun (members, rest) => (member :: members, rest)
      | _ => none
  | .pair isFront letters isBetween element, fuel, rest, enough, stops => by
    obtain ⟨after, read, same⟩ := readValue_element_append element fuel rest
      (by simp at enough; omega) stops
    simp only [List.append_assoc, List.cons_append]
    rw [readMembers_pair isFront letters isBetween read, same]

theorem readMembers_members_append {members : List (String × Json)} {text : List Char} :
    Members members text → (fuel : Nat) → (rest : List Char) → text.length < fuel →
    readMembers fuel (text ++ '\x7d' :: rest) = some (members, rest)
  | .last member, fuel + 1, rest, enough => by
    rw [readMembers_member_append member fuel _ (by omega) (noDigit_cons rfl _),
      skipSpace_of_head rfl]
    rfl
  | .next member members, fuel + 1, rest, enough => by
    have readOn := readMembers_members_append members fuel rest (by simp at enough; omega)
    rw [List.append_assoc, List.cons_append, readMembers_member_append member fuel _
      (by simp at enough; omega) (noDigit_cons rfl _), skipSpace_of_head rfl]
    exact congrArg (Option.map _) readOn

end

theorem read?_of_element {value : Json} {text : String} (element : Element value text.toList) :
    read? text = some value := by
  obtain ⟨after, read, same⟩ := readValue_element_append element (text.toList.length + 1) []
    (by omega) (by simp [NoDigit])
  rw [List.append_nil] at read
  rw [read?, read]
  dsimp only
  rw [same]
  rfl

theorem element_unique {value other : Json} {text : List Char} (element : Element value text)
    (otherwise : Element other text) : value = other := by
  rw [← String.toList_ofList (l := text)] at element otherwise
  exact Option.some.inj ((read?_of_element element).symm.trans (read?_of_element otherwise))

/-- The indented text is a text of the value whose members are in the order that they are
written in. -/
theorem value_pretty (value : Json) : Value value.sorted value.pretty.toList := by
  rw [pretty, String.toList_ofList]
  exact value_write value.sorted 0

theorem element_document (value : Json) : Element value.sorted (value.pretty ++ "\n").toList := by
  rw [String.toList_append]
  exact .blanks blanks_nil (value_pretty value) (blanks_newLine 0)

theorem read?_document (value : Json) : read? (value.pretty ++ "\n") = some value.sorted :=
  read?_of_element (element_document value)

end Documents

end HostPattern.Json
