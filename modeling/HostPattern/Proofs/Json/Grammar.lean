import HostPattern.Json.Reader
import HostPattern.Proofs.Decimal.Padding

/-!
# The grammar of JSON texts

The grammar says which texts stand for a value, in any layout and with any escapes, and does
not mention how they are read.  The indented text of a value is one of them.
-/

namespace HostPattern.Json

namespace Grammar

def Blanks (text : List Char) : Prop :=
  ∀ c ∈ text, isSpace c = true

/-- What may stand for a character between quotes. -/
inductive Letter : Char → List Char → Prop
  | plain {c : Char} : c ≠ '"' → c ≠ '\\' → 0x20 ≤ c.toNat → Letter c [c]
  | escape {letter c : Char} : unescape? letter = some c → Letter c ['\\', letter]
  | unit {a b c d : Char} {code : Nat} : hexUnit? a b c d = some code → code.isValidChar →
      Letter (Char.ofNat code) ['\\', 'u', a, b, c, d]
  | units {a b c d a' b' c' d' : Char} {high low : Nat} :
      hexUnit? a b c d = some high → 0xD800 ≤ high → high < 0xDC00 →
      hexUnit? a' b' c' d' = some low → 0xDC00 ≤ low → low < 0xE000 →
      Letter (Char.ofNat (0x10000 + (high - 0xD800) * 0x400 + (low - 0xDC00)))
        ['\\', 'u', a, b, c, d, '\\', 'u', a', b', c', d']

inductive Letters : List Char → List Char → Prop
  | nil : Letters [] []
  | cons {c : Char} {chars front back : List Char} :
      Letter c front → Letters chars back → Letters (c :: chars) (front ++ back)

/-- The decimal digits of a number, with no zero in front of others. -/
structure Digits (n : Nat) (digits : List Char) : Prop where
  filled : digits ≠ []
  all : ∀ c ∈ digits, c.isDigit = true
  canonical : 1 < digits.length → digits.head? ≠ some '0'
  value : Decimal.value digits = n

mutual

inductive Value : Json → List Char → Prop
  | null : Value .null ['n', 'u', 'l', 'l']
  | true : Value (.bool true) ['t', 'r', 'u', 'e']
  | false : Value (.bool false) ['f', 'a', 'l', 's', 'e']
  | nat {n : Nat} {digits : List Char} : Digits n digits → Value (.int n) digits
  | negative {n : Nat} {digits : List Char} : Digits n digits → Value (.int (-n)) ('-' :: digits)
  | str {chars body : List Char} :
      Letters chars body → Value (.str (String.ofList chars)) ('"' :: (body ++ ['"']))
  | emptyArr {blanks : List Char} : Blanks blanks → Value (.arr []) ('[' :: (blanks ++ [']']))
  | arr {items : List Json} {body : List Char} :
      Items items body → Value (.arr items) ('[' :: (body ++ [']']))
  | emptyObj {blanks : List Char} :
      Blanks blanks → Value (.obj []) ('\x7b' :: (blanks ++ ['\x7d']))
  | obj {members : List (String × Json)} {body : List Char} :
      Members members body → Value (.obj members) ('\x7b' :: (body ++ ['\x7d']))

inductive Element : Json → List Char → Prop
  | blanks {value : Json} {front body back : List Char} :
      Blanks front → Value value body → Blanks back → Element value (front ++ (body ++ back))

/-- Values with a comma between each two, at least one. -/
inductive Items : List Json → List Char → Prop
  | last {item : Json} {text : List Char} : Element item text → Items [item] text
  | next {item : Json} {items : List Json} {text rest : List Char} :
      Element item text → Items items rest → Items (item :: items) (text ++ ',' :: rest)

inductive Member : String × Json → List Char → Prop
  | pair {chars front key between text : List Char} {value : Json} :
      Blanks front → Letters chars key → Blanks between → Element value text →
      Member (String.ofList chars, value) (front ++ '"' :: (key ++ '"' :: (between ++ ':' :: text)))

inductive Members : List (String × Json) → List Char → Prop
  | last {member : String × Json} {text : List Char} : Member member text → Members [member] text
  | next {member : String × Json} {members : List (String × Json)} {text rest : List Char} :
      Member member text → Members members rest →
      Members (member :: members) (text ++ ',' :: rest)

end

end Grammar

section Written

open Grammar

theorem blanks_nil : Blanks [] :=
  List.forall_mem_nil _

theorem blanks_newLine (level : Nat) : Blanks (newLine level) := by
  intro c inside
  rcases List.mem_cons.mp inside with rfl | blank
  · rfl
  · cases List.eq_of_mem_replicate blank
    rfl

theorem hexUnit?_control {code : Nat} (control : code < 0x20) :
    hexUnit? '0' '0' (code / 16).digitChar (code % 16).digitChar = some code := by
  revert code
  decide

theorem letter_escapeChar (c : Char) : Letter c (escapeChar c) := by
  unfold escapeChar
  split_ifs with quote slash back feed line carriage tab control
  · exact .escape (by rw [quote]; rfl)
  · exact .escape (by rw [slash]; rfl)
  · exact .escape (by rw [back]; rfl)
  · exact .escape (by rw [feed]; rfl)
  · exact .escape (by rw [line]; rfl)
  · exact .escape (by rw [carriage]; rfl)
  · exact .escape (by rw [tab]; rfl)
  · have unit := Letter.unit (hexUnit?_control control) (.inl (by omega))
    rwa [Char.ofNat_toNat] at unit
  · exact .plain quote slash (by omega)

theorem letters_flatMap_escapeChar (chars : List Char) :
    Letters chars (chars.flatMap escapeChar) := by
  induction chars with
  | nil => exact .nil
  | cons c chars inductionHypothesis => exact .cons (letter_escapeChar c) inductionHypothesis

theorem digits_toDigits (n : Nat) : Digits n (Nat.toDigits 10 n) where
  filled := Nat.toDigits_ne_nil
  all _ := Nat.isDigit_of_mem_toDigits (by decide) (by decide)
  canonical := Decimal.head?_toDigits_ne_zero
  value := Nat.ofDigitChars_toDigits (by decide) (by decide)

theorem value_writeInt (n : Int) : Value (.int n) (writeInt n) := by
  have digits := digits_toDigits n.natAbs
  unfold writeInt
  split_ifs with negative
  · have value := Value.negative digits
    rwa [show -(n.natAbs : Int) = n by omega] at value
  · have value := Value.nat digits
    rwa [show (n.natAbs : Int) = n by omega] at value

theorem value_quote (text : String) : Value (.str text) (quote text) := by
  have value := Value.str (letters_flatMap_escapeChar text.toList)
  rwa [String.ofList_toList] at value

theorem element_newLine {value : Json} {text back : List Char} (level : Nat)
    (isValue : Value value text) (blanks : Blanks back) :
    Element value (newLine level ++ (text ++ back)) :=
  .blanks (blanks_newLine level) isValue blanks

theorem member_newLine {value : Json} {text back : List Char} (level : Nat) (key : String)
    (isValue : Value value text) (blanks : Blanks back) :
    Member (key, value) (newLine level ++ (quote key ++ ([':', ' '] ++ (text ++ back)))) := by
  have blank : Blanks [' '] := by simp [Blanks, isSpace]
  have element : Element value ([' '] ++ (text ++ back)) := .blanks blank isValue blanks
  have member := Member.pair (blanks_newLine level) (letters_flatMap_escapeChar key.toList)
    blanks_nil element
  rw [String.ofList_toList] at member
  simpa [quote] using member

mutual

theorem value_write : (value : Json) → (level : Nat) → Value value (write level value)
  | .null, _ => .null
  | .bool true, _ => .true
  | .bool false, _ => .false
  | .int n, _ => value_writeInt n
  | .str text, _ => value_quote text
  | .arr [], _ => .emptyArr blanks_nil
  | .arr (item :: items), level => by
    have isItems := items_writeItems (item :: items) (level + 1) level (by simp)
    simpa [write, writeItems] using Value.arr isItems
  | .obj [], _ => .emptyObj blanks_nil
  | .obj ((key, value) :: members), level => by
    have isMembers := members_writeMembers ((key, value) :: members) (level + 1) level (by simp)
    simpa [write, writeMembers] using Value.obj isMembers

/-- The first comma is left out, and the blanks before the closing bracket are in. -/
theorem items_writeItems : (items : List Json) → (level below : Nat) → items ≠ [] →
    Items items ((writeItems level items).tail ++ newLine below)
  | [item], level, below, _ => by
    have element := element_newLine level (value_write item level) (blanks_newLine below)
    simpa [writeItems] using Items.last element
  | item :: next :: items, level, below, _ => by
    have element := element_newLine level (value_write item level) blanks_nil
    have rest := items_writeItems (next :: items) level below (by simp)
    simpa [writeItems] using Items.next element rest

/-- The first comma is left out, and the blanks before the closing brace are in. -/
theorem members_writeMembers : (members : List (String × Json)) → (level below : Nat) →
    members ≠ [] → Members members ((writeMembers level members).tail ++ newLine below)
  | [(key, value)], level, below, _ => by
    have member := member_newLine level key (value_write value level) (blanks_newLine below)
    simpa [writeMembers] using Members.last member
  | (key, value) :: next :: members, level, below, _ => by
    have member := member_newLine level key (value_write value level) blanks_nil
    have rest := members_writeMembers (next :: members) level below (by simp)
    obtain ⟨nextKey, nextValue⟩ := next
    simpa [writeMembers] using Members.next member rest

end

end Written

end HostPattern.Json
