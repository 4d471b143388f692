import HostPattern.Json

/-!
Reading JSON texts with whole numbers only: any layout, all escapes, and nothing
after the value.
-/

namespace HostPattern.Json

def isSpace (c : Char) : Bool :=
  c == ' ' || c == '\n' || c == '\r' || c == '\t'

def skipSpace (text : List Char) : List Char :=
  text.dropWhile isSpace

def hexValue? (c : Char) : Option Nat :=
  if c.isDigit then some (c.toNat - '0'.toNat)
  else if 'a' ≤ c ∧ c ≤ 'f' then some (c.toNat - 'a'.toNat + 10)
  else if 'A' ≤ c ∧ c ≤ 'F' then some (c.toNat - 'A'.toNat + 10)
  else none

def hexUnit? (a b c d : Char) : Option Nat := do
  return (((← hexValue? a) * 16 + (← hexValue? b)) * 16 + (← hexValue? c)) * 16 + (← hexValue? d)

def unescape? : Char → Option Char
  | '"' => some '"'
  | '\\' => some '\\'
  | '/' => some '/'
  | 'b' => some '\x08'
  | 'f' => some '\x0c'
  | 'n' => some '\n'
  | 'r' => some '\r'
  | 't' => some '\t'
  | _ => none

def charOfCode? (code : Nat) : Option Char :=
  if code.isValidChar then some (Char.ofNat code) else none

/-- The characters up to the closing quote, and the text after it.  A character outside
of the basic plane may be written as two units. -/
def readQuoted : List Char → Option (List Char × List Char)
  | [] => none
  | '"' :: rest => some ([], rest)
  | '\\' :: 'u' :: a :: b :: c :: d :: rest =>
    match hexUnit? a b c d, rest with
    | none, _ => none
    | some high, '\\' :: 'u' :: a' :: b' :: c' :: d' :: rest' =>
      if 0xD800 ≤ high ∧ high < 0xDC00 then
        match hexUnit? a' b' c' d' with
        | none => none
        | some low =>
          if 0xDC00 ≤ low ∧ low < 0xE000 then
            (readQuoted rest').map fun (chars, text) =>
              (Char.ofNat (0x10000 + (high - 0xD800) * 0x400 + (low - 0xDC00)) :: chars, text)
          else none
      else do
        let char ← charOfCode? high
        (readQuoted ('\\' :: 'u' :: a' :: b' :: c' :: d' :: rest')).map fun (chars, text) =>
          (char :: chars, text)
    | some code, rest => do
      let char ← charOfCode? code
      (readQuoted rest).map fun (chars, text) => (char :: chars, text)
  | '\\' :: c :: rest => do
    let char ← unescape? c
    (readQuoted rest).map fun (chars, text) => (char :: chars, text)
  | c :: rest =>
    if c.toNat < 0x20 ∨ c = '\\' then none
    else (readQuoted rest).map fun (chars, text) => (c :: chars, text)

def readNat (text : List Char) : Option (Nat × List Char) :=
  match text.takeWhile Char.isDigit, text.dropWhile Char.isDigit with
  | [], _ => none
  | '0' :: _ :: _, _ => none
  | digits, rest => some (Nat.ofDigitChars 10 digits 0, rest)

def readWord (word text : List Char) : Option (List Char) :=
  word.isPrefixOf? text

mutual

def readValue : Nat → List Char → Option (Json × List Char)
  | 0, _ => none
  | fuel + 1, text =>
    match skipSpace text with
    | 'n' :: rest => (readWord ['u', 'l', 'l'] rest).map (Json.null, ·)
    | 't' :: rest => (readWord ['r', 'u', 'e'] rest).map (Json.bool true, ·)
    | 'f' :: rest => (readWord ['a', 'l', 's', 'e'] rest).map (Json.bool false, ·)
    | '"' :: rest => (readQuoted rest).map fun (chars, rest) => (.str (String.ofList chars), rest)
    | '-' :: rest => (readNat rest).map fun (n, rest) => (.int (-n), rest)
    | '[' :: rest =>
      match skipSpace rest with
      | ']' :: rest => some (.arr [], rest)
      | _ => (readItems fuel rest).map fun (items, rest) => (.arr items, rest)
    | '\x7b' :: rest =>
      match skipSpace rest with
      | '\x7d' :: rest => some (.obj [], rest)
      | _ => (readMembers fuel rest).map fun (members, rest) => (.obj members, rest)
    | other => (readNat other).map fun (n, rest) => (.int n, rest)

def readItems : Nat → List Char → Option (List Json × List Char)
  | 0, _ => none
  | fuel + 1, text => do
    let (item, rest) ← readValue fuel text
    match skipSpace rest with
    | ']' :: rest => some ([item], rest)
    | ',' :: rest => (readItems fuel rest).map fun (items, rest) => (item :: items, rest)
    | _ => none

def readMembers : Nat → List Char → Option (List (String × Json) × List Char)
  | 0, _ => none
  | fuel + 1, text =>
    match skipSpace text with
    | '"' :: rest => do
      let (key, rest) ← readQuoted rest
      match skipSpace rest with
      | ':' :: rest => do
        let (value, rest) ← readValue fuel rest
        let member := (String.ofList key, value)
        match skipSpace rest with
        | '\x7d' :: rest => some ([member], rest)
        | ',' :: rest =>
          (readMembers fuel rest).map fun (members, rest) => (member :: members, rest)
        | _ => none
      | _ => none
    | _ => none

end

/-- The value that the text writes.  No value is nested as deep as its text is long. -/
def read? (text : String) : Option Json :=
  match readValue (text.toList.length + 1) text.toList with
  | some (value, rest) => if (skipSpace rest).isEmpty then some value else none
  | none => none

end HostPattern.Json
