import HostPattern.Text.Utf8

/-!
JSON values and their indented text.  Members are written in the byte order of
their keys, two blanks for each level, and only what must be escaped is.
-/

namespace HostPattern

open Text

/-- A JSON value with whole numbers only. -/
inductive Json
  | null
  | bool (value : Bool)
  | int (value : Int)
  | str (value : String)
  | arr (items : List Json)
  | obj (members : List (String × Json))
  deriving Inhabited

namespace Json

mutual

/-- The value with the members of each object in the order of their keys. -/
def sorted : Json → Json
  | .arr items => .arr (sortedItems items)
  | .obj members =>
    .obj ((sortedMembers members).mergeSort fun left right => Utf8.le left.1 right.1)
  | .null => .null
  | .bool value => .bool value
  | .int value => .int value
  | .str value => .str value

def sortedItems : List Json → List Json
  | [] => []
  | item :: items => item.sorted :: sortedItems items

def sortedMembers : List (String × Json) → List (String × Json)
  | [] => []
  | (key, value) :: members => (key, value.sorted) :: sortedMembers members

end

def escapeChar (c : Char) : List Char :=
  if c = '"' then ['\\', '"']
  else if c = '\\' then ['\\', '\\']
  else if c = '\x08' then ['\\', 'b']
  else if c = '\x0c' then ['\\', 'f']
  else if c = '\n' then ['\\', 'n']
  else if c = '\r' then ['\\', 'r']
  else if c = '\t' then ['\\', 't']
  else if c.toNat < 0x20 then
    ['\\', 'u', '0', '0', (c.toNat / 16).digitChar, (c.toNat % 16).digitChar]
  else [c]

def quote (text : String) : List Char :=
  '"' :: text.toList.flatMap escapeChar ++ ['"']

def newLine (level : Nat) : List Char :=
  '\n' :: List.replicate (2 * level) ' '

def writeInt (n : Int) : List Char :=
  if n < 0 then '-' :: Nat.toDigits 10 n.natAbs else Nat.toDigits 10 n.natAbs

mutual

def write (level : Nat) : Json → List Char
  | .null => ['n', 'u', 'l', 'l']
  | .bool true => ['t', 'r', 'u', 'e']
  | .bool false => ['f', 'a', 'l', 's', 'e']
  | .int n => writeInt n
  | .str text => quote text
  | .arr [] => ['[', ']']
  | .arr (item :: items) =>
    '[' :: newLine (level + 1) ++ write (level + 1) item ++ writeItems (level + 1) items ++
      newLine level ++ [']']
  | .obj [] => ['\x7b', '\x7d']
  | .obj ((key, value) :: members) =>
    '\x7b' :: newLine (level + 1) ++ quote key ++ [':', ' '] ++ write (level + 1) value ++
      writeMembers (level + 1) members ++ newLine level ++ ['\x7d']

/-- The items after the first, each with the comma before it. -/
def writeItems (level : Nat) : List Json → List Char
  | [] => []
  | item :: items => ',' :: newLine level ++ write level item ++ writeItems level items

def writeMembers (level : Nat) : List (String × Json) → List Char
  | [] => []
  | (key, value) :: members =>
    ',' :: newLine level ++ quote key ++ [':', ' '] ++ write level value ++
      writeMembers level members

end

def pretty (value : Json) : String :=
  String.ofList (write 0 value.sorted)

end Json

end HostPattern
