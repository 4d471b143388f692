import HostPattern.Decimal
import HostPattern.Text.FoldBytes

/-!
Serial ranges: names that differ in one number, such as `Host001` to `Host010`.
`Matches` says what a range stands for, by its names; `accepts` decides it
without listing them.
-/

namespace HostPattern

open Text

/-- The names `before ++ number ++ after` for the numbers from `first` to `last`,
each number with zeros in front up to `width` digits. -/
structure SerialRange where
  before : String
  after : String
  width : Nat
  first : UInt64
  last : UInt64
  deriving DecidableEq, Repr

namespace SerialRange

/-- The name with number `n`.  A number wider than the width is written in full. -/
def nameAt (range : SerialRange) (n : Nat) : String :=
  range.before ++ String.ofList (Decimal.padded range.width n) ++ range.after

@[simp] theorem toList_nameAt (range : SerialRange) (n : Nat) :
    (range.nameAt n).toList =
      range.before.toList ++ Decimal.padded range.width n ++ range.after.toList := by
  simp [nameAt]

def Matches (range : SerialRange) (name : String) : Prop :=
  ∃ n, range.first.toNat ≤ n ∧ n ≤ range.last.toNat ∧
    fold name.toList = fold (range.nameAt n).toList

/-- Whether the digits are those of a number of the range, padded as its names are.
Zeros only ever fill up to the width, so a wider number begins with none. -/
def acceptsDigits (range : SerialRange) (digits : Bytes) : Bool :=
  !digits.isEmpty && range.width ≤ digits.length && digits.all Decimal.isDigitByte &&
    !(range.width < digits.length && 1 < digits.length &&
      digits.head? == some Decimal.zeroByte) &&
    (Decimal.accumulate? digits).any fun n => range.first ≤ n && n ≤ range.last

/-- Whether the range holds the name, ASCII case aside.  The name is cut by the sizes
of `before` and `after` alone, which need not fall between characters. -/
def accepts (range : SerialRange) (name : String) : Bool :=
  let bytes := Utf8.encode name
  let front := Utf8.encode range.before
  let back := Utf8.encode range.after
  if bytes.length < front.length + back.length then false
  else
    let (head, rest) := bytes.splitAt front.length
    let (digits, tail) := rest.splitAt (rest.length - back.length)
    sameFolded head front && sameFolded tail back && range.acceptsDigits digits

/-- A range with its ends the wrong way round holds nothing. -/
def isEmpty (range : SerialRange) : Bool :=
  range.last < range.first

/-- How many names the range holds, counted up to the largest word. -/
def size (range : SerialRange) : Nat :=
  min (range.last.toNat + 1 - range.first.toNat) (UInt64.size - 1)

/-- The widest number field that can be written out. -/
def maxWidth : Nat := 65535

/-- The name with number `n`, unless the range is too wide to be written. -/
def nameAt? (range : SerialRange) (n : UInt64) : Option String :=
  if range.width ≤ maxWidth then some (range.nameAt n.toNat) else none

def endsText? (range : SerialRange) : Option String := do
  let first ← range.nameAt? range.first
  let last ← range.nameAt? range.last
  return first ++ "..=" ++ last

end SerialRange

end HostPattern
