import HostPattern.Text.Utf8

/-!
Numbers of one 64-bit word in decimal digits.  `parse?` takes the exact value
and then looks whether it fits; `accumulate?` goes byte by byte and gives up at
the first step that does not fit.  `padded` writes.
-/

namespace HostPattern.Decimal

open Text

def value (digits : List Char) : Nat :=
  Nat.ofDigitChars 10 digits 0

def word? (n : Nat) : Option UInt64 :=
  if small : n < UInt64.size then some (UInt64.ofNatLT n small) else none

theorem word?_eq_some_iff {n : Nat} {w : UInt64} : word? n = some w ↔ w.toNat = n := by
  unfold word?
  split
  · rename_i small
    rw [Option.some.injEq]
    constructor
    · rintro rfl
      exact UInt64.toNat_ofNatLT
    · intro same
      apply UInt64.toNat_inj.mp
      rw [UInt64.toNat_ofNatLT, same]
  · rename_i large
    have bound := w.toNat_lt_size
    constructor
    · intro absurd
      cases absurd
    · intro same
      omega

/-- The word that a text of digits writes; anything else writes none. -/
def parse? (text : List Char) : Option UInt64 :=
  if text ≠ [] ∧ text.all Char.isDigit then word? (value text) else none

def zeroByte : UInt8 := 0x30

def isDigitByte (b : UInt8) : Bool :=
  zeroByte ≤ b && b ≤ 0x39

/-- The word ten times as large and one digit larger, if every step fits. -/
def append? (n : UInt64) (digit : UInt8) : Option UInt64 := do
  let tens ← word? (10 * n.toNat)
  word? (tens.toNat + (digit - zeroByte).toNat)

/-- The word that the digits write, met byte by byte. -/
def accumulate? (digits : Bytes) : Option UInt64 :=
  digits.foldlM append? 0

/-- The digits of `n`, with zeros in front up to the width. -/
def padded (width n : Nat) : List Char :=
  (Nat.toDigits 10 n).leftpad width '0'

end HostPattern.Decimal
