import HostPattern.Proofs.Decimal.Accumulation
import HostPattern.Proofs.Text.Case

/-!
# Steps that may break off

Sizes are words, and texts are cut by numbers of bytes.  A sum that is too large for a word, a
difference below zero, a cut past the end or inside a character: each of these steps has no
result.
-/

namespace HostPattern.Checked

open Text

section Words

def add? (a b : Nat) : Option Nat :=
  if a + b < 2 ^ 64 then some (a + b) else none

def sub? (a b : Nat) : Option Nat :=
  if b ≤ a then some (a - b) else none

def subByte? (a b : UInt8) : Option UInt8 :=
  if b ≤ a then some (a - b) else none

def subWord? (a b : UInt64) : Option UInt64 :=
  if b ≤ a then some (a - b) else none

theorem add?_of_lt {a b : Nat} (small : a + b < 2 ^ 64) : add? a b = some (a + b) :=
  if_pos small

theorem sub?_of_le {a b : Nat} (room : b ≤ a) : sub? a b = some (a - b) :=
  if_pos room

end Words

section Cuts

def splitAt? (bytes : Bytes) (size : Nat) : Option (Bytes × Bytes) :=
  if size ≤ bytes.length then some (bytes.splitAt size) else none

theorem splitAt?_of_le {bytes : Bytes} {size : Nat} (room : size ≤ bytes.length) :
    splitAt? bytes size = some (bytes.splitAt size) :=
  if_pos room

def byteSize (text : List Char) : Nat :=
  (Utf8.encodeChars text).length

def cut? : Nat → List Char → Option (List Char × List Char)
  | 0, text => some ([], text)
  | _ + 1, [] => none
  | size + 1, c :: text =>
    if c.utf8Size ≤ size + 1 then
      (cut? (size + 1 - c.utf8Size) text).map fun (front, back) => (c :: front, back)
    else none

def upTo? (text : List Char) (stop : Nat) : Option (List Char) :=
  (cut? stop text).map Prod.fst

def onFrom? (text : List Char) (start : Nat) : Option (List Char) :=
  (cut? start text).map Prod.snd

def between? (text : List Char) (start stop : Nat) : Option (List Char) :=
  if start ≤ stop then (upTo? text stop).bind (onFrom? · start) else none

/-- No text in memory takes more than half of all the addresses. -/
def Fits (text : List Char) : Prop :=
  byteSize text < 2 ^ 63

@[simp] theorem byteSize_nil : byteSize [] = 0 := rfl

@[simp] theorem byteSize_cons (c : Char) (text : List Char) :
    byteSize (c :: text) = c.utf8Size + byteSize text := by
  simp [byteSize]

@[simp] theorem byteSize_append (front back : List Char) :
    byteSize (front ++ back) = byteSize front + byteSize back := by
  simp [byteSize, Utf8.encodeChars_append]

theorem cut?_append (front back : List Char) :
    cut? (byteSize front) (front ++ back) = some (front, back) := by
  induction front with
  | nil => simp [cut?]
  | cons c front inductionHypothesis =>
    obtain ⟨size, same⟩ : ∃ size, byteSize (c :: front) = size + 1 := by
      have pos := c.utf8Size_pos
      rw [byteSize_cons]
      exact ⟨c.utf8Size - 1 + byteSize front, by omega⟩
    have room : c.utf8Size ≤ size + 1 := by
      rw [← same, byteSize_cons]
      omega
    have rest : size + 1 - c.utf8Size = byteSize front := by
      rw [← same, byteSize_cons]
      omega
    rw [same, List.cons_append, cut?, if_pos room, rest, inductionHypothesis]
    rfl

theorem upTo?_append (front back : List Char) :
    upTo? (front ++ back) (byteSize front) = some front := by
  rw [upTo?, cut?_append]
  rfl

theorem onFrom?_append (front back : List Char) :
    onFrom? (front ++ back) (byteSize front) = some back := by
  rw [onFrom?, cut?_append]
  rfl

theorem between?_append (front middle back : List Char) :
    between? (front ++ (middle ++ back)) (byteSize front) (byteSize front + byteSize middle) =
      some middle := by
  rw [between?, if_pos (Nat.le_add_right _ _), ← byteSize_append, ← List.append_assoc,
    upTo?_append, Option.bind_some, onFrom?_append]

end Cuts

section Ascii

variable {c : Char} {text : List Char}

theorem toNat_lt_of_isAlphanum (plain : c.isAlphanum = true) : c.toNat < 0x80 := by
  simp only [Char.isAlphanum, Char.isAlpha, Char.isUpper, Char.isLower, Char.isDigit, ge_iff_le,
    UInt32.le_iff_toNat_le] at plain
  simp at plain
  omega

theorem utf8Size_of_isAlphanum (plain : c.isAlphanum = true) : c.utf8Size = 1 := by
  rw [← String.length_utf8EncodeChar,
    Decimal.utf8EncodeChar_of_lt (toNat_lt_of_isAlphanum plain)]
  rfl

theorem byteSize_of_isAlphanum (all : ∀ c ∈ text, c.isAlphanum = true) :
    byteSize text = text.length := by
  induction text with
  | nil => rfl
  | cons c text inductionHypothesis =>
    obtain ⟨first, others⟩ := List.forall_mem_cons.mp all
    rw [byteSize_cons, utf8Size_of_isAlphanum first, inductionHypothesis others, List.length_cons,
      Nat.add_comm]

theorem isDigitByte_of_mem_encodeChars_of_isAlpha (all : ∀ c ∈ text, c.isAlpha = true) {b : UInt8}
    (member : b ∈ Utf8.encodeChars text) : Decimal.isDigitByte b = false := by
  obtain ⟨c, inside, byte⟩ := List.mem_flatMap.mp member
  have letter := all c inside
  have small := toNat_lt_of_isAlphanum (isAlphanum_of_isAlpha letter)
  rw [Decimal.utf8EncodeChar_of_lt small, List.mem_singleton] at byte
  rw [← Bool.not_eq_true, Decimal.isDigitByte_iff_toNat, byte, Decimal.toNat_byte_of_lt small]
  intro bounds
  have digit := Char.isDigit_iff_toNat.mpr bounds
  rw [not_isDigit_of_isAlpha letter] at digit
  cases digit

end Ascii

end HostPattern.Checked
