import HostPattern.Proofs.Checked.Steps
import HostPattern.Proofs.SerialRange.Described

/-!
# No step of a range breaks off

A range is read, asked for a name and counted here by steps that may break off.  None does: the
form of the text puts a boundary of characters at every cut, both scans of the right side end at
the same place, and the left side is only cut where it is long enough.
-/

namespace HostPattern.Checked

open Text SerialRange

def lastDigit? (bytes : Bytes) : Option Nat :=
  (bytes.reverse.findIdx? Decimal.isDigitByte).map fun i => bytes.length - 1 - i

def scanRight? (right : List Char) : Option (List Char × List Char) := do
  let bytes := Utf8.encodeChars right
  let digits ← upTo? right (bytes.findIdx fun b => !Decimal.isDigitByte b)
  let start ← match lastDigit? bytes with
    | none => some 0
    | some i => add? i 1
  return (digits, ← onFrom? right start)

def cutLeft? (left digits letters : List Char) : Option (Except PatternError SerialRange) := do
  let needed ← add? (byteSize digits) (byteSize letters)
  if byteSize left < needed then
    return .error (.leftTooShort (String.ofList left) needed)
  else
    let before ← upTo? left (← sub? (byteSize left) needed)
    let number ← between? left (byteSize before) (← add? (byteSize before) (byteSize digits))
    match Decimal.parse? digits with
    | none => return .error (.endTooLarge (String.ofList digits))
    | some last => return .ok {
        before := String.ofList before
        after := String.ofList letters
        width := byteSize digits
        first := (Decimal.parse? number).getD 0
        last := last }

def parseRange? (raw : List Char) : Option (Except PatternError SerialRange) :=
  match raw.dropWhile (· != Parts.separator) with
  | [] => some (.error (.unrecognized (String.ofList raw)))
  | _ :: right => do
    let (digits, letters) ← scanRight? right
    cutLeft? (raw.takeWhile (· != Parts.separator)) digits letters

/-- The word that the digits write.  A number that is too large ends the loop but breaks
nothing off. -/
def accumulate? : UInt64 → Bytes → Option (Option UInt64)
  | n, [] => some (some n)
  | n, byte :: bytes =>
    match Decimal.word? (10 * n.toNat) with
    | none => some none
    | some tens => do
      let digit ← subByte? byte Decimal.zeroByte
      match Decimal.word? (tens.toNat + digit.toNat) with
      | none => return none
      | some next => accumulate? next bytes

def leadsWithZero? (range : SerialRange) (digits : Bytes) : Option Bool :=
  if range.width < digits.length && 1 < digits.length then
    digits[0]?.map (· == Decimal.zeroByte)
  else some false

def acceptsDigits? (range : SerialRange) (digits : Bytes) : Option Bool :=
  if digits.isEmpty || digits.length < range.width || !digits.all Decimal.isDigitByte then
    some false
  else do
    if ← leadsWithZero? range digits then return false
    return (← accumulate? 0 digits).any fun n => range.first ≤ n && n ≤ range.last

def acceptsRange? (range : SerialRange) (name : String) : Option Bool := do
  let bytes := Utf8.encode name
  let front := Utf8.encode range.before
  let back := Utf8.encode range.after
  if bytes.length < (← add? front.length back.length) then return false
  let (head, rest) ← splitAt? bytes front.length
  let (digits, tail) ← splitAt? rest (← sub? rest.length back.length)
  if !sameFolded head front || !sameFolded tail back then return false
  acceptsDigits? range digits

def size? (range : SerialRange) : Option Nat :=
  if range.last < range.first then some 0
  else (subWord? range.last range.first).map fun gap => min (gap.toNat + 1) (UInt64.size - 1)

section Reading

variable {parts : Parts}

theorem findIdx_not_digit {digits letters : List Char}
    (digitsAll : ∀ c ∈ digits, c.isDigit = true) (lettersAll : ∀ c ∈ letters, c.isAlpha = true) :
    (Utf8.encodeChars (digits ++ letters)).findIdx (fun b => !Decimal.isDigitByte b) =
      byteSize digits := by
  have front : (Utf8.encodeChars digits).findIdx (fun b => !Decimal.isDigitByte b) =
      byteSize digits := List.findIdx_eq_length.mpr fun b member => by
    rw [Decimal.isDigitByte_of_mem_encodeChars digitsAll member]
    rfl
  have back : (Utf8.encodeChars letters).findIdx (fun b => !Decimal.isDigitByte b) = 0 := by
    cases bytes : Utf8.encodeChars letters with
    | nil => rfl
    | cons b others =>
      have letter := isDigitByte_of_mem_encodeChars_of_isAlpha lettersAll
        (bytes ▸ List.mem_cons_self)
      rw [List.findIdx_cons, letter]
      rfl
  rw [Utf8.encodeChars_append, List.findIdx_append, front, back, Nat.zero_add]
  exact if_neg (Nat.lt_irrefl _)

theorem lastDigit?_append {digits letters : List Char} (nonempty : digits ≠ [])
    (digitsAll : ∀ c ∈ digits, c.isDigit = true) (lettersAll : ∀ c ∈ letters, c.isAlpha = true) :
    lastDigit? (Utf8.encodeChars (digits ++ letters)) = some (byteSize digits - 1) := by
  have back : (Utf8.encodeChars letters).reverse.findIdx? Decimal.isDigitByte = none :=
    List.findIdx?_eq_none_iff.mpr fun b member =>
      isDigitByte_of_mem_encodeChars_of_isAlpha lettersAll (List.mem_reverse.mp member)
  have front : (Utf8.encodeChars digits).reverse.findIdx? Decimal.isDigitByte = some 0 := by
    cases bytes : (Utf8.encodeChars digits).reverse with
    | nil =>
      have size := Decimal.length_encodeChars_of_isDigit digitsAll
      rw [List.reverse_eq_nil_iff.mp bytes] at size
      exact absurd (List.length_eq_zero_iff.mp size.symm) nonempty
    | cons b others =>
      have digit := Decimal.isDigitByte_of_mem_encodeChars digitsAll
        (List.mem_reverse.mp (bytes ▸ List.mem_cons_self))
      rw [List.findIdx?_cons, digit]
      rfl
  rw [lastDigit?, Utf8.encodeChars_append, List.reverse_append, List.findIdx?_append, back, front]
  simp [byteSize]
  omega

theorem scanRight?_append {digits letters : List Char} (nonempty : digits ≠ [])
    (digitsAll : ∀ c ∈ digits, c.isDigit = true) (lettersAll : ∀ c ∈ letters, c.isAlpha = true)
    (fits : Fits digits) : scanRight? (digits ++ letters) = some (digits, letters) := by
  have pos : 0 < byteSize digits := by
    rw [byteSize, Decimal.length_encodeChars_of_isDigit digitsAll]
    exact List.length_pos_iff.mpr nonempty
  have start : add? (byteSize digits - 1) 1 = some (byteSize digits) := by
    unfold Fits at fits
    rw [add?_of_lt (by omega), Nat.sub_add_cancel pos]
  unfold scanRight?
  simp only [findIdx_not_digit digitsAll lettersAll, upTo?_append, start, onFrom?_append,
    lastDigit?_append nonempty digitsAll lettersAll, Option.bind_eq_bind, Option.bind_some]
  rfl

theorem upTo?_left (wellFormed : parts.WellFormed) :
    upTo? parts.left (parts.left.length - parts.needed) = some parts.before := by
  have beforeAll : ∀ c ∈ parts.before, c.isAlphanum = true := fun c member =>
    wellFormed.2.1 c (List.mem_of_mem_take member)
  have cut := upTo?_append parts.before (parts.firstDigits ++
    (parts.left.drop (parts.left.length - parts.needed)).drop parts.digits.length)
  rwa [← parts.left_eq_cuts, byteSize_of_isAlphanum beforeAll, parts.length_before] at cut

theorem between?_left (wellFormed : parts.WellFormed) (room : parts.needed ≤ parts.left.length) :
    between? parts.left (byteSize parts.before) (byteSize parts.before + parts.digits.length) =
      some parts.firstDigits := by
  have numberAll : ∀ c ∈ parts.firstDigits, c.isAlphanum = true := fun c member =>
    wellFormed.2.1 c (List.mem_of_mem_drop (List.mem_of_mem_take member))
  have cut := between?_append parts.before parts.firstDigits
    ((parts.left.drop (parts.left.length - parts.needed)).drop parts.digits.length)
  rwa [← parts.left_eq_cuts, byteSize_of_isAlphanum numberAll, Parts.length_firstDigits room] at cut

/-- The left side is cut only where it has room, and its characters take one byte each. -/
theorem cutLeft?_eq (wellFormed : parts.WellFormed) (fits : Fits parts.write) :
    cutLeft? parts.left parts.digits parts.letters = some (ofParts parts) := by
  have ⟨_, leftAll, _, digitsAll, lettersAll⟩ := wellFormed
  have leftSize := byteSize_of_isAlphanum leftAll
  have digitsSize := byteSize_of_isAlphanum fun c member =>
    isAlphanum_of_isDigit (digitsAll c member)
  have lettersSize := byteSize_of_isAlphanum fun c member =>
    isAlphanum_of_isAlpha (lettersAll c member)
  have whole : parts.left.length + (parts.digits.length + parts.letters.length) < 2 ^ 63 := by
    unfold Fits Parts.write at fits
    simp only [byteSize_append, byteSize_cons, leftSize, digitsSize, lettersSize] at fits
    omega
  have needed : add? parts.digits.length parts.letters.length = some parts.needed :=
    add?_of_lt (by omega)
  unfold cutLeft? ofParts
  simp only [leftSize, digitsSize, lettersSize, needed, Option.bind_eq_bind, Option.bind_some]
  split
  · rfl
  · rename_i short
    have room : parts.needed ≤ parts.left.length := Nat.not_lt.mp short
    have beforeSize : byteSize parts.before ≤ byteSize parts.left := by
      rw [parts.left_eq_cuts, byteSize_append]
      exact Nat.le_add_right _ _
    have stop : add? (byteSize parts.before) parts.digits.length =
        some (byteSize parts.before + parts.digits.length) := add?_of_lt (by omega)
    rw [sub?_of_le room, Option.bind_some, upTo?_left wellFormed, Option.bind_some, stop,
      Option.bind_some, between?_left wellFormed room, Option.bind_some]
    cases Decimal.parse? parts.digits <;> rfl

/-- Every cut of a range's text has its place. -/
theorem parseRange?_write (wellFormed : parts.WellFormed) (fits : Fits parts.write) :
    parseRange? parts.write = some (ofParts parts) := by
  have ⟨_, _, nonempty, digitsAll, lettersAll⟩ := wellFormed
  have digitsFit : Fits parts.digits := by
    unfold Fits Parts.write at *
    simp at fits
    omega
  rw [parseRange?, Parts.dropWhile_write wellFormed, Parts.takeWhile_write wellFormed]
  simp only [scanRight?_append nonempty digitsAll lettersAll digitsFit, Option.bind_eq_bind,
    Option.bind_some]
  exact cutLeft?_eq wellFormed fits

end Reading

section Accepting

theorem accumulate?_eq {bytes : Bytes} (all : ∀ b ∈ bytes, Decimal.isDigitByte b = true)
    (n : UInt64) : accumulate? n bytes = some (bytes.foldlM Decimal.append? n) := by
  induction bytes generalizing n with
  | nil => rfl
  | cons byte bytes inductionHypothesis =>
    obtain ⟨digit, others⟩ := List.forall_mem_cons.mp all
    have low : Decimal.zeroByte ≤ byte := UInt8.le_iff_toNat_le.mpr
      (Decimal.isDigitByte_iff_toNat.mp digit).1
    rw [accumulate?, List.foldlM_cons, Decimal.append?]
    cases Decimal.word? (10 * n.toNat) with
    | none => rfl
    | some tens =>
      simp only [subByte?, if_pos low, Option.bind_eq_bind, Option.bind_some]
      cases Decimal.word? (tens.toNat + (byte - Decimal.zeroByte).toNat) with
      | none => rfl
      | some next => exact inductionHypothesis others next

theorem leadsWithZero?_eq (range : SerialRange) (digits : Bytes) :
    leadsWithZero? range digits = some (range.width < digits.length && 1 < digits.length &&
      digits.head? == some Decimal.zeroByte) := by
  unfold leadsWithZero?
  cases digits with
  | nil => rfl
  | cons first others =>
    split
    · rename_i wide
      rw [wide]
      rfl
    · rename_i narrow
      rw [Bool.not_eq_true] at narrow
      rw [narrow]
      rfl

theorem acceptsDigits?_eq (range : SerialRange) (digits : Bytes) :
    acceptsDigits? range digits = some (range.acceptsDigits digits) := by
  have shape : (digits.isEmpty || decide (digits.length < range.width) ||
      !digits.all Decimal.isDigitByte) =
      !(!digits.isEmpty && decide (range.width ≤ digits.length) &&
        digits.all Decimal.isDigitByte) := by
    simp only [Bool.not_and, Bool.not_not, ← decide_not, Nat.not_le]
  unfold acceptsDigits? acceptsDigits
  rw [shape, leadsWithZero?_eq]
  cases formed : (!digits.isEmpty && decide (range.width ≤ digits.length) &&
      digits.all Decimal.isDigitByte) with
  | false => rfl
  | true =>
    have all := (Bool.and_eq_true _ _ ▸ formed).2
    rw [accumulate?_eq (List.all_eq_true.mp all) 0]
    cases decide (range.width < digits.length) && decide (1 < digits.length) &&
      digits.head? == some Decimal.zeroByte <;> rfl

theorem acceptsRange?_eq {range : SerialRange} (name : String) (before : Fits range.before.toList)
    (after : Fits range.after.toList) :
    acceptsRange? range name = some (range.accepts name) := by
  have ends : (Utf8.encode range.before).length + (Utf8.encode range.after).length < 2 ^ 64 := by
    change byteSize range.before.toList + byteSize range.after.toList < 2 ^ 64
    unfold Fits at before after
    omega
  unfold acceptsRange? accepts
  simp only [add?_of_lt ends, Option.bind_eq_bind, Option.bind_some]
  split
  · rfl
  · rename_i room
    rw [splitAt?_of_le (by omega)]
    simp only [List.splitAt_eq, Option.bind_some]
    rw [sub?_of_le (by rw [List.length_drop]; omega), Option.bind_some,
      splitAt?_of_le (Nat.sub_le _ _)]
    simp only [List.splitAt_eq, Option.bind_some, acceptsDigits?_eq]
    generalize sameFolded _ (Utf8.encode range.before) = front
    generalize sameFolded _ (Utf8.encode range.after) = back
    cases front <;> cases back <;> rfl

theorem size?_eq (range : SerialRange) : size? range = some range.size := by
  unfold size? size
  split
  · rename_i inverted
    have order := UInt64.lt_iff_toNat_lt.mp inverted
    rw [Nat.sub_eq_zero_of_le (by omega), Nat.zero_min]
  · rename_i ordered
    have order : range.first ≤ range.last := UInt64.not_lt.mp ordered
    rw [subWord?, if_pos order, Option.map_some, UInt64.toNat_sub_of_le _ _ order]
    have low := UInt64.le_iff_toNat_le.mp order
    rw [← Nat.sub_add_comm low]

end Accepting

end HostPattern.Checked
