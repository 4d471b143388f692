/-!
UTF-8 between bytes and text.  `decode?` reads exactly what `encode` writes;
`decodeLossy` reads anything and puts one replacement character for each
longest stretch of bytes that begins a character and does not end it.
-/

namespace HostPattern.Text

/-- Names, paths and arguments as the system hands them over. -/
abbrev Bytes := List UInt8

namespace Utf8

def encodeChars (chars : List Char) : Bytes :=
  chars.flatMap String.utf8EncodeChar

def encode (text : String) : Bytes :=
  encodeChars text.toList

@[simp] theorem encodeChars_nil : encodeChars [] = [] := rfl

@[simp] theorem encodeChars_cons (c : Char) (chars : List Char) :
    encodeChars (c :: chars) = String.utf8EncodeChar c ++ encodeChars chars := rfl

theorem encodeChars_append (left right : List Char) :
    encodeChars (left ++ right) = encodeChars left ++ encodeChars right :=
  List.flatMap_append

/-- The character whose bytes stand first, if whole. -/
def firstChar? (bytes : Bytes) : Option Char :=
  (bytes.take 4).toByteArray.utf8DecodeChar? 0

theorem firstChar?_encode (c : Char) (rest : Bytes) :
    firstChar? (String.utf8EncodeChar c ++ rest) = some c := by
  have short : (String.utf8EncodeChar c).length ≤ 4 := by
    simpa using c.utf8Size_le_four
  rw [firstChar?, List.take_append, List.take_of_length_le short, List.toByteArray_append]
  exact ByteArray.utf8DecodeChar?_utf8EncodeChar_append

theorem eq_encode_of_firstChar? {bytes : Bytes} {c : Char} (first : firstChar? bytes = some c) :
    bytes = String.utf8EncodeChar c ++ bytes.drop c.utf8Size := by
  obtain ⟨rest, split⟩ := ByteArray.exists_of_utf8DecodeChar?_eq_some first
  have list := congrArg (fun b => b.data.toList) split
  simp only [List.toList_data_toByteArray, ByteArray.data_append, Array.toList_append] at list
  have whole : bytes = String.utf8EncodeChar c ++ (rest.data.toList ++ bytes.drop 4) := by
    rw [← List.append_assoc, ← list, List.take_append_drop]
  have dropped : bytes.drop c.utf8Size = rest.data.toList ++ bytes.drop 4 := by
    conv => lhs; rw [whole]
    exact List.drop_left' (by simp)
  rw [dropped]
  exact whole

theorem firstChar?_nil : firstChar? [] = none := by
  cases first : firstChar? [] with
  | none => rfl
  | some c =>
    have size := congrArg List.length (eq_encode_of_firstChar? first)
    have pos := c.utf8Size_pos
    simp at size
    omega

theorem length_drop_lt {bytes : Bytes} {c : Char} (first : firstChar? bytes = some c) :
    (bytes.drop c.utf8Size).length < bytes.length := by
  have size := congrArg List.length (eq_encode_of_firstChar? first)
  have pos := c.utf8Size_pos
  simp at size ⊢
  omega

/-- Whether a character of more than one byte may begin with these two. -/
def begins (lead second : UInt8) : Bool :=
  if lead < 0xC2 then false
  else if lead ≤ 0xDF then 0x80 ≤ second && second ≤ 0xBF
  else if lead = 0xE0 then 0xA0 ≤ second && second ≤ 0xBF
  else if lead = 0xED then 0x80 ≤ second && second ≤ 0x9F
  else if lead ≤ 0xEF then 0x80 ≤ second && second ≤ 0xBF
  else if lead = 0xF0 then 0x90 ≤ second && second ≤ 0xBF
  else if lead ≤ 0xF3 then 0x80 ≤ second && second ≤ 0xBF
  else lead = 0xF4 && 0x80 ≤ second && second ≤ 0x8F

/-- How many bytes to pass over where no whole character stands first: those
that begin one, and at least one. -/
def brokenLength : Bytes → Nat
  | lead :: second :: third :: _ =>
    if begins lead second then
      if 0xF0 ≤ lead && 0x80 ≤ third && third ≤ 0xBF then 3 else 2
    else 1
  | [lead, second] => if begins lead second then 2 else 1
  | _ => 1

theorem brokenLength_pos (bytes : Bytes) : 0 < brokenLength bytes := by
  unfold brokenLength
  repeat' split
  all_goals omega

/-- The characters that the bytes begin with, and the bytes after them. -/
def splitValid (bytes : Bytes) : List Char × Bytes :=
  match _ : firstChar? bytes with
  | none => ([], bytes)
  | some c =>
    let rest := splitValid (bytes.drop c.utf8Size)
    (c :: rest.1, rest.2)
termination_by bytes.length
decreasing_by exact length_drop_lt ‹_›

/-- The text that the bytes encode, if they are UTF-8 throughout. -/
def decode? (bytes : Bytes) : Option String :=
  match splitValid bytes with
  | (chars, []) => some (String.ofList chars)
  | (_, _ :: _) => none

def lossyChars (bytes : Bytes) : List Char :=
  match bytes with
  | [] => []
  | b :: rest =>
    match _ : firstChar? (b :: rest) with
    | some c => c :: lossyChars ((b :: rest).drop c.utf8Size)
    | none => '\uFFFD' :: lossyChars ((b :: rest).drop (brokenLength (b :: rest)))
termination_by bytes.length
decreasing_by
  · exact length_drop_lt ‹_›
  · have pos := brokenLength_pos (b :: rest)
    simp only [List.length_drop, List.length_cons]
    omega

/-- The text of any bytes, a replacement character standing for each stretch
that is not UTF-8. -/
def decodeLossy (bytes : Bytes) : String :=
  String.ofList (lossyChars bytes)

theorem splitValid_encodeChars_append (chars : List Char) (bytes : Bytes) :
    splitValid (encodeChars chars ++ bytes) =
      (chars ++ (splitValid bytes).1, (splitValid bytes).2) := by
  induction chars with
  | nil => rfl
  | cons c chars hypothesis =>
    rw [encodeChars_cons, List.append_assoc, splitValid]
    split
    · rename_i first
      rw [firstChar?_encode] at first
      cases first
    · rename_i d first
      rw [firstChar?_encode] at first
      cases first
      rw [List.drop_left' (by simp), hypothesis]
      rfl

theorem splitValid_nil : splitValid [] = ([], []) := by
  rw [splitValid]
  split
  · rfl
  · rename_i first
    rw [firstChar?_nil] at first
    cases first

theorem splitValid_encodeChars (chars : List Char) :
    splitValid (encodeChars chars) = (chars, []) := by
  simpa [splitValid_nil] using splitValid_encodeChars_append chars []

theorem encodeChars_splitValid (bytes : Bytes) :
    encodeChars (splitValid bytes).1 ++ (splitValid bytes).2 = bytes := by
  fun_induction splitValid bytes with
  | case1 bytes first => rfl
  | case2 bytes c first rest hypothesis =>
    rw [encodeChars_cons, List.append_assoc, hypothesis]
    exact (eq_encode_of_firstChar? first).symm

/-- Reading accepts exactly what writing produces. -/
theorem decode?_eq_some_iff {bytes : Bytes} {text : String} :
    decode? bytes = some text ↔ bytes = encode text := by
  constructor
  · intro read
    have split := encodeChars_splitValid bytes
    unfold decode? at read
    split at read
    · rename_i chars same
      cases read
      rw [same] at split
      simpa [encode] using split.symm
    · cases read
  · rintro rfl
    simp [decode?, encode, splitValid_encodeChars]

theorem encode_injective {left right : String} (same : encode left = encode right) :
    left = right := by
  have read := decode?_eq_some_iff.mpr same
  rw [decode?_eq_some_iff.mpr rfl] at read
  cases read
  rfl

def le (left right : String) : Bool :=
  decide (encode left ≤ encode right)

end Utf8

end HostPattern.Text
