import HostPattern.Text.Ascii
import HostPattern.Text.Utf8

/-!
ASCII case in UTF-8 bytes.  Two texts are equal up to ASCII case exactly if
their bytes are, since the bytes of other characters are no ASCII letters.
-/

namespace HostPattern.Text

def foldByte (b : UInt8) : UInt8 :=
  if 0x41 ≤ b ∧ b ≤ 0x5A then b + 0x20 else b

def sameFolded (left right : Bytes) : Bool :=
  left.map foldByte == right.map foldByte

@[simp] theorem sameFolded_eq_true_iff {left right : Bytes} :
    sameFolded left right = true ↔ left.map foldByte = right.map foldByte :=
  beq_iff_eq

theorem foldByte_of_high {n : Nat} (high : 0x80 ≤ n) (small : n < 0x100) :
    foldByte (UInt8.ofNat n) = UInt8.ofNat n := by
  have size : (UInt8.ofNat n).toNat = n := UInt8.toNat_ofNat_of_lt' small
  unfold foldByte
  rw [if_neg]
  rintro ⟨_, low⟩
  rw [UInt8.le_iff_toNat_le, size] at low
  exact absurd (Nat.le_trans high low) (by decide)

namespace Utf8

theorem map_foldByte_utf8EncodeChar (c : Char) :
    (String.utf8EncodeChar c).map foldByte = String.utf8EncodeChar c.toLower := by
  by_cases upper : c.val ≥ 'A'.val ∧ c.val ≤ 'Z'.val
  · have low : 0x41 ≤ c.val.toNat := UInt32.le_iff_toNat_le.mp upper.1
    have high : c.val.toNat ≤ 0x5A := UInt32.le_iff_toNat_le.mp upper.2
    have lower : c.toLower.val.toNat = c.val.toNat + 32 := by
      rw [val_toLower upper, UInt32.toNat_add]
      change (c.val.toNat + 32) % 4294967296 = c.val.toNat + 32
      omega
    have size : (UInt8.ofNat c.val.toNat).toNat = c.val.toNat :=
      UInt8.toNat_ofNat_of_lt' (Nat.lt_of_le_of_lt high (by decide))
    unfold String.utf8EncodeChar
    simp only [lower]
    rw [if_pos (by omega), if_pos (by omega)]
    simp only [List.map_cons, List.map_nil, foldByte, List.cons.injEq, and_true]
    rw [if_pos]
    · exact (UInt8.ofNat_add _ _).symm
    · rw [UInt8.le_iff_toNat_le, UInt8.le_iff_toNat_le, size]
      exact ⟨low, high⟩
  · rw [toLower_eq_self upper]
    have bound : ¬ (0x41 ≤ c.val.toNat ∧ c.val.toNat ≤ 0x5A) := fun inside =>
      upper ⟨UInt32.le_iff_toNat_le.mpr inside.1, UInt32.le_iff_toNat_le.mpr inside.2⟩
    simp only [String.utf8EncodeChar]
    split
    · have size : (UInt8.ofNat c.val.toNat).toNat = c.val.toNat :=
        UInt8.toNat_ofNat_of_lt' (Nat.lt_of_le_of_lt ‹_› (by decide))
      simp only [List.map_cons, List.map_nil, foldByte, List.cons.injEq, and_true]
      rw [if_neg]
      rw [UInt8.le_iff_toNat_le, UInt8.le_iff_toNat_le, size]
      exact bound
    · repeat' split
      all_goals
        simp only [List.map_cons, List.map_nil]
        repeat rw [foldByte_of_high (by omega) (by omega)]

theorem map_foldByte_encodeChars (chars : List Char) :
    (encodeChars chars).map foldByte = encodeChars (fold chars) := by
  induction chars with
  | nil => rfl
  | cons c chars hypothesis =>
    rw [encodeChars_cons, List.map_append, map_foldByte_utf8EncodeChar, hypothesis, fold_cons,
      encodeChars_cons]

theorem encodeChars_injective {left right : List Char}
    (same : encodeChars left = encodeChars right) : left = right := by
  have split := splitValid_encodeChars left
  rw [same, splitValid_encodeChars right] at split
  exact (Prod.mk.inj split).1.symm

/-- Texts are equal up to ASCII case exactly if their bytes are. -/
theorem fold_eq_iff_map_foldByte_eq {left right : String} :
    fold left.toList = fold right.toList ↔
      (encode left).map foldByte = (encode right).map foldByte := by
  simp only [encode, map_foldByte_encodeChars]
  exact ⟨congrArg encodeChars, encodeChars_injective⟩

end Utf8

end HostPattern.Text
