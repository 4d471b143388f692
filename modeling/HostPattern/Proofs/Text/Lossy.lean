import HostPattern.Text.Utf8
import Mathlib

/-!
# Text from any bytes

Each stretch of bytes that is no UTF-8 leaves a replacement character behind.  So a text
without this character was decoded from its own encoding, and from no other bytes.
-/

namespace HostPattern.Text.Utf8

def replacement : Char := '\uFFFD'

theorem encodeChars_lossyChars {bytes : Bytes} (clean : replacement ∉ lossyChars bytes) :
    encodeChars (lossyChars bytes) = bytes := by
  fun_induction lossyChars bytes with
  | case1 => rfl
  | case2 b rest c first inductionHypothesis =>
    rw [List.mem_cons, not_or] at clean
    rw [encodeChars_cons, inductionHypothesis clean.2]
    exact (eq_encode_of_firstChar? first).symm
  | case3 b rest broken => exact absurd List.mem_cons_self clean

theorem encode_decodeLossy {bytes : Bytes} (clean : replacement ∉ (decodeLossy bytes).toList) :
    encode (decodeLossy bytes) = bytes := by
  rw [decodeLossy, String.toList_ofList] at clean
  rw [encode, decodeLossy, String.toList_ofList, encodeChars_lossyChars clean]

theorem head?_lossyChars_iff {bytes : Bytes} {c : Char} {b : UInt8}
    (single : String.utf8EncodeChar c = [b]) :
    (lossyChars bytes).head? = some c ↔ bytes.head? = some b := by
  constructor
  · intro found
    cases bytes with
    | nil =>
      rw [lossyChars] at found
      cases found
    | cons d rest =>
      rw [lossyChars] at found
      split at found
      · rename_i first
        cases found
        have split := eq_encode_of_firstChar? first
        rw [single, List.singleton_append] at split
        rw [split, List.head?_cons]
      · cases found
        have several : (String.utf8EncodeChar replacement).length = 3 := by decide
        rw [replacement, single, List.length_singleton] at several
        cases several
  · intro found
    obtain ⟨rest, rfl⟩ := List.head?_eq_some_iff.mp found
    have first : firstChar? (b :: rest) = some c := by
      rw [← List.singleton_append, ← single]
      exact firstChar?_encode c rest
    rw [lossyChars]
    split
    · rename_i d decoded
      rw [first] at decoded
      cases decoded
      rfl
    · rename_i broken
      rw [first] at broken
      cases broken

end HostPattern.Text.Utf8
