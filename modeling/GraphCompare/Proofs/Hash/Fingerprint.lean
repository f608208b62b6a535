import Mathlib
import GraphCompare.Hash.Fingerprint

/-!
# The form of a fingerprint

A hash has as many bytes as are asked for (`Blake3.length_hash`): there is always a root, which
gives 64 bytes for each value of its counter, and the counter goes far enough. So a fingerprint has
two digits for each byte, and they are lower-case hexadecimal digits (`isFingerprint_fingerprint`).
-/

namespace GraphCompare

/-- Where every element gives the same number of elements, the numbers multiply. -/
theorem length_flatMap_of_length {α β : Type} {f : α → List β} {n : ℕ}
    (h : ∀ a, (f a).length = n) (l : List α) : (l.flatMap f).length = l.length * n := by
  simp [List.length_flatMap, h]

namespace Blake3

theorem length_wordBytes (w : UInt32) : (wordBytes w).length = 4 := rfl

theorem length_outputBlock (root : Pending) (i : ℕ) : (outputBlock root i).length = 64 := by
  rw [outputBlock, length_flatMap_of_length length_wordBytes, Vector.length_toList]

/-- Bytes are in some group. -/
theorem groups_ne_nil {size : ℕ} {bytes : List UInt8} (hbytes : bytes ≠ []) (hsize : size ≠ 0) :
    groups size bytes ≠ [] := by
  rw [groups, if_neg (by simp [hbytes, hsize])]
  exact List.cons_ne_nil _ _

/-- Every input has a chunk. -/
theorem chunks_ne_nil (bytes : List UInt8) : chunks bytes ≠ [] := by
  have parts : (if bytes = [] then [[]] else groups 1024 bytes) ≠ [] := by
    split
    case isTrue => exact List.cons_ne_nil _ _
    case isFalse h => exact groups_ne_nil h (by decide)
  simpa [chunks] using parts

/-- A hash is as long as is asked for. -/
theorem length_hash (bytes : List UInt8) (size : ℕ) : (hash bytes size).length = size := by
  rw [hash]
  split
  case h_1 none => exact absurd none (chunks_ne_nil bytes)
  case h_2 first rest _ =>
    rw [List.length_take, length_flatMap_of_length (length_outputBlock _), List.length_range]
    omega

end Blake3

/-- A lower-case hexadecimal digit. -/
def IsLowerHex (c : Char) : Prop := '0' ≤ c ∧ c ≤ '9' ∨ 'a' ≤ c ∧ c ≤ 'f'

instance (c : Char) : Decidable (IsLowerHex c) := inferInstanceAs (Decidable (_ ∨ _))

/-- A text of two lower-case hexadecimal digits for each of a number of bytes. -/
structure IsFingerprint (size : ℕ) (s : String) : Prop where
  length : s.length = 2 * size
  hex : ∀ c ∈ s.toList, IsLowerHex c

theorem isLowerHex_digitChar : ∀ n < 16, IsLowerHex (Nat.digitChar n) := by decide

theorem length_hexByte (b : UInt8) : (hexByte b).length = 2 := rfl

theorem isLowerHex_of_mem_hexByte {b : UInt8} {c : Char} (h : c ∈ hexByte b) : IsLowerHex c := by
  have := b.toNat_lt
  simp only [hexByte, List.mem_cons, List.not_mem_nil, or_false] at h
  rcases h with rfl | rfl
  · exact isLowerHex_digitChar _ (by omega)
  · exact isLowerHex_digitChar _ (by omega)

/-- Every text has a fingerprint of the size that is asked for. -/
theorem isFingerprint_fingerprint (size : ℕ) (s : String) :
    IsFingerprint size (fingerprint size s) where
  length := by
    rw [← String.length_toList, fingerprint, String.toList_ofList,
      length_flatMap_of_length length_hexByte, Blake3.length_hash, mul_comm]
  hex c hc := by
    rw [fingerprint, String.toList_ofList] at hc
    obtain ⟨b, -, hb⟩ := List.mem_flatMap.1 hc
    exact isLowerHex_of_mem_hexByte hb

end GraphCompare
