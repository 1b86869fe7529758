import ProjectIndex.Text.Utf8
import Mathlib.Data.List.Basic

/-!
# Reading what was encoded

The scan over bytes reads the encoding of a text back as the text, character by character.
So whatever a text spells is well formed.
-/

namespace ProjectIndex.Utf8

theorem toNat_ofNat_byte {n : Nat} (small : n < 256) : (UInt8.ofNat n).toNat = n := by
  simpa using Nat.mod_eq_of_lt small

theorem ofNat_lt {n : Nat} (small : n < 256) {m : UInt8} : UInt8.ofNat n < m ↔ n < m.toNat := by
  rw [UInt8.lt_iff_toNat_lt, toNat_ofNat_byte small]

theorem ofNat_le {n : Nat} (small : n < 256) {m : UInt8} : UInt8.ofNat n ≤ m ↔ n ≤ m.toNat := by
  rw [UInt8.le_iff_toNat_le, toNat_ofNat_byte small]

theorem le_ofNat {n : Nat} (small : n < 256) {m : UInt8} : m ≤ UInt8.ofNat n ↔ m.toNat ≤ n := by
  rw [UInt8.le_iff_toNat_le, toNat_ofNat_byte small]

theorem ofNat_eq {n : Nat} (small : n < 256) {m : UInt8} : UInt8.ofNat n = m ↔ n = m.toNat := by
  rw [← UInt8.toNat_inj, toNat_ofNat_byte small]

theorem start_one {n : Nat} (high : n < 0x80) :
    start (UInt8.ofNat n) = ([some (Char.ofNat n)], none) := by
  have small : n < 256 := by omega
  simp [start, ofNat_lt small, toNat_ofNat_byte small, high]

theorem start_two {n : Nat} (low : 0xC2 ≤ n) (high : n < 0xE0) :
    start (UInt8.ofNat n) = ([], some ⟨1, n % 32, 0x80, 0xBF⟩) := by
  have small : n < 256 := by omega
  have notOne : ¬ n < 0x80 := by omega
  have notLate : ¬ n < 0xC2 := by omega
  simp [start, ofNat_lt small, toNat_ofNat_byte small, notOne, notLate, high]

theorem start_three {n : Nat} (low : 0xE0 ≤ n) (high : n < 0xF0) :
    start (UInt8.ofNat n) =
      ([], some ⟨2, n % 16, if n = 0xE0 then 0xA0 else 0x80, if n = 0xED then 0x9F else 0xBF⟩) := by
  have small : n < 256 := by omega
  have notOne : ¬ n < 0x80 := by omega
  have notLate : ¬ n < 0xC2 := by omega
  have notTwo : ¬ n < 0xE0 := by omega
  simp [start, ofNat_lt small, ofNat_eq small, toNat_ofNat_byte small, notOne, notLate, notTwo, high]

theorem start_four {n : Nat} (low : 0xF0 ≤ n) (high : n < 0xF5) :
    start (UInt8.ofNat n) =
      ([], some ⟨3, n % 8, if n = 0xF0 then 0x90 else 0x80, if n = 0xF4 then 0x8F else 0xBF⟩) := by
  have small : n < 256 := by omega
  have notOne : ¬ n < 0x80 := by omega
  have notLate : ¬ n < 0xC2 := by omega
  have notTwo : ¬ n < 0xE0 := by omega
  have notThree : ¬ n < 0xF0 := by omega
  simp [start, ofNat_lt small, ofNat_eq small, toNat_ofNat_byte small, notOne, notLate, notTwo, notThree,
    high]

theorem scalarsFrom_open {b : UInt8} {p : Pending} (opens : start b = ([], some p)) (rest : List UInt8) :
    scalarsFrom none (b :: rest) = scalarsFrom (some p) rest := by
  simp [scalarsFrom, advance, opens]

/-- A byte that continues an open sequence is taken into its value. -/
theorem scalarsFrom_more {needed value n : Nat} {low high : UInt8} {rest : List UInt8}
    (small : n < 256) (more : 1 < needed) (above : low.toNat ≤ n) (below : n ≤ high.toNat) :
    scalarsFrom (some ⟨needed, value, low, high⟩) (UInt8.ofNat n :: rest) =
      scalarsFrom (some ⟨needed - 1, value * 64 + n % 64, 0x80, 0xBF⟩) rest := by
  have unfinished : ¬ needed ≤ 1 := by omega
  simp [scalarsFrom, advance, le_ofNat small, ofNat_le small, toNat_ofNat_byte small, above, below,
    unfinished]

/-- The last byte of a sequence completes a character. -/
theorem scalarsFrom_last {value n : Nat} {low high : UInt8} {rest : List UInt8}
    (small : n < 256) (above : low.toNat ≤ n) (below : n ≤ high.toNat) :
    scalarsFrom (some ⟨1, value, low, high⟩) (UInt8.ofNat n :: rest) =
      some (Char.ofNat (value * 64 + n % 64)) :: scalarsFrom none rest := by
  simp [scalarsFrom, advance, le_ofNat small, ofNat_le small, toNat_ofNat_byte small, above, below]

/-- The code of a character: no surrogate, and not too large. -/
theorem code_bounds (c : Char) :
    c.val.toNat < 0xD800 ∨ 0xDFFF < c.val.toNat ∧ c.val.toNat < 0x110000 :=
  c.valid

/-- The bytes of a character are read as that character, whatever follows. -/
theorem scalarsFrom_encodeChar (c : Char) (rest : List UInt8) :
    scalarsFrom none (String.utf8EncodeChar c ++ rest) = some c :: scalarsFrom none rest := by
  have bounds := code_bounds c
  have same : Char.ofNat c.val.toNat = c := Char.ofNat_toNat c
  unfold String.utf8EncodeChar
  simp only
  generalize c.val.toNat = v at bounds same
  split
  next one =>
    have opens := start_one (show v < 0x80 by omega)
    simp [scalarsFrom, advance, opens, same]
  split
  next two =>
    simp only [List.cons_append, List.nil_append]
    rw [scalarsFrom_open (start_two (by omega) (by omega)),
      scalarsFrom_last (by omega) (by simp) (by simp; omega), ← same]
    congr 3
    omega
  split
  next three =>
    have above : (if v / 4096 % 16 + 0xE0 = 0xE0 then (0xA0 : UInt8) else 0x80).toNat ≤
        v / 64 % 64 + 0x80 := by
      split
      · simp; omega
      · simp
    have below : v / 64 % 64 + 0x80 ≤
        (if v / 4096 % 16 + 0xE0 = 0xED then (0x9F : UInt8) else 0xBF).toNat := by
      split <;> (simp; omega)
    simp only [List.cons_append, List.nil_append]
    rw [scalarsFrom_open (start_three (by omega) (by omega)),
      scalarsFrom_more (by omega) (by omega) above below,
      scalarsFrom_last (by omega) (by simp) (by simp; omega), ← same]
    congr 3
    omega
  next four =>
    have above : (if v / 262144 % 8 + 0xF0 = 0xF0 then (0x90 : UInt8) else 0x80).toNat ≤
        v / 4096 % 64 + 0x80 := by
      split
      · simp; omega
      · simp
    have below : v / 4096 % 64 + 0x80 ≤
        (if v / 262144 % 8 + 0xF0 = 0xF4 then (0x8F : UInt8) else 0xBF).toNat := by
      split <;> (simp; omega)
    simp only [List.cons_append, List.nil_append]
    rw [scalarsFrom_open (start_four (by omega) (by omega)),
      scalarsFrom_more (by omega) (by omega) above below,
      scalarsFrom_more (by omega) (by omega) (by simp) (by simp; omega),
      scalarsFrom_last (by omega) (by simp) (by simp; omega), ← same]
    congr 3
    omega

theorem encode_eq (s : String) : encode s = s.toList.flatMap String.utf8EncodeChar := by
  have bytes : s.toUTF8 = (s.toList.flatMap String.utf8EncodeChar).toByteArray := by
    rw [String.toUTF8_eq_toByteArray, ← String.utf8Encode_toList]
    rfl
  rw [encode, bytes, List.data_toByteArray]

/-- Encoding and reading gives the text back, with no chunk that is ill formed. -/
theorem scalars_encode (s : String) : scalars (encode s) = s.toList.map some := by
  rw [encode_eq, scalars]
  induction s.toList with
  | nil => rfl
  | cons c cs ih => rw [List.flatMap_cons, scalarsFrom_encodeChar, ih, List.map_cons]

theorem isValid_encode (s : String) : isValid (encode s) = true := by
  simp [isValid, scalars_encode]

end ProjectIndex.Utf8
