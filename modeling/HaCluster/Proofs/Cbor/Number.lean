import Mathlib
import HaCluster.Cbor.Reader

/-!
# Numbers of binary items

An item begins with a head: its kind in the three high bits of the first
byte, and a number in the five low bits or in the bytes after it. What the
writer puts into a head the reader takes out of it, whatever follows
(`readNumber_shortHead`).
-/

namespace HaCluster

theorem twoTo_eq (n : Nat) : twoTo n = 2 ^ n := by
  rw [twoTo, Nat.pow_eq]

namespace Cbor

/-! ## Bytes of a number -/

theorem length_bigEndian (k n : Nat) : (bigEndian k n).length = k := by
  induction k generalizing n with
  | zero => rfl
  | succ k ih => simp [bigEndian, ih]

theorem ofBigEndian_concat (bs : List UInt8) (b : UInt8) :
    ofBigEndian (bs ++ [b]) = 256 * ofBigEndian bs + b.toNat := by
  simp [ofBigEndian]

/-- The bytes of a number that fits into them stand for it. -/
theorem ofBigEndian_bigEndian {k n : Nat} (fits : n < 256 ^ k) :
    ofBigEndian (bigEndian k n) = n := by
  induction k generalizing n with
  | zero =>
    have zero : n = 0 := by simpa using fits
    rw [zero]
    rfl
  | succ k ih =>
    have high : n / 256 < 256 ^ k := Nat.div_lt_of_lt_mul (by rwa [Nat.pow_succ'] at fits)
    rw [bigEndian, ofBigEndian_concat, ih high, UInt8.toNat_ofNat']
    exact Nat.div_add_mod n 256

theorem takeBytes_append (bs rest : List UInt8) :
    takeBytes bs.length (bs ++ rest) = some (bs, rest) := by
  simp [takeBytes]

/-- The bytes of a number are taken off the front of what follows. -/
theorem takeBytes_bigEndian (k n : Nat) (rest : List UInt8) :
    takeBytes k (bigEndian k n ++ rest) = some (bigEndian k n, rest) := by
  have taken := takeBytes_append (bigEndian k n) rest
  rwa [length_bigEndian] at taken

/-! ## Heads -/

/-- The first byte of a head holds the kind and five bits more. -/
theorem toNat_first {major low : Nat} (kind : major < 8) (short : low < 32) :
    (UInt8.ofNat (32 * major + low)).toNat / 32 = major
      ∧ (UInt8.ofNat (32 * major + low)).toNat % 32 = low := by
  rw [UInt8.toNat_ofNat', Nat.mod_eq_of_lt (by omega)]
  omega

/-- How many bytes follow the first one of a head with a large number. -/
def Width.size : Width → Nat
  | .one => 1
  | .two => 2
  | .four => 4
  | .eight => 8

theorem fits_narrowest {n : Nat} (fits : n < twoTo 64) : n < 256 ^ (Width.narrowest n).size := by
  unfold Width.narrowest
  split_ifs with one two four
  · exact one
  · exact two
  · exact four
  · exact fits

/-- **A head is read back.** Its first byte tells the kind of the item, and
the number after it is found with its width, whatever follows. -/
theorem readNumber_head {major n : Nat} {w : Width} (kind : major < 8)
    (fits : n < 256 ^ w.size) :
    ∃ b bs, head major w n = b :: bs ∧ b.toNat / 32 = major ∧ b.toNat % 32 ≠ 31 ∧
      ∀ rest, readNumber (b.toNat % 32) (bs ++ rest) = some (w, n, rest) := by
  cases w with
  | one =>
    unfold head
    by_cases small : n < 24
    · obtain ⟨major_eq, low_eq⟩ := toNat_first kind (show n < 32 by omega)
      refine ⟨_, [], if_pos small, major_eq, by omega, fun rest => ?_⟩
      rw [low_eq]
      simp [readNumber, small]
    · obtain ⟨major_eq, low_eq⟩ := toNat_first kind (show 24 < 32 by decide)
      refine ⟨_, _, if_neg small, major_eq, by omega, fun rest => ?_⟩
      rw [low_eq]
      simp [readNumber, takeBytes_bigEndian, ofBigEndian_bigEndian (k := 1) fits]
  | two =>
    obtain ⟨major_eq, low_eq⟩ := toNat_first kind (show 25 < 32 by decide)
    refine ⟨_, _, rfl, major_eq, by omega, fun rest => ?_⟩
    rw [low_eq]
    simp [readNumber, takeBytes_bigEndian, ofBigEndian_bigEndian (k := 2) fits]
  | four =>
    obtain ⟨major_eq, low_eq⟩ := toNat_first kind (show 26 < 32 by decide)
    refine ⟨_, _, rfl, major_eq, by omega, fun rest => ?_⟩
    rw [low_eq]
    simp [readNumber, takeBytes_bigEndian, ofBigEndian_bigEndian (k := 4) fits]
  | eight =>
    obtain ⟨major_eq, low_eq⟩ := toNat_first kind (show 27 < 32 by decide)
    refine ⟨_, _, rfl, major_eq, by omega, fun rest => ?_⟩
    rw [low_eq]
    simp [readNumber, takeBytes_bigEndian, ofBigEndian_bigEndian (k := 8) fits]

/-- The head with the narrowest width is read back, with that width. -/
theorem readNumber_shortHead {major n : Nat} (kind : major < 8) (fits : n < twoTo 64) :
    ∃ b bs, shortHead major n = b :: bs ∧ b.toNat / 32 = major ∧ b.toNat % 32 ≠ 31 ∧
      ∀ rest, readNumber (b.toNat % 32) (bs ++ rest) = some (Width.narrowest n, n, rest) :=
  readNumber_head kind (fits_narrowest fits)

end Cbor

end HaCluster
