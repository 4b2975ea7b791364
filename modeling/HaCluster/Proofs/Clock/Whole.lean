import HaCluster.Proofs.Clock.Difference

/-!
# Whole numbers as doubles

An integer of 64 bits that stands where a time is expected is read as a double.
It is rounded if it has more than 53 bits, and is far from the infinite doubles and, unless
it is zero, from the smallest ones, so what is read is a finite time (`isFinite_ofInt`).

Whatever is divided by such a number, other than zero, stays a number (`isNaN_quotient`).
-/

namespace HaCluster.Clock

open Float.Model (UnpackedFloat Format)
open Float.Model.UnpackedFloat

theorem natAbs_apply (s : Sign) (u : Nat) : (s.apply u).natAbs = u := by
  cases s
  · exact Int.natAbs_neg u
  · rfl

/-- A finite double other than zero. -/
def Regular (x : UnpackedFloat) : Prop := ∃ s m e pos, x = .finite s m e pos

theorem Regular.isFinite {x : UnpackedFloat} (h : Regular x) : x.isFinite = true := by
  obtain ⟨s, m, e, pos, rfl⟩ := h
  rfl

/-- A number that lies between the infinite doubles, and is not zero, is regular. -/
theorem regular_of_units {x : UnpackedFloat} (number : x.isNaN = false)
    (some : units x ≠ 0) (inside : (units x).natAbs < beyond) : Regular x := by
  cases x with
  | notANumber => cases number
  | infinity s =>
    have edge : (units (.infinity s)).natAbs = beyond := natAbs_apply s beyond
    omega
  | zero s => exact absurd rfl some
  | finite s m e pos => exact ⟨s, m, e, pos, rfl⟩

/-- Powers of two are doubles, so that rounding does not lead past them. -/
theorem rounded_le_two_pow {u k : Nat} (le : u ≤ 2 ^ k) : rounded u ≤ 2 ^ k := by
  have top : rounded (1 * 2 ^ k) = 1 * 2 ^ k := rounded_of_lt (by decide)
  rw [one_mul] at top
  exact (rounded_le le).trans top.le

/-- No positive number is rounded to zero. -/
theorem rounded_pos {u : Nat} (pos : 0 < u) : 0 < rounded u := by
  have one : rounded (1 * 2 ^ 0) = 1 * 2 ^ 0 := rounded_of_lt (by decide)
  exact Nat.lt_of_lt_of_le one.symm.le (rounded_le pos)

theorem two_pow_lt_mul {k a b : Nat} (h : k < a + b) : 2 ^ k < 2 ^ a * 2 ^ b := by
  rw [← pow_add]
  exact Nat.pow_lt_pow_right (by decide) h

/-- A mantissa of 53 bits or more is rounded to a finite double, if it has not too
many for its exponent. -/
theorem regular_roundWithAccuracy (s : Sign) {m b : Nat} {e : Int} (long : 2 ^ 52 ≤ m)
    (short : m ≤ 2 ^ b) (low : -1074 ≤ e) (high : b + (e + 1074).toNat < 52 + 2046) :
    Regular (unpack Format.binary64 (pack Format.binary64
      (roundWithAccuracy Format.binary64 s m e .exact))) := by
  have pos : 0 < m := Nat.lt_of_lt_of_le (by decide) long
  have log : 52 ≤ m.log2 := (Nat.le_log2 pos.ne').2 long
  have room : e ≤ Format.binary64.targetExponent (Float.Model.totalExponent m e) := by
    rw [targetExponent_eq]
    unfold Float.Model.totalExponent
    omega
  have fits : m * 2 ^ (e + 1074).toNat ≤ 2 ^ (b + (e + 1074).toNat) := by
    rw [pow_add]
    exact Nat.mul_le_mul_right _ short
  obtain ⟨number, whole⟩ := units_roundWithAccuracy s pos low room
  refine regular_of_units number (Int.natAbs_ne_zero.1 ?_) ?_
  · rw [whole, natAbs_apply]
    exact (lt_min (rounded_pos (Nat.mul_pos pos (Nat.two_pow_pos _))) beyond_pos).ne'
  · rw [whole, natAbs_apply]
    exact ((min_le_left _ _).trans (rounded_le_two_pow fits)).trans_lt (two_pow_lt_mul high)

/-! ## Natural numbers -/

/-- A natural number of more than 53 bits is scaled by a power of ten, which is one. -/
theorem regular_ofScientific {n : Nat} (pos : 0 < n) (small : n ≤ 2 ^ 64) :
    Regular (Float.Model.ofScientific n 0).unpack := by
  have scaled : UnpackedFloat.ofScientific Format.binary64 n 0
      = roundWithAccuracy Format.binary64 .positive (n * 2 ^ 53) (-53) .exact := by
    unfold UnpackedFloat.ofScientific
    have long : ¬ (0 : Int) < -(2 ^ Format.binary64.exponentBits + n.log2) := by
      show ¬ (0 : Int) < -(2 ^ 11 + n.log2)
      omega
    rw [dif_neg pos.ne', if_neg (by decide), if_neg long, if_pos (by decide)]
    unfold UnpackedFloat.mul
    dsimp only
    rw [Nat.shiftLeft_eq, show (10 : Nat) ^ Int.toNat 0 = 1 from rfl, mul_one]
    rfl
  have short : n * 2 ^ 53 ≤ 2 ^ (64 + 53) := by
    rw [pow_add]
    exact Nat.mul_le_mul_right _ small
  unfold Float.Model.ofScientific
  rw [scaled]
  exact regular_roundWithAccuracy .positive (by omega) short (by decide) (by decide)

/-- Of two numbers of 53 bits, scaled to be the same, neither is scaled by much more
than the other one. -/
theorem scales_near {m n j k : Nat} (same : m * 2 ^ j = n * 2 ^ k) (pos : 0 < n)
    (small : n < 2 ^ 53) (small' : m < 2 ^ 53) :
    k < 53 + j ∧ (2 ^ 52 ≤ m → j ≤ k) := by
  have low : 2 ^ k < 2 ^ (53 + j) := by
    calc 2 ^ k ≤ n * 2 ^ k := Nat.le_mul_of_pos_left _ pos
      _ = m * 2 ^ j := same.symm
      _ < 2 ^ 53 * 2 ^ j := Nat.mul_lt_mul_of_pos_right small' (Nat.two_pow_pos j)
      _ = 2 ^ (53 + j) := (pow_add 2 53 j).symm
  refine ⟨(Nat.pow_lt_pow_iff_right (by decide)).1 low, fun long => ?_⟩
  have high : 2 ^ (52 + j) < 2 ^ (53 + k) := by
    calc 2 ^ (52 + j) = 2 ^ 52 * 2 ^ j := pow_add 2 52 j
      _ ≤ m * 2 ^ j := Nat.mul_le_mul_right _ long
      _ = n * 2 ^ k := same
      _ < 2 ^ 53 * 2 ^ k := Nat.mul_lt_mul_of_pos_right small (Nat.two_pow_pos k)
      _ = 2 ^ (53 + k) := (pow_add 2 53 k).symm
  have := (Nat.pow_lt_pow_iff_right (by decide)).1 high
  omega

/-- A natural number of 53 bits is a double, and has the exponent of a short number. -/
theorem unpack_ofUInt64 {n : Nat} (pos : 0 < n) (small : n < 2 ^ 53) :
    ∃ s m e pos, (Float.Model.ofUInt64 n.toUInt64).unpack = .finite s m e pos
      ∧ 2 ^ 52 ≤ m ∧ m < 2 ^ 53 ∧ -53 < e ∧ e ≤ 0 := by
  have word : n.toUInt64.toNat = n := Nat.mod_eq_of_lt (by omega)
  have made : (Float.Model.ofUInt64 n.toUInt64).unpack
      = unpack Format.binary64 (pack Format.binary64
        (UnpackedFloat.normalize Format.binary64 n 0 .positive)) := by
    show unpack _ (pack _ (UnpackedFloat.normalize _ (n.toUInt64.toNat : Int) 0 .positive)) = _
    rw [word]
  have canonical : Canonical (Float.Model.ofUInt64 n.toUInt64).unpack := canonical_unpack _
  obtain ⟨number, whole⟩ := units_normalize n (e := 0) (by decide)
  rw [← made] at number whole
  -- the number of its units is written without the power of two itself
  obtain ⟨k, width⟩ : ∃ k, k = ((0 : Int) + 1074).toNat := ⟨_, rfl⟩
  have wide : k = 1074 := width
  rw [← width, show (n : Int) = Sign.positive.apply n from rfl, apply_mul, roundedInt_apply,
    rounded_of_lt small] at whole
  generalize (Float.Model.ofUInt64 n.toUInt64).unpack = x at number whole canonical
  have inside : n * 2 ^ k < beyond := by
    calc n * 2 ^ k < 2 ^ 53 * 2 ^ k := Nat.mul_lt_mul_of_pos_right small (Nat.two_pow_pos k)
      _ = 2 ^ (53 + k) := (pow_add 2 53 k).symm
      _ < beyond := two_pow_lt_mul (by omega)
  rw [min_eq_left inside.le] at whole
  cases x with
  | notANumber => cases number
  | infinity s =>
    have edge := congrArg Int.natAbs whole
    rw [show units (.infinity s) = s.apply beyond from rfl, natAbs_apply, natAbs_apply] at edge
    omega
  | zero s =>
    have none := congrArg Int.natAbs whole
    rw [natAbs_apply] at none
    exact absurd none (Nat.mul_pos pos (Nat.two_pow_pos k)).ne
  | finite s m e pos' =>
    obtain ⟨small', long, low, -⟩ := canonical
    have same := congrArg Int.natAbs whole
    rw [show units (.finite s m e pos') = s.apply (m * 2 ^ (e + 1074).toNat : Nat) from rfl,
      natAbs_apply, natAbs_apply] at same
    obtain ⟨above, below⟩ := scales_near same pos small small'
    have long := long.resolve_right (by omega)
    have below := below long
    exact ⟨s, m, e, pos', rfl, long, small', by omega, by omega⟩

/-- **A natural number of 64 bits** other than zero is read as such a double. -/
theorem regular_ofNat {n : Nat} (pos : 0 < n) (small : n ≤ 2 ^ 64) :
    Regular (Float.ofNat n).toModel.unpack := by
  unfold Float.ofNat
  show Regular (Float.ofScientific n false 0).toModel.unpack
  unfold Float.ofScientific
  split
  · next short =>
    rw [if_neg Bool.false_ne_true]
    show Regular (unpack Format.binary64 (pack Format.binary64 (UnpackedFloat.mul Format.binary64
      (Float.Model.ofUInt64 n.toUInt64).unpack
      (Float.ofBits 4607182418800017408).toModel.unpack)))
    have one : (Float.ofBits 4607182418800017408).toModel.unpack
        = .finite .positive (2 ^ 52) (-52) (by decide) := by
      rfl
    obtain ⟨s, m, e, pos, number, long, small', low, high⟩ := unpack_ofUInt64 pos short.1
    rw [one, number]
    exact regular_roundWithAccuracy _ (b := 53 + 52) (by omega) (by omega) (by omega) (by omega)
  · next long =>
    rw [if_neg Bool.false_ne_true]
    exact regular_ofScientific pos small

/-- A natural number of 64 bits is read as a finite double. -/
theorem isFinite_ofNat {n : Nat} (small : n ≤ 2 ^ 64) : (Float.ofNat n).isFinite = true := by
  rcases Nat.eq_zero_or_pos n with rfl | pos
  · rfl
  · exact (regular_ofNat pos small).isFinite

theorem isFinite_neg {x : Float} (finite : x.isFinite = true) : (-x).isFinite = true := by
  show (unpack Format.binary64 (pack Format.binary64 x.toModel.unpack.neg)).isFinite = true
  have written := canonical x
  change x.toModel.unpack.isFinite = true at finite
  cases h : x.toModel.unpack with
  | notANumber => rw [h] at finite; cases finite
  | infinity s => rw [h] at finite; cases finite
  | zero s => cases s <;> rfl
  | finite s m e pos =>
    rw [h] at written
    have turned : Canonical (.finite (-s) m e pos) := written
    show (unpack Format.binary64 (pack Format.binary64 (.finite (-s) m e pos))).isFinite = true
    rw [unpack_pack_finite turned]
    rfl

/-- **An integer of 64 bits** is read as a finite double. -/
theorem isFinite_ofInt {n : Int} (small : n.natAbs ≤ 2 ^ 64) : (Float.ofInt n).isFinite = true := by
  cases n with
  | ofNat n => exact isFinite_ofNat small
  | negSucc n => exact isFinite_neg (isFinite_ofNat small)

/-! ## Quotients -/

/-- What is packed is a number if it was one. -/
theorem isNaN_unpack_pack {x : UnpackedFloat} (number : x.isNaN = false) :
    (unpack Format.binary64 (pack Format.binary64 x)).isNaN = false := by
  have packed (s : Sign) {e : BitVec Format.binary64.exponentBits}
      (m : BitVec Format.binary64.mantissaBitsWithoutImplicit) (room : e ≠ -1#_) :
      (unpack Format.binary64 (packComponents Format.binary64 s e m)).isNaN = false := by
    unfold unpack
    simp only [unpackMantissa_packComponents, unpackExponent_packComponents, room, if_false]
    split
    · split <;> rfl
    · rfl
  cases x with
  | notANumber => cases number
  | infinity s => exact congrArg UnpackedFloat.isNaN (unpack_pack_infinity s)
  | zero s => exact congrArg UnpackedFloat.isNaN (unpack_pack_zero s)
  | finite s m e pos =>
    unfold pack
    dsimp only
    split
    · exact congrArg UnpackedFloat.isNaN (unpack_pack_infinity s)
    · next room =>
      split
      · refine packed s _ fun all => ?_
        -- the exponent of all ones is the one that there is no room for
        have ones : (e + 1023 + 52).toNat % 2 ^ 11 = 2 ^ 11 - 1 := congrArg BitVec.toNat all
        change ¬ 2 ^ 11 ≤ (e + 1023 + 52).toNat + 1 at room
        omega
      · exact packed s _ (by decide)

theorem isNaN_roundWithAccuracy (spec : Format) (s : Sign) (m : Nat) (e : Int) (a : Accuracy) :
    (roundWithAccuracy spec s m e a).isNaN = false := by
  unfold roundWithAccuracy
  dsimp only
  split <;> rfl

section

variable {x y : UnpackedFloat} (spec : Format) (number : x.isNaN = false) (regular : Regular y)

include number regular

theorem isNaN_mul : (UnpackedFloat.mul spec x y).isNaN = false := by
  obtain ⟨s, m, e, pos, rfl⟩ := regular
  cases x with
  | notANumber => cases number
  | infinity s => rfl
  | zero s => rfl
  | finite s' m' e' pos' => exact isNaN_roundWithAccuracy ..

theorem isNaN_div : (UnpackedFloat.div spec x y).isNaN = false := by
  obtain ⟨s, m, e, pos, rfl⟩ := regular
  cases x with
  | notANumber => cases number
  | infinity s => rfl
  | zero s => rfl
  | finite s' m' e' pos' => exact isNaN_roundWithAccuracy ..

end

theorem isNaN_ofScientific (spec : Format) (n : Nat) (e : Int) :
    (UnpackedFloat.ofScientific spec n e).isNaN = false := by
  unfold UnpackedFloat.ofScientific
  split
  · rfl
  · split
    · rfl
    · split
      · rfl
      · split
        · exact isNaN_mul spec rfl ⟨_, _, _, _, rfl⟩
        · exact isNaN_div spec rfl ⟨_, _, _, _, rfl⟩

/-- Every natural number is read as a number, the largest ones as the infinite one. -/
theorem isNaN_ofNat (n : Nat) : (Float.ofNat n).isNaN = false := by
  rcases Nat.lt_or_ge n (2 ^ 64) with small | large
  · exact isNaN_of_isFinite (isFinite_ofNat small.le)
  · unfold Float.ofNat
    show (Float.ofScientific n false 0).isNaN = false
    unfold Float.ofScientific
    have long : ¬ (n < 2 ^ 53 ∧ 0 ≤ 22) := by omega
    rw [dif_neg long, if_neg Bool.false_ne_true]
    exact isNaN_unpack_pack (isNaN_ofScientific _ n 0)

/-- **A quotient by a whole number of 64 bits** other than zero is a number if what is divided
is one. -/
theorem isNaN_quotient {a : Float} {n : Nat} (number : a.isNaN = false) (pos : 0 < n)
    (small : n ≤ 2 ^ 64) : (a / Float.ofNat n).isNaN = false :=
  isNaN_unpack_pack (isNaN_div Format.binary64 number (regular_ofNat pos small))

/-- What is not below one is positive. -/
theorem not_le_zero {x : Float} (number : x.isNaN = false) (h : ¬ x < 1) : ¬ x ≤ 0 := by
  have one : (1 : Float).toModel.unpack = .finite .positive (2 ^ 52) (-52) (by decide) := rfl
  have zero : (0 : Float).toModel.unpack = .zero .positive := rfl
  rw [lt_iff, lt_iff_units (canonical x) (canonical 1) number (by rw [one]; rfl), one] at h
  rw [le_iff, le_iff_units (canonical x) (canonical 0) number (by rw [zero]; rfl), zero]
  have positive : 0 < units (.finite .positive (2 ^ 52) (-52) (by decide)) := by
    show (0 : Int) < (2 ^ 52 * 2 ^ ((-52 : Int) + 1074).toNat : Nat)
    positivity
  exact fun le => h (lt_of_le_of_lt le positive)

end HaCluster.Clock
