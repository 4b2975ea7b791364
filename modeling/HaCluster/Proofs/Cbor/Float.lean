import HaCluster.Proofs.Cbor.Number

/-!
# Doubles of binary items

A double is written in the narrowest of three formats that holds it exactly.
A format represents a double by the same three parts as the double itself
does, sign, scale and fraction, only with fewer bits for the last two, so
that reading a number back is putting these parts where a double has them.

A double is `mantissa · 2 ^ exponent`. What the narrowing finds is a power of
two taken out of the mantissa, and the two numbers `top` and `unit`, the
weights of the first and the last digit that the format can hold. The
widening computes the same two numbers from the format's scale and fraction
(`widen_narrow?`).
-/

namespace HaCluster

namespace Decimal

/-- The number of the sign of a double. -/
def signOf (x : Float) : Nat := if isNegative x then 1 else 0

theorem signOf_lt (x : Float) : signOf x < 2 := by
  unfold signOf
  split <;> decide

/-- The sign of a double is the highest of its bits. -/
theorem toBits_eq (x : Float) :
    x.toBits.toNat = signOf x * 2 ^ 63 + x.toBits.toNat % 2 ^ 63 := by
  have bits : x.toBits.toNat < 2 ^ 64 := x.toBits.toNat_lt
  unfold signOf isNegative
  rw [twoTo_eq]
  by_cases negative : 2 ^ 63 ≤ x.toBits.toNat
  · rw [if_pos (decide_eq_true negative)]
    omega
  · rw [if_neg (by simpa using negative)]
    omega

/-- **What a double is made of**: the scale is zero and the fraction is the
mantissa, or a one leads the mantissa and the scale is the exponent. -/
theorem Binary.ofFloat_spec (x : Float) :
    (x.toBits.toNat % 2 ^ 63 < 2 ^ 52 ∧ (ofFloat x).mantissa = x.toBits.toNat % 2 ^ 63
        ∧ (ofFloat x).exponent = -1074)
      ∨ ∃ scale fraction, x.toBits.toNat % 2 ^ 63 = scale * 2 ^ 52 + fraction
        ∧ fraction < 2 ^ 52 ∧ 0 < scale ∧ (ofFloat x).mantissa = 2 ^ 52 + fraction
        ∧ (ofFloat x).exponent = (scale : Int) - 1075 := by
  unfold ofFloat
  simp only [twoTo_eq]
  generalize x.toBits.toNat % 2 ^ 63 = bits
  by_cases zero : bits / 2 ^ 52 = 0
  · rw [if_pos zero]
    exact .inl ⟨by omega, Nat.mod_eq_of_lt (by omega), rfl⟩
  · rw [if_neg zero]
    exact .inr ⟨bits / 2 ^ 52, bits % 2 ^ 52, by omega, by omega, by omega, rfl, rfl⟩

end Decimal

namespace Cbor

open Decimal (signOf signOf_lt)

/-! ## Powers of two in a mantissa -/

/-- Moving factors of two into the exponent leaves the number as it is. -/
theorem reduce_spec (fuel m : Nat) (e : Int) :
    ∃ k : Nat, m = (reduce fuel m e).1 * 2 ^ k ∧ (reduce fuel m e).2 = e + k := by
  induction fuel generalizing m e with
  | zero => exact ⟨0, by simp [reduce], by simp [reduce]⟩
  | succ fuel ih =>
    unfold reduce
    split_ifs with even
    · obtain ⟨k, mantissa, exponent⟩ := ih (m / 2) (e + 1)
      refine ⟨k + 1, ?_, ?_⟩
      · rw [Nat.pow_succ, ← Nat.mul_assoc, ← mantissa]
        omega
      · rw [exponent]
        push_cast
        omega
    · exact ⟨0, by simp, by simp⟩

/-- Factors of two add to the place of the first digit. -/
theorem log2_mul_two_pow {m : Nat} (ne : m ≠ 0) (k : Nat) : (m * 2 ^ k).log2 = m.log2 + k := by
  have pos := Nat.two_pow_pos k
  rw [Nat.log2_eq_iff (Nat.mul_ne_zero ne (by omega))]
  constructor
  · rw [Nat.pow_add]
    exact Nat.mul_le_mul_right _ (Nat.log2_self_le ne)
  · rw [Nat.add_right_comm, Nat.pow_add]
    exact Nat.mul_lt_mul_of_pos_right Nat.lt_log2_self pos

/-! ## The parts of a number -/

section Parts

variable {exponentBits fractionBits sign scale fraction : Nat}

/-- The bits of sign, scale and fraction are found where they were put. -/
theorem parts (sign scale fraction : Nat) (hfraction : fraction < 2 ^ fractionBits)
    (hscale : scale < 2 ^ exponentBits) (hsign : sign < 2) {bits : Nat}
    (h : bits = sign * 2 ^ (exponentBits + fractionBits) + scale * 2 ^ fractionBits + fraction) :
    bits % 2 ^ fractionBits = fraction ∧ bits / 2 ^ fractionBits % 2 ^ exponentBits = scale
      ∧ bits / 2 ^ (exponentBits + fractionBits) % 2 = sign
      ∧ bits < 2 ^ (exponentBits + fractionBits + 1) := by
  have joined : bits = fraction + 2 ^ fractionBits * (scale + 2 ^ exponentBits * sign) := by
    rw [h, Nat.pow_add]
    ring
  have high : bits / 2 ^ fractionBits = scale + 2 ^ exponentBits * sign := by
    rw [joined, Nat.add_mul_div_left _ _ (Nat.two_pow_pos _), Nat.div_eq_of_lt hfraction,
      Nat.zero_add]
  have top : bits / 2 ^ (exponentBits + fractionBits) = sign := by
    rw [Nat.add_comm exponentBits, Nat.pow_add, ← Nat.div_div_eq_div_mul, high,
      Nat.add_mul_div_left _ _ (Nat.two_pow_pos _), Nat.div_eq_of_lt hscale, Nat.zero_add]
  refine ⟨?_, ?_, ?_, ?_⟩
  · rw [joined, Nat.add_mul_mod_self_left, Nat.mod_eq_of_lt hfraction]
  · rw [high, Nat.add_mul_mod_self_left, Nat.mod_eq_of_lt hscale]
  · rw [top, Nat.mod_eq_of_lt hsign]
  · have below : bits / 2 ^ (exponentBits + fractionBits) < 2 := by rwa [top]
    rwa [Nat.pow_succ, Nat.mul_comm, ← Nat.div_lt_iff_lt_mul (Nat.two_pow_pos _)]

/-- **A number with a leading one** is widened by moving the middle of its
scale. -/
theorem widen_normal (hfraction : fraction < 2 ^ fractionBits) (pos : scale ≠ 0)
    (hscale : scale < 2 ^ exponentBits - 1) (hsign : sign < 2) :
    widen exponentBits fractionBits
        (sign * 2 ^ (exponentBits + fractionBits) + scale * 2 ^ fractionBits + fraction)
      = sign * 2 ^ 63 + ((1023 - (2 ^ (exponentBits - 1) - 1) + scale) * 2 ^ 52
          + fraction * 2 ^ (52 - fractionBits)) := by
  have fits : scale < 2 ^ exponentBits := by omega
  obtain ⟨low, middle, high, -⟩ := parts sign scale fraction hfraction fits hsign rfl
  unfold widen
  simp only [twoTo_eq, low, middle, high]
  rw [if_neg (by omega), if_neg pos]

/-- **A number without a leading one** gets one, and the scale that its first
digit has. -/
theorem widen_subnormal (hfraction : fraction < 2 ^ fractionBits) (pos : fraction ≠ 0)
    (bits : 2 ≤ 2 ^ exponentBits) (hsign : sign < 2) :
    widen exponentBits fractionBits (sign * 2 ^ (exponentBits + fractionBits) + fraction)
      = sign * 2 ^ 63
        + ((1024 - (2 ^ (exponentBits - 1) - 1) - fractionBits + fraction.log2) * 2 ^ 52
          + (fraction * 2 ^ (52 - fraction.log2) - 2 ^ 52)) := by
  have fits : 0 < 2 ^ exponentBits := Nat.two_pow_pos _
  obtain ⟨low, middle, high, -⟩ := parts sign 0 fraction hfraction fits hsign rfl
  unfold widen
  simp only [Nat.zero_mul, Nat.add_zero] at low middle high
  simp only [twoTo_eq, low, middle, high]
  rw [if_neg (by omega), if_pos trivial, if_neg pos]

/-- A zero keeps its sign. -/
theorem widen_zero (bits : 2 ≤ 2 ^ exponentBits) (hsign : sign < 2) :
    widen exponentBits fractionBits (sign * 2 ^ (exponentBits + fractionBits))
      = sign * 2 ^ 63 := by
  have fits : 0 < 2 ^ exponentBits := Nat.two_pow_pos _
  obtain ⟨low, middle, high, -⟩ := parts sign 0 0 (Nat.two_pow_pos fractionBits) fits hsign rfl
  unfold widen
  simp only [Nat.zero_mul, Nat.add_zero] at low middle high
  simp only [twoTo_eq, low, middle, high]
  rw [if_neg (by omega), if_pos trivial, if_pos trivial, Nat.add_zero]

end Parts

/-! ## What the narrowing finds -/

/-- A finite double that is not zero, as a format with `fractionBits` bits
for the fraction and its scales around `bias` holds it. -/
structure Narrowed (bias fractionBits : Nat) (b : Decimal.Binary) (n : Nat) where
  /-- The mantissa without the power of two. -/
  odd : Nat
  /-- The power of two that was taken out. -/
  power : Nat
  mantissa : b.mantissa = odd * 2 ^ power
  top : Int
  top_eq : top = odd.log2 + (b.exponent + power)
  unit : Int
  unit_eq : unit = max top (1 - bias) - fractionBits
  unit_le : unit ≤ b.exponent + power
  top_le : top ≤ bias
  digits : Nat
  digits_eq : digits = odd * 2 ^ (b.exponent + power - unit).toNat
  bits : n = (if digits < 2 ^ fractionBits then 0 else (top + bias).toNat) * 2 ^ fractionBits
    + digits % 2 ^ fractionBits

/-- **A narrowed double** is a zero with its sign, or a number that the
format holds exactly. -/
theorem narrow?_eq_some {exponentBits fractionBits n : Nat} {x : Float}
    (h : narrow? exponentBits fractionBits x = some n) :
    ((Decimal.Binary.ofFloat x).mantissa = 0
        ∧ n = signOf x * 2 ^ (exponentBits + fractionBits))
      ∨ ∃ r, (Decimal.Binary.ofFloat x).mantissa ≠ 0
        ∧ n = signOf x * 2 ^ (exponentBits + fractionBits) + r
        ∧ Nonempty (Narrowed (2 ^ (exponentBits - 1) - 1) fractionBits
          (Decimal.Binary.ofFloat x) r) := by
  have sign_eq : (if Decimal.isNegative x then twoTo (exponentBits + fractionBits) else 0)
      = signOf x * 2 ^ (exponentBits + fractionBits) := by
    unfold signOf
    split <;> simp [twoTo_eq]
  have bias_eq : ((twoTo (exponentBits - 1) : Nat) : Int) - 1
      = ((2 ^ (exponentBits - 1) - 1 : Nat) : Int) := by
    have pos := Nat.two_pow_pos (exponentBits - 1)
    rw [twoTo_eq]
    omega
  unfold narrow? at h
  simp only [sign_eq, bias_eq] at h
  by_cases zero : (Decimal.Binary.ofFloat x).mantissa = 0
  · rw [if_pos zero] at h
    exact .inl ⟨zero, (Option.some.inj h).symm⟩
  · rw [if_neg zero] at h
    right
    obtain ⟨k, mantissa, exponent⟩ :=
      reduce_spec 53 (Decimal.Binary.ofFloat x).mantissa (Decimal.Binary.ofFloat x).exponent
    generalize reduce 53 (Decimal.Binary.ofFloat x).mantissa (Decimal.Binary.ofFloat x).exponent
      = r at *
    obtain ⟨m, e⟩ := r
    simp only at mantissa exponent h
    split at h
    · cases h
    · rename_i fits
      rw [not_or, Int.not_lt, Int.not_lt] at fits
      refine ⟨_, zero, ?_, ⟨{
        odd := m
        power := k
        mantissa := mantissa
        top := m.log2 + e
        top_eq := by rw [exponent]
        unit := max (m.log2 + e) (1 - ((2 ^ (exponentBits - 1) - 1 : Nat) : Int)) - fractionBits
        unit_eq := rfl
        unit_le := by rw [← exponent]; exact fits.1
        top_le := fits.2
        digits := _
        digits_eq := rfl
        bits := rfl }⟩⟩
      rw [← Option.some.inj h, exponent]
      simp only [twoTo_eq, Nat.add_assoc]

namespace Narrowed

variable {bias fractionBits n : Nat} {b : Decimal.Binary}

/-- The narrowest formats hold no double without a leading one: the last
digit of such a double weighs too little. -/
theorem two_pow_le (r : Narrowed bias fractionBits b n) (pos : b.mantissa ≠ 0)
    (coarse : bias + fractionBits ≤ 1023) (exponent : b.exponent = -1074) :
    2 ^ 52 ≤ b.mantissa := by
  have odd_pos : 0 < r.odd := Nat.pos_of_ne_zero fun zero => pos (by rw [r.mantissa, zero, Nat.zero_mul])
  have power : 52 ≤ r.power := by
    have unit_le := r.unit_le
    have unit_eq := r.unit_eq
    omega
  rw [r.mantissa]
  exact Nat.le_mul_of_pos_left _ odd_pos |>.trans' (Nat.pow_le_pow_right (by decide) power)

section Normal

variable {scale fraction : Nat}
  (mantissa : b.mantissa = 2 ^ 52 + fraction) (small : fraction < 2 ^ 52)
  (exponent : b.exponent = (scale : Int) - 1075)

include mantissa small in
theorem odd_ne_zero (r : Narrowed bias fractionBits b n) : r.odd ≠ 0 := by
  intro zero
  have h := r.mantissa
  rw [zero, Nat.zero_mul] at h
  omega

include mantissa small in
/-- The mantissa has fifty-three digits. -/
theorem log2_odd (r : Narrowed bias fractionBits b n) : r.odd.log2 + r.power = 52 := by
  rw [← log2_mul_two_pow (r.odd_ne_zero mantissa small), ← r.mantissa, mantissa,
    Nat.log2_eq_iff (by omega)]
  omega

include mantissa small exponent in
/-- **A double that keeps its leading one** has the same fraction, up to the
zeros that the format leaves out, and its scale moves with the middle. -/
theorem bits_normal (r : Narrowed bias fractionBits b n) (width : fractionBits ≤ 52)
    (coarse : bias ≤ 1023) (normal : 1 - (bias : Int) ≤ r.top) :
    ∃ s f, n = s * 2 ^ fractionBits + f ∧ f < 2 ^ fractionBits ∧ s ≠ 0 ∧ s ≤ 2 * bias
      ∧ 1023 - bias + s = scale ∧ f * 2 ^ (52 - fractionBits) = fraction := by
  have digits_log := r.log2_odd mantissa small
  have top_eq : r.top = (scale : Int) - 1023 := by rw [r.top_eq, exponent]; omega
  have unit_eq : r.unit = r.top - fractionBits := by rw [r.unit_eq, max_eq_left normal]
  have top_le := r.top_le
  have unit_le := r.unit_le
  have places : (b.exponent + r.power - r.unit).toNat = fractionBits - r.odd.log2 := by omega
  have log_le : r.odd.log2 ≤ fractionBits := by omega
  have digits_eq : r.digits = r.odd * 2 ^ (fractionBits - r.odd.log2) := by
    rw [r.digits_eq, places]
  have first : r.digits.log2 = fractionBits := by
    rw [digits_eq, log2_mul_two_pow (r.odd_ne_zero mantissa small)]
    omega
  -- with the zeros that were left out the digits are the mantissa again
  have whole : r.digits * 2 ^ (52 - fractionBits) = 2 ^ 52 + fraction := by
    rw [digits_eq, Nat.mul_assoc, ← Nat.pow_add, ← mantissa, r.mantissa]
    congr 2
    omega
  have digits_pos : r.digits ≠ 0 := by
    intro zero
    rw [zero, Nat.zero_mul] at whole
    omega
  have low : 2 ^ fractionBits ≤ r.digits := (Nat.le_log2 digits_pos).1 (by omega)
  have high : r.digits < 2 * 2 ^ fractionBits := by
    have := (Nat.log2_lt (k := fractionBits + 1) digits_pos).1 (by omega)
    rwa [Nat.pow_succ, Nat.mul_comm] at this
  refine ⟨(r.top + bias).toNat, r.digits - 2 ^ fractionBits, ?_, by omega, by omega, by omega,
    by omega, ?_⟩
  · have rest : r.digits % 2 ^ fractionBits = r.digits - 2 ^ fractionBits := by
      rw [Nat.mod_eq_sub_mod low, Nat.mod_eq_of_lt (by omega)]
    have bits := r.bits
    rwa [if_neg (by omega), rest] at bits
  · rw [Nat.sub_mul, whole, ← Nat.pow_add, Nat.add_sub_cancel' width, Nat.add_sub_cancel_left]

include mantissa small exponent in
/-- **A double that loses its leading one** has its digits for the fraction,
and the place of the first of them tells the scale. -/
theorem bits_subnormal (r : Narrowed bias fractionBits b n) (width : fractionBits ≤ 52)
    (coarse : bias + fractionBits ≤ 1023) (subnormal : r.top < 1 - (bias : Int)) :
    n < 2 ^ fractionBits ∧ n ≠ 0 ∧ 1024 - bias - fractionBits + n.log2 = scale
      ∧ n * 2 ^ (52 - n.log2) = 2 ^ 52 + fraction := by
  have digits_log := r.log2_odd mantissa small
  have top_eq : r.top = (scale : Int) - 1023 := by rw [r.top_eq, exponent]; omega
  have unit_eq : r.unit = 1 - bias - fractionBits := by
    rw [r.unit_eq, max_eq_right (by omega)]
  have unit_le := r.unit_le
  have first : r.digits.log2 = r.odd.log2 + (b.exponent + r.power - r.unit).toNat := by
    rw [r.digits_eq, log2_mul_two_pow (r.odd_ne_zero mantissa small)]
  have digits_pos : r.digits ≠ 0 := by
    rw [r.digits_eq]
    exact Nat.mul_ne_zero (r.odd_ne_zero mantissa small) (Nat.two_pow_pos _).ne'
  have low : r.digits < 2 ^ fractionBits := (Nat.log2_lt digits_pos).1 (by omega)
  have n_eq : n = r.digits := by
    have bits := r.bits
    rwa [if_pos low, Nat.zero_mul, Nat.zero_add, Nat.mod_eq_of_lt low] at bits
  rw [n_eq]
  refine ⟨low, digits_pos, by omega, ?_⟩
  rw [first, r.digits_eq, Nat.mul_assoc, ← Nat.pow_add, ← mantissa, r.mantissa]
  congr 2
  omega

end Normal

end Narrowed

/-! ## Writing and reading a double -/

/-- **What the narrowing writes the widening reads**: the bits fit into the
format, and they stand for the double they were made from. -/
theorem widen_narrow? {exponentBits fractionBits n : Nat} {x : Float} (one : 0 < exponentBits)
    (width : fractionBits ≤ 52) (coarse : 2 ^ (exponentBits - 1) + fractionBits ≤ 1024)
    (h : narrow? exponentBits fractionBits x = some n) :
    n < 2 ^ (exponentBits + fractionBits + 1)
      ∧ widen exponentBits fractionBits n = x.toBits.toNat := by
  have sign := signOf_lt x
  have bits_eq := Decimal.toBits_eq x
  have half := Nat.two_pow_pos (exponentBits - 1)
  have scales : 2 ^ exponentBits = 2 * 2 ^ (exponentBits - 1) := by
    rw [← Nat.pow_succ']
    congr 1
    omega
  rcases narrow?_eq_some h with ⟨zero, rfl⟩ | ⟨r, pos, rfl, ⟨narrowed⟩⟩
  · obtain ⟨-, -, -, fits⟩ := parts (signOf x) 0 0 (Nat.two_pow_pos fractionBits)
      (Nat.two_pow_pos exponentBits) sign rfl
    refine ⟨by simpa using fits, ?_⟩
    rw [widen_zero (by omega) sign, bits_eq]
    rcases Decimal.Binary.ofFloat_spec x with ⟨-, mantissa, -⟩ | ⟨_, _, -, -, -, mantissa, -⟩ <;>
      omega
  rcases Decimal.Binary.ofFloat_spec x with ⟨small, mantissa, exponent⟩
    | ⟨scale, fraction, magnitude, small, -, mantissa, exponent⟩
  · have := narrowed.two_pow_le pos (by omega) exponent
    omega
  rw [bits_eq, magnitude]
  rcases Int.lt_or_le narrowed.top (1 - ((2 ^ (exponentBits - 1) - 1 : Nat) : Int))
    with subnormal | normal
  · obtain ⟨fits, r_pos, scale_eq, fraction_eq⟩ :=
      narrowed.bits_subnormal mantissa small exponent width (by omega) subnormal
    obtain ⟨-, -, -, below⟩ :=
      parts (signOf x) 0 r fits (Nat.two_pow_pos exponentBits) sign rfl
    refine ⟨by simpa using below, ?_⟩
    rw [widen_subnormal fits r_pos (by omega) sign, scale_eq, fraction_eq, Nat.add_sub_cancel_left]
  · obtain ⟨s, f, rfl, fits, s_pos, s_le, scale_eq, fraction_eq⟩ :=
      narrowed.bits_normal mantissa small exponent width (by omega) normal
    have s_lt : s < 2 ^ exponentBits := by omega
    obtain ⟨-, -, -, below⟩ := parts (signOf x) s f fits s_lt sign rfl
    rw [← Nat.add_assoc]
    refine ⟨below, ?_⟩
    rw [widen_normal fits s_pos (by omega) sign, scale_eq, fraction_eq]

open Float.Model in
/-- A double that is infinite is one of the two. -/
theorem eq_of_isInf {x : Float} (h : x.isInf = true) :
    x = Float.ofBits 0x7ff0000000000000 ∨ x = Float.ofBits 0xfff0000000000000 := by
  have packed := UnpackedFloat.pack_unpack_of_valid x.toModel.valid
  cases unpacked : UnpackedFloat.unpack Format.binary64 x.toModel.toBits.toBitVec with
  | infinity s =>
    rw [unpacked] at packed
    rw [← Float.toBits_inj, ← Float.toBits_inj, ← UInt64.toBitVec_inj, ← UInt64.toBitVec_inj]
    cases s with
    | positive => exact .inl (packed.symm.trans (by decide))
    | negative => exact .inr (packed.symm.trans (by decide))
  | _ =>
    have isInf : (UnpackedFloat.unpack Format.binary64 x.toModel.toBits.toBitVec).isInf = true := h
    rw [unpacked] at isInf
    cases isInf

/-- Bits that are those of a double stand for it. -/
theorem ofBits_of_eq {n : Nat} {x : Float} (h : n = x.toBits.toNat) : ofBits n = x := by
  rw [ofBits, h, UInt64.ofNat_toNat, Float.ofBits_toBits]

/-- **A double is read back**, in whichever format it was written. There is
one number that is none, so that is read back as well. -/
theorem readItem_floatBytes (x : Float) (fuel depth : Nat) (rest : List UInt8) :
    readItem (fuel + 1) depth (floatBytes x ++ rest) = some (.float x, rest) := by
  have half (n : Nat) (fits : n < 256 ^ 2) :
      readItem (fuel + 1) depth (0xf9 :: (bigEndian 2 n ++ rest))
        = some (.float (ofBits (widen 5 10 n)), rest) := by
    simp [readItem, takeBytes_bigEndian, ofBigEndian_bigEndian fits]
  have single (n : Nat) (fits : n < 256 ^ 4) :
      readItem (fuel + 1) depth (0xfa :: (bigEndian 4 n ++ rest))
        = some (.float (ofBits (widen 8 23 n)), rest) := by
    simp [readItem, takeBytes_bigEndian, ofBigEndian_bigEndian fits]
  have double (n : Nat) (fits : n < 256 ^ 8) :
      readItem (fuel + 1) depth (0xfb :: (bigEndian 8 n ++ rest))
        = some (.float (ofBits n), rest) := by
    simp [readItem, takeBytes_bigEndian, ofBigEndian_bigEndian fits]
  unfold floatBytes
  split_ifs with nan inf negative
  · have x_eq : x = Float.nan := by simpa using nan
    have value : ofBits (widen 5 10 0x7e00) = Float.nan := by decide
    rw [x_eq, ← value]
    exact half 0x7e00 (by decide)
  · rcases eq_of_isInf inf with rfl | rfl
    · exact absurd negative (by decide)
    · have value : ofBits (widen 5 10 0xfc00) = Float.ofBits 0xfff0000000000000 := by decide
      rw [← value]
      exact half 0xfc00 (by decide)
  · rcases eq_of_isInf inf with rfl | rfl
    · have value : ofBits (widen 5 10 0x7c00) = Float.ofBits 0x7ff0000000000000 := by decide
      rw [← value]
      exact half 0x7c00 (by decide)
    · exact absurd negative (by decide)
  · split
    · rename_i n narrowed
      obtain ⟨fits, widened⟩ := widen_narrow? (by decide) (by decide) (by decide) narrowed
      rw [List.cons_append, half n fits, ofBits_of_eq widened]
    · split
      · rename_i n narrowed
        obtain ⟨fits, widened⟩ := widen_narrow? (by decide) (by decide) (by decide) narrowed
        rw [List.cons_append, single n fits, ofBits_of_eq widened]
      · rw [List.cons_append, double _ x.toBits.toNat_lt, ofBits_of_eq rfl]

end Cbor

end HaCluster
