import Mathlib

/-!
# Rounding to the nearest double

Doubles are whole multiples of the smallest positive one, so a finite result of
addition or subtraction is a whole number of such units before it is rounded, and
rounding is a function on natural numbers: of a number with more than 53 bits the
last ones are dropped, the nearest number that is left is taken, and of two the
even one. It keeps the order (`rounded_le`), and leaves alone what has 53 bits
(`rounded_of_lt`).

The logical model of the doubles rounds with a round bit and a sticky bit instead,
which comes to the same (`roundedMantissa_shiftRight`).
-/

namespace HaCluster.Clock

variable {n n' k k' : Nat}

/-! ## The nearest multiple of a power of two -/

/-- The multiple of a power of two that is nearest to a number, as a multiple; of
two the even one. -/
def nearest (n k : Nat) : Nat :=
  if 2 * (n % 2 ^ k) < 2 ^ k then n / 2 ^ k
  else if 2 * (n % 2 ^ k) = 2 ^ k then n / 2 ^ k + n / 2 ^ k % 2
  else n / 2 ^ k + 1

theorem le_nearest (n k : Nat) : n / 2 ^ k ≤ nearest n k := by
  unfold nearest
  split
  · exact Nat.le_refl _
  · split
    · exact Nat.le_add_right _ _
    · exact Nat.le_succ _

theorem nearest_le (n k : Nat) : nearest n k ≤ n / 2 ^ k + 1 := by
  unfold nearest
  split
  · exact Nat.le_succ _
  · split <;> omega

theorem nearest_zero (n : Nat) : nearest n 0 = n := by
  unfold nearest
  rw [pow_zero, Nat.mod_one, if_pos (by decide), Nat.div_one]

/-- The greater of two numbers has the greater nearest multiple. -/
theorem nearest_mono (h : n ≤ n') : nearest n k ≤ nearest n' k := by
  rcases Nat.lt_or_eq_of_le (Nat.div_le_div_right (c := 2 ^ k) h) with apart | same
  · exact (nearest_le n k).trans (Nat.le_trans apart (le_nearest n' k))
  · have parts := Nat.div_add_mod n (2 ^ k)
    have parts' := Nat.div_add_mod n' (2 ^ k)
    rw [same] at parts
    have rest : n % 2 ^ k ≤ n' % 2 ^ k := by omega
    unfold nearest
    rw [same]
    split_ifs <;> omega

/-- Nothing changes if a number and the power are scaled. -/
theorem nearest_scale (n k j : Nat) : nearest (n * 2 ^ j) (k + j) = nearest n k := by
  have pos : 0 < 2 ^ j := Nat.two_pow_pos j
  have quotient : n * 2 ^ j / 2 ^ (k + j) = n / 2 ^ k := by
    rw [pow_add, Nat.mul_div_mul_right _ _ pos]
  have remainder : n * 2 ^ j % 2 ^ (k + j) = n % 2 ^ k * 2 ^ j := by
    rw [pow_add, Nat.mul_mod_mul_right]
  unfold nearest
  rw [quotient, remainder, ← mul_assoc, pow_add]
  simp only [Nat.mul_lt_mul_right pos, Nat.mul_left_inj pos.ne']

/-! ## Rounding -/

theorem log2_mono (h : n ≤ n') : n.log2 ≤ n'.log2 := by
  rw [Nat.log2_eq_log_two, Nat.log2_eq_log_two]
  exact Nat.log_mono_right h

theorem log2_scale (nonzero : n ≠ 0) (j : Nat) : (n * 2 ^ j).log2 = n.log2 + j := by
  induction j with
  | zero => rw [pow_zero, mul_one, Nat.add_zero]
  | succ j ih =>
    rw [pow_succ, ← mul_assoc, mul_comm, Nat.log2_two_mul (by positivity), ih, Nat.add_assoc]

/-- A number rounded to 53 bits. -/
def rounded (n : Nat) : Nat := nearest n (n.log2 - 52) * 2 ^ (n.log2 - 52)

/-- What is left of a number has 53 bits, or the number has no more. -/
theorem nearest_bounds (n : Nat) :
    nearest n (n.log2 - 52) ≤ 2 ^ 53
      ∧ (2 ^ 52 ≤ nearest n (n.log2 - 52) ∨ n.log2 - 52 = 0) := by
  have quotient : n / 2 ^ (n.log2 - 52) < 2 ^ 53 := by
    rw [Nat.div_lt_iff_lt_mul (Nat.two_pow_pos _), ← pow_add]
    exact lt_of_lt_of_le Nat.lt_log2_self (Nat.pow_le_pow_right (by decide) (by omega))
  refine ⟨(nearest_le n _).trans quotient, ?_⟩
  rcases Nat.eq_zero_or_pos (n.log2 - 52) with none | some
  · exact .inr none
  · refine .inl (Nat.le_trans ?_ (le_nearest n _))
    have nonzero : n ≠ 0 := by
      rintro rfl
      simp at some
    rw [Nat.le_div_iff_mul_le (Nat.two_pow_pos _), ← pow_add]
    exact (Nat.pow_le_pow_right (by decide) (by omega)).trans (Nat.log2_self_le nonzero)

/-- **Rounding keeps the order.** -/
theorem rounded_le (h : n ≤ n') : rounded n ≤ rounded n' := by
  have bits : n.log2 ≤ n'.log2 := log2_mono h
  rcases Nat.lt_or_eq_of_le (show n.log2 - 52 ≤ n'.log2 - 52 by omega) with apart | same
  · -- between two numbers of different lengths there is a power of two
    have below := (nearest_bounds n).1
    have above := (nearest_bounds n').2.resolve_right (by omega)
    calc rounded n ≤ 2 ^ 53 * 2 ^ (n.log2 - 52) := Nat.mul_le_mul_right _ below
      _ = 2 ^ 52 * 2 ^ (n.log2 - 52 + 1) := by rw [← pow_add, ← pow_add]; congr 1; omega
      _ ≤ 2 ^ 52 * 2 ^ (n'.log2 - 52) :=
        Nat.mul_le_mul_left _ (Nat.pow_le_pow_right (by decide) apart)
      _ ≤ rounded n' := Nat.mul_le_mul_right _ above
  · unfold rounded
    rw [same]
    exact Nat.mul_le_mul_right _ (nearest_mono h)

/-- What has 53 bits is left alone, wherever they are. -/
theorem rounded_of_lt {m j : Nat} (small : m < 2 ^ 53) : rounded (m * 2 ^ j) = m * 2 ^ j := by
  rcases Nat.eq_zero_or_pos m with rfl | pos
  · rw [zero_mul]
    decide
  · have bits : m.log2 < 53 := (Nat.log2_lt pos.ne').2 small
    obtain ⟨c, hc⟩ : ∃ c, j = c + ((m * 2 ^ j).log2 - 52) := by
      rw [log2_scale pos.ne']
      exact ⟨j - (m.log2 + j - 52), by omega⟩
    unfold rounded
    generalize (m * 2 ^ j).log2 - 52 = k at hc
    have exact_ : nearest (m * 2 ^ j) k = m * 2 ^ c := by
      rw [hc, pow_add, ← mul_assoc]
      have scaled := nearest_scale (m * 2 ^ c) 0 k
      rwa [Nat.zero_add, nearest_zero] at scaled
    rw [exact_, mul_assoc, ← pow_add, ← hc]

/-! ## The logical model -/

open Float.Model.UnpackedFloat

/-- Of a number `r + b * bit` below `2 * b` the round bit is the bit, and the sticky
bit tells whether `r` is nothing. -/
theorem bits_step {b r bit : Nat} (less : r < b) (small : bit = 0 ∨ bit = 1) :
    (bit != 0) = decide (b * 2 ≤ 2 * (r + b * bit))
      ∧ (decide (b ≤ 2 * r) || decide (r ≠ 0 ∧ 2 * r ≠ b))
        = decide (r + b * bit ≠ 0 ∧ 2 * (r + b * bit) ≠ b * 2) := by
  rw [← Bool.decide_or, decide_eq_decide]
  rcases small with rfl | rfl
  · rw [mul_zero, Nat.add_zero]
    refine ⟨?_, by omega⟩
    rw [decide_eq_false (by omega)]
    rfl
  · rw [mul_one]
    refine ⟨?_, by omega⟩
    rw [decide_eq_true (by omega)]
    rfl

/-- What the round bit and the sticky bit say after bits were dropped. -/
theorem shiftRight_eq (m k : Nat) : (⟨m, false, false⟩ : ExtendedMantissa) >>> k
    = ⟨m / 2 ^ k, decide (2 ^ k ≤ 2 * (m % 2 ^ k)),
      decide (m % 2 ^ k ≠ 0 ∧ 2 * (m % 2 ^ k) ≠ 2 ^ k)⟩ := by
  induction k with
  | zero => simp [HShiftRight.hShiftRight, Nat.repeat, Nat.mod_one]
  | succ k ih =>
    have step : (⟨m, false, false⟩ : ExtendedMantissa) >>> (k + 1)
        = ((⟨m, false, false⟩ : ExtendedMantissa) >>> k).shiftRightOne := rfl
    obtain ⟨round, sticky⟩ := bits_step (Nat.mod_lt m (Nat.two_pow_pos k))
      (Nat.mod_two_eq_zero_or_one (m / 2 ^ k))
    rw [step, ih, ExtendedMantissa.shiftRightOne]
    dsimp only
    rw [round, sticky, pow_succ, Nat.mod_mul, Nat.div_div_eq_div_mul]

/-- **The bits that are kept tell the nearest number.** -/
theorem roundedMantissa_shiftRight (m k : Nat) :
    ((⟨m, false, false⟩ : ExtendedMantissa) >>> k).roundedMantissa = nearest m k := by
  rw [shiftRight_eq]
  unfold ExtendedMantissa.roundedMantissa nearest
  rcases Nat.lt_trichotomy (2 * (m % 2 ^ k)) (2 ^ k) with less | half | more
  · rw [if_pos less, decide_eq_false (by omega)]
    cases decide (m % 2 ^ k ≠ 0 ∧ 2 * (m % 2 ^ k) ≠ 2 ^ k) <;> rfl
  · rw [if_neg (by omega), if_pos half, decide_eq_true (by omega), decide_eq_false (by omega)]
    rfl
  · rw [if_neg (by omega), if_neg (by omega), decide_eq_true (by omega), decide_eq_true (by omega)]
    rfl

end HaCluster.Clock
