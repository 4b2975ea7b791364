import HaCluster.Proofs.Clock.Rounding

/-!
# The time between two moments

How much time lies between two moments is a difference of doubles, which is
rounded. Rounding keeps the order, so the earlier of two moments lies at least as
long before a third one as the later one does: what has lasted long enough since
the later one has done so since the earlier one, too (`sub_lt_of_le`).

Doubles are compared in units of the smallest positive one, of which every finite
double is a whole number (`units`). An infinity counts as the power of two that
follows the finite doubles.
-/

namespace HaCluster.Clock

open Float.Model (UnpackedFloat Format)
open Float.Model.UnpackedFloat

/-! ## Doubles in units -/

/-- The power of two that follows the finite doubles, in units. -/
def beyond : Nat := 2 ^ 52 * 2 ^ 2046

/-- A double in units of the smallest positive one. -/
def units : UnpackedFloat → Int
  | .notANumber => 0
  | .infinity s => s.apply beyond
  | .zero _ => 0
  | .finite s m e _ => s.apply (m * 2 ^ (e + 1074).toNat : Nat)

/-- A finite double is written with 53 bits, or with the smallest exponent. -/
def Canonical : UnpackedFloat → Prop
  | .finite _ m e _ => m < 2 ^ 53 ∧ (2 ^ 52 ≤ m ∨ e = -1074) ∧ -1074 ≤ e ∧ e ≤ 971
  | _ => True

/-- The leading bit of a mantissa. -/
theorem toNat_leading (m : BitVec 52) : (1#1 ++ m).toNat = 2 ^ 52 + m.toNat := by
  rw [BitVec.toNat_append, ← Nat.shiftLeft_add_eq_or_of_lt m.isLt]
  rfl

/-- Whatever a double is read from, it is written so. -/
theorem canonical_unpack (b : BitVec 64) : Canonical (unpack Format.binary64 b) := by
  let e : BitVec Format.binary64.exponentBits := unpackExponent b
  let m : BitVec Format.binary64.mantissaBitsWithoutImplicit := unpackMantissa b
  have small : m.toNat < 2 ^ 52 := m.isLt
  have bits : e.toNat < 2 ^ 11 := e.isLt
  unfold unpack
  dsimp only
  split
  · split <;> trivial
  · next finite =>
    have largest : e.toNat ≠ 2 ^ 11 - 1 := fun h => finite (BitVec.eq_of_toNat_eq h)
    split
    · next zero =>
      have smallest : e.toNat = 0 := congrArg BitVec.toNat zero
      split
      · trivial
      · show m.toNat < 2 ^ 53 ∧ (2 ^ 52 ≤ m.toNat ∨ (e.toNat : Int) - 1075 + 1 = -1074)
          ∧ -1074 ≤ (e.toNat : Int) - 1075 + 1 ∧ (e.toNat : Int) - 1075 + 1 ≤ 971
        omega
    · next normal =>
      have positive : e.toNat ≠ 0 := fun h => normal (BitVec.eq_of_toNat_eq h)
      have leading : (1#1 ++ m).toNat = 2 ^ 52 + m.toNat := toNat_leading m
      show (1#1 ++ m).toNat < 2 ^ 53 ∧ (2 ^ 52 ≤ (1#1 ++ m).toNat ∨ (e.toNat : Int) - 1075 = -1074)
        ∧ -1074 ≤ (e.toNat : Int) - 1075 ∧ (e.toNat : Int) - 1075 ≤ 971
      omega

/-! ## The order -/

/-- The units of a number that is written so. -/
theorem units_lt {m j m' j' : Nat} (small : m < 2 ^ 53) (long : 2 ^ 52 ≤ m' ) (less : j < j') :
    m * 2 ^ j < m' * 2 ^ j' :=
  calc m * 2 ^ j < 2 ^ 53 * 2 ^ j := Nat.mul_lt_mul_of_pos_right small (Nat.two_pow_pos j)
    _ = 2 ^ 52 * 2 ^ (j + 1) := by rw [← pow_add, ← pow_add]; congr 1; omega
    _ ≤ 2 ^ 52 * 2 ^ j' := Nat.mul_le_mul_left _ (Nat.pow_le_pow_right (by decide) less)
    _ ≤ m' * 2 ^ j' := Nat.mul_le_mul_right _ long

theorem units_le {m j m' j' : Nat} (long : m ≤ m') (less : j ≤ j') : m * 2 ^ j ≤ m' * 2 ^ j' :=
  Nat.mul_le_mul long (Nat.pow_le_pow_right (by decide) less)

/-- Numbers that are written so are compared by their exponents first. -/
theorem compare_finite {m m' : Nat} {e e' : Int} {s s' : Sign} {pos : 0 < m} {pos' : 0 < m'}
    (h : Canonical (.finite s m e pos)) (h' : Canonical (.finite s' m' e' pos')) :
    (compare e e').then (compare m m')
      = compare (m * 2 ^ (e + 1074).toNat) (m' * 2 ^ (e' + 1074).toNat) := by
  obtain ⟨small, long, low, -⟩ := h
  obtain ⟨small', long', low', -⟩ := h'
  rcases Int.lt_trichotomy e e' with less | same | more
  · have units : m * 2 ^ (e + 1074).toNat < m' * 2 ^ (e' + 1074).toNat :=
      units_lt small (long'.resolve_right (by omega)) (by omega)
    rw [compare_lt_iff_lt.2 less, compare_lt_iff_lt.2 units]
    rfl
  · subst same
    rw [compare_eq_iff_eq.2 rfl]
    show compare m m' = _
    rcases Nat.lt_trichotomy m m' with less | same | more
    · rw [compare_lt_iff_lt.2 less,
        compare_lt_iff_lt.2 (Nat.mul_lt_mul_of_pos_right less (Nat.two_pow_pos _))]
    · rw [compare_eq_iff_eq.2 same, compare_eq_iff_eq.2 (congrArg (· * _) same)]
    · rw [compare_gt_iff_gt.2 more,
        compare_gt_iff_gt.2 (Nat.mul_lt_mul_of_pos_right more (Nat.two_pow_pos _))]
  · have units : m' * 2 ^ (e' + 1074).toNat < m * 2 ^ (e + 1074).toNat :=
      units_lt small' (long.resolve_right (by omega)) (by omega)
    rw [compare_gt_iff_gt.2 more, compare_gt_iff_gt.2 units]
    rfl

theorem units_finite {s : Sign} {m : Nat} {e : Int} {pos : 0 < m}
    (h : Canonical (.finite s m e pos)) :
    ∃ u : Nat, units (.finite s m e pos) = s.apply u ∧ 0 < u ∧ u < beyond := by
  obtain ⟨small, -, low, high⟩ := h
  exact ⟨m * 2 ^ (e + 1074).toNat, rfl, by positivity, units_lt small (Nat.le_refl _) (by omega)⟩

section

variable {a b : Int}

theorem some_lt (h : a < b) : some Ordering.lt = some (compare a b) :=
  congrArg some (compare_lt_iff_lt.2 h).symm

theorem some_gt (h : b < a) : some Ordering.gt = some (compare a b) :=
  congrArg some (compare_gt_iff_gt.2 h).symm

theorem some_eq (h : a = b) : some Ordering.eq = some (compare a b) :=
  congrArg some (compare_eq_iff_eq.2 h).symm

end

/-- Finite doubles are compared as their units are. -/
theorem compare_units_finite {s s' : Sign} {m m' : Nat} {e e' : Int} {pos : 0 < m} {pos' : 0 < m'}
    (h : Canonical (.finite s m e pos)) (h' : Canonical (.finite s' m' e' pos')) :
    UnpackedFloat.compare (.finite s m e pos) (.finite s' m' e' pos')
      = some (compare (units (.finite s m e pos)) (units (.finite s' m' e' pos'))) := by
  have order := compare_finite h h'
  have here : units (.finite s m e pos) = s.apply (m * 2 ^ (e + 1074).toNat : Nat) := rfl
  have there : units (.finite s' m' e' pos') = s'.apply (m' * 2 ^ (e' + 1074).toNat : Nat) := rfl
  have positive : 0 < m * 2 ^ (e + 1074).toNat := by positivity
  have positive' : 0 < m' * 2 ^ (e' + 1074).toNat := by positivity
  rw [here, there]
  generalize m * 2 ^ (e + 1074).toNat = u at order positive
  generalize m' * 2 ^ (e' + 1074).toNat = u' at order positive'
  cases s <;> cases s'
  · show some ((compare e e').then (compare m m')).swap = some (compare (-(u : Int)) (-u'))
    rw [order, Nat.compare_swap]
    rcases Nat.lt_trichotomy u u' with less | same | more
    · rw [compare_gt_iff_gt.2 less]
      exact some_gt (by omega)
    · rw [compare_eq_iff_eq.2 same.symm]
      exact some_eq (by omega)
    · rw [compare_lt_iff_lt.2 more]
      exact some_lt (by omega)
  · exact some_lt (show -(u : Int) < u' by omega)
  · exact some_gt (show -(u' : Int) < u by omega)
  · show some ((compare e e').then (compare m m')) = some (compare (u : Int) u')
    rw [order]
    rcases Nat.lt_trichotomy u u' with less | same | more
    · rw [compare_lt_iff_lt.2 less]
      exact some_lt (by omega)
    · rw [compare_eq_iff_eq.2 same]
      exact some_eq (by omega)
    · rw [compare_gt_iff_gt.2 more]
      exact some_gt (by omega)

theorem beyond_pos : 0 < beyond := by
  unfold beyond
  positivity

/-- The infinite doubles lie around the others. -/
theorem compare_units_infinity (s : Sign) {y : UnpackedFloat} (hy : Canonical y)
    (num : y.isNaN = false) :
    UnpackedFloat.compare (.infinity s) y = some (compare (units (.infinity s)) (units y)) := by
  have positive := beyond_pos
  rw [show units (.infinity s) = s.apply beyond from rfl]
  cases y with
  | notANumber => cases num
  | infinity s' =>
    rw [show units (.infinity s') = s'.apply beyond from rfl]
    cases s <;> cases s'
    · exact some_eq rfl
    · exact some_lt (show -(beyond : Int) < beyond by omega)
    · exact some_gt (show -(beyond : Int) < beyond by omega)
    · exact some_eq rfl
  | zero s' =>
    cases s
    · exact some_lt (show -(beyond : Int) < 0 by omega)
    · exact some_gt (show 0 < (beyond : Int) by omega)
  | finite s' m' e' pos' =>
    obtain ⟨u, there, -, small⟩ := units_finite hy
    rw [there]
    cases s <;> cases s'
    · exact some_lt (show -(beyond : Int) < -u by omega)
    · exact some_lt (show -(beyond : Int) < u by omega)
    · exact some_gt (show -(u : Int) < beyond by omega)
    · exact some_gt (show (u : Int) < beyond by omega)

/-- The zeros lie between the signs, and are one. -/
theorem compare_units_zero (s : Sign) {y : UnpackedFloat} (hy : Canonical y)
    (num : y.isNaN = false) :
    UnpackedFloat.compare (.zero s) y = some (compare (units (.zero s)) (units y)) := by
  have positive := beyond_pos
  cases y with
  | notANumber => cases num
  | infinity s' =>
    cases s'
    · exact some_gt (show -(beyond : Int) < 0 by omega)
    · exact some_lt (show 0 < (beyond : Int) by omega)
  | zero s' => exact some_eq rfl
  | finite s' m' e' pos' =>
    obtain ⟨u, there, large, -⟩ := units_finite hy
    rw [there]
    cases s'
    · exact some_gt (show -(u : Int) < 0 by omega)
    · exact some_lt (show 0 < (u : Int) by omega)

/-- **Doubles are compared as their units are.** -/
theorem compare_units {x y : UnpackedFloat} (hx : Canonical x) (hy : Canonical y)
    (num : x.isNaN = false) (num' : y.isNaN = false) :
    x.compare y = some (compare (units x) (units y)) := by
  cases x with
  | notANumber => cases num
  | infinity s => exact compare_units_infinity s hy num'
  | zero s => exact compare_units_zero s hy num'
  | finite s m e pos =>
    obtain ⟨u, here, large, small⟩ := units_finite hx
    cases y with
    | notANumber => cases num'
    | infinity s' =>
      rw [show units (.infinity s') = s'.apply beyond from rfl, here]
      cases s <;> cases s'
      · exact some_gt (show -(beyond : Int) < -u by omega)
      · exact some_lt (show -(u : Int) < beyond by omega)
      · exact some_gt (show -(beyond : Int) < u by omega)
      · exact some_lt (show (u : Int) < beyond by omega)
    | zero s' =>
      rw [here]
      cases s
      · exact some_lt (show -(u : Int) < 0 by omega)
      · exact some_gt (show 0 < (u : Int) by omega)
    | finite s' m' e' pos' => exact compare_units_finite hx hy

theorem lt_iff_units {x y : UnpackedFloat} (hx : Canonical x) (hy : Canonical y)
    (num : x.isNaN = false) (num' : y.isNaN = false) : x.lt y = true ↔ units x < units y := by
  unfold UnpackedFloat.lt
  rw [compare_units hx hy num num', ← compare_lt_iff_lt]
  cases compare (units x) (units y) <;> simp

theorem le_iff_units {x y : UnpackedFloat} (hx : Canonical x) (hy : Canonical y)
    (num : x.isNaN = false) (num' : y.isNaN = false) : x.le y = true ↔ units x ≤ units y := by
  unfold UnpackedFloat.le
  rw [compare_units hx hy num num', ← compare_le_iff_le]
  cases compare (units x) (units y) <;> simp

/-! ## Packing -/

theorem unpackSign_packComponents {spec : Format} (s : Sign) (e : BitVec spec.exponentBits)
    (m : BitVec spec.mantissaBitsWithoutImplicit) :
    Sign.ofBitVec (unpackSign (packComponents spec s e m)) = s := by
  have kept : unpackSign (packComponents spec s e m) = s.toBitVec := by
    apply BitVec.eq_of_getLsbD_eq
    intro i hi
    obtain rfl : i = 0 := by omega
    simp [unpackSign, packComponents, BitVec.getLsbD_append, BitVec.getElem_append]
  rw [kept]
  cases s <;> rfl

theorem finite_congr {s : Sign} {m m' : Nat} {e e' : Int} {pos : 0 < m} {pos' : 0 < m'}
    (mantissa : m = m') (exponent : e = e') :
    UnpackedFloat.finite s m e pos = .finite s m' e' pos' := by
  subst mantissa exponent
  rfl

theorem unpack_pack_zero (s : Sign) :
    unpack Format.binary64 (pack Format.binary64 (.zero s)) = .zero s := by
  cases s <;> rfl

theorem unpack_pack_infinity (s : Sign) :
    unpack Format.binary64 (packedInfinity Format.binary64 s) = .infinity s := by
  cases s <;> rfl

/-- A double with a leading bit. -/
theorem unpack_pack_normal {s : Sign} {m : Nat} {e : Int} {pos : 0 < m} (small : m < 2 ^ 53)
    (long : 2 ^ 52 ≤ m) (low : -1074 ≤ e) (high : e ≤ 971) :
    unpack Format.binary64 (pack Format.binary64 (.finite s m e pos)) = .finite s m e pos := by
  have bits : m.log2 + 1 = 53 := by
    have less := (Nat.log2_lt pos.ne').2 small
    have more := (Nat.le_log2 pos.ne').2 long
    omega
  let b : BitVec Format.binary64.exponentBits := BitVec.ofNat _ (e + 1023 + 52).toNat
  have biased : b.toNat = (e + 1023 + 52).toNat := by
    show (e + 1023 + 52).toNat % 2 ^ 11 = _
    rw [Nat.mod_eq_of_lt (by omega)]
  have packed : pack Format.binary64 (.finite s m e pos)
      = packComponents Format.binary64 s b (BitVec.ofNat _ m) := by
    have fits : ¬ 2 ^ 11 ≤ (e + 1023 + 52).toNat + 1 := by omega
    exact (if_neg fits).trans (if_pos bits)
  have some : b ≠ 0#_ := fun none => by
    have zero : b.toNat = 0 := congrArg BitVec.toNat none
    omega
  have finite : b ≠ -1#_ := fun all => by
    have ones : b.toNat = 2 ^ 11 - 1 := congrArg BitVec.toNat all
    omega
  have leading : (1#1 ++ BitVec.ofNat 52 m).toNat = m := by
    rw [toNat_leading, BitVec.toNat_ofNat]
    omega
  rw [packed]
  unfold unpack
  simp only [unpackMantissa_packComponents, unpackExponent_packComponents,
    unpackSign_packComponents, finite, some, if_false]
  refine finite_congr leading ?_
  show (b.toNat : Int) - 1075 = e
  omega

/-- A double with the smallest exponent. -/
theorem unpack_pack_subnormal {s : Sign} {m : Nat} {e : Int} {pos : 0 < m} (small : m < 2 ^ 52)
    (least : e = -1074) :
    unpack Format.binary64 (pack Format.binary64 (.finite s m e pos)) = .finite s m e pos := by
  have bits : m.log2 + 1 ≠ 53 := by
    have less := (Nat.log2_lt pos.ne').2 small
    omega
  let v : BitVec Format.binary64.mantissaBitsWithoutImplicit := BitVec.ofNat _ m
  have kept : v.toNat = m := by
    show m % 2 ^ 52 = m
    omega
  have packed : pack Format.binary64 (.finite s m e pos)
      = packComponents Format.binary64 s 0#_ v := by
    have fits : ¬ 2 ^ 11 ≤ (e + 1023 + 52).toNat + 1 := by omega
    exact (if_neg fits).trans (if_neg bits)
  have some : v ≠ 0#_ := fun none => by
    have zero : v.toNat = 0 := congrArg BitVec.toNat none
    omega
  rw [packed]
  unfold unpack
  simp only [unpackMantissa_packComponents, unpackExponent_packComponents,
    unpackSign_packComponents, some, if_false, if_true, dif_neg, not_false_eq_true]
  exact finite_congr kept least.symm

/-- **What is packed is unpacked**, if it is written in the way of finite doubles. -/
theorem unpack_pack_finite {s : Sign} {m : Nat} {e : Int} {pos : 0 < m}
    (h : Canonical (.finite s m e pos)) :
    unpack Format.binary64 (pack Format.binary64 (.finite s m e pos)) = .finite s m e pos := by
  obtain ⟨small, long, low, high⟩ := h
  by_cases normal : 2 ^ 52 ≤ m
  · exact unpack_pack_normal small normal low high
  · exact unpack_pack_subnormal (by omega) (long.resolve_left normal)

/-- A finite double that is packed is cut off where the infinite ones begin. -/
theorem units_pack {s : Sign} {m : Nat} {e : Int} {pos : 0 < m} (small : m < 2 ^ 53)
    (long : 2 ^ 52 ≤ m ∨ e = -1074) (low : -1074 ≤ e) :
    (unpack Format.binary64 (pack Format.binary64 (.finite s m e pos))).isNaN = false
      ∧ units (unpack Format.binary64 (pack Format.binary64 (.finite s m e pos)))
        = s.apply (min (m * 2 ^ (e + 1074).toNat) beyond : Nat) := by
  by_cases high : e ≤ 971
  · have below : m * 2 ^ (e + 1074).toNat < beyond := units_lt small (Nat.le_refl _) (by omega)
    rw [unpack_pack_finite ⟨small, long, low, high⟩, min_eq_left below.le]
    exact ⟨rfl, rfl⟩
  · have overflow : pack Format.binary64 (.finite s m e pos) = packedInfinity Format.binary64 s := by
      have past : 2 ^ 11 ≤ (e + 1023 + 52).toNat + 1 := by omega
      exact if_pos past
    have above : beyond ≤ m * 2 ^ (e + 1074).toNat :=
      units_le (long.resolve_right (by omega)) (by omega)
    rw [overflow, unpack_pack_infinity, min_eq_right above]
    exact ⟨rfl, rfl⟩

/-! ## Differences -/

theorem targetExponent_eq (t : Int) :
    Format.binary64.targetExponent t = max (t - 53) (-1074) := rfl

/-- Bits for which there is no room are dropped. -/
theorem shiftToTargetExponent_eq {m k : Nat} {e : Int}
    (room : (Format.binary64.targetExponent (Float.Model.totalExponent m e) - e).toNat = k) :
    shiftToTargetExponent Format.binary64 m e .exact
      = ((⟨m, false, false⟩ : ExtendedMantissa) >>> k, e + k) := by
  unfold shiftToTargetExponent shiftToExponent
  dsimp only
  rw [room]
  rfl

/-- There is room for 53 bits. -/
theorem shift_fits {r : Nat} {t : Int} (fits : r < 2 ^ 53) (low : -1074 ≤ t) :
    shiftToTargetExponent Format.binary64 r t .exact = (⟨r, false, false⟩, t) := by
  have none : (Format.binary64.targetExponent (Float.Model.totalExponent r t) - t).toNat = 0 := by
    have bits : r.log2 < 53 := by
      rcases Nat.eq_zero_or_pos r with rfl | pos
      · decide
      · exact (Nat.log2_lt pos.ne').2 fits
    rw [targetExponent_eq]
    unfold Float.Model.totalExponent
    omega
  rw [shiftToTargetExponent_eq none, Int.natCast_zero, add_zero]
  rfl

/-- What is rounded up to the next power of two has one bit too many. -/
theorem shift_carried {t : Int} (low : -1074 ≤ t) :
    shiftToTargetExponent Format.binary64 (2 ^ 53) t .exact
      = (⟨2 ^ 52, false, false⟩, t + 1) := by
  have one : (Format.binary64.targetExponent (Float.Model.totalExponent (2 ^ 53) t) - t).toNat
      = 1 := by
    rw [targetExponent_eq]
    unfold Float.Model.totalExponent
    rw [Nat.log2_two_pow]
    omega
  rw [shiftToTargetExponent_eq one]
  rfl

/-- **A number of units is rounded**, and cut off where the infinite doubles
begin. -/
theorem units_roundWithAccuracy (s : Sign) {m : Nat} {e : Int} (pos : 0 < m) (low : -1074 ≤ e)
    (le : e ≤ Format.binary64.targetExponent (Float.Model.totalExponent m e)) :
    (unpack Format.binary64 (pack Format.binary64
        (roundWithAccuracy Format.binary64 s m e .exact))).isNaN = false
      ∧ units (unpack Format.binary64 (pack Format.binary64
        (roundWithAccuracy Format.binary64 s m e .exact)))
        = s.apply (min (rounded (m * 2 ^ (e + 1074).toNat)) beyond : Nat) := by
  generalize target : Format.binary64.targetExponent (Float.Model.totalExponent m e) = t at le
  have least : t = max (((m.log2 : Int) + 1 + e) - 53) (-1074) := target.symm
  have dropped : (m * 2 ^ (e + 1074).toNat).log2 - 52 = (t - e).toNat + (e + 1074).toNat := by
    rw [log2_scale pos.ne']
    omega
  have kept : (t - e).toNat + (e + 1074).toNat = (t + 1074).toNat := by omega
  have result : rounded (m * 2 ^ (e + 1074).toNat)
      = nearest m (t - e).toNat * 2 ^ (t + 1074).toNat := by
    unfold rounded
    rw [dropped, nearest_scale, kept]
  obtain ⟨bounded, long⟩ := nearest_bounds (m * 2 ^ (e + 1074).toNat)
  rw [dropped, nearest_scale] at bounded long
  have some : nearest m (t - e).toNat ≠ 0 := by
    rcases long with long | all
    · exact (Nat.lt_of_lt_of_le (by decide) long).ne'
    · -- nothing was dropped
      rw [show (t - e).toNat = 0 by omega, nearest_zero]
      exact pos.ne'
  unfold roundWithAccuracy
  rw [shiftToTargetExponent_eq (congrArg (fun t => (t - e).toNat) target), result]
  dsimp only
  rw [roundedMantissa_shiftRight, Int.toNat_of_nonneg (by omega), add_sub_cancel]
  generalize nearest m (t - e).toNat = r at *
  rcases Nat.lt_or_eq_of_le bounded with fits | rfl
  · rw [shift_fits fits (by omega)]
    dsimp only
    rw [dif_neg some]
    exact units_pack fits (by omega) (by omega)
  · have moved : 2 ^ 53 * 2 ^ (t + 1074).toNat = 2 ^ 52 * 2 ^ (t + 1 + 1074).toNat := by
      rw [← pow_add, ← pow_add]
      congr 1
      omega
    rw [shift_carried (by omega), moved]
    dsimp only
    rw [dif_neg (by decide)]
    exact units_pack (by decide) (.inl (Nat.le_refl _)) (by omega)

/-- **A double is rounded** as the number of its units is. -/
theorem units_round (s : Sign) {m : Nat} {e : Int} (pos : 0 < m) (low : -1074 ≤ e) :
    (unpack Format.binary64 (pack Format.binary64 (round Format.binary64 s m e))).isNaN = false
      ∧ units (unpack Format.binary64 (pack Format.binary64 (round Format.binary64 s m e)))
        = s.apply (min (rounded (m * 2 ^ (e + 1074).toNat)) beyond : Nat) := by
  obtain ⟨a, shift⟩ : ∃ a, a = (e - Format.binary64.targetExponent
    (Float.Model.totalExponent m e)).toNat := ⟨_, rfl⟩
  -- zeros are appended to a short mantissa first, which changes no number
  have appended : round Format.binary64 s m e
      = roundWithAccuracy Format.binary64 s (m * 2 ^ a) (e - a) .exact := by
    rw [← Nat.shiftLeft_eq, shift]
    rfl
  have total : Float.Model.totalExponent (m * 2 ^ a) (e - a)
      = Float.Model.totalExponent m e := by
    unfold Float.Model.totalExponent
    rw [log2_scale pos.ne']
    omega
  have least := targetExponent_eq (Float.Model.totalExponent m e)
  have same : m * 2 ^ (e + 1074).toNat = m * 2 ^ a * 2 ^ (e - a + 1074).toNat := by
    rw [mul_assoc, ← pow_add]
    congr 2
    omega
  rw [appended, same]
  exact units_roundWithAccuracy s (by positivity) (by omega) (by rw [total]; omega)

/-- Rounding of a whole number of units, cut off where the infinite doubles
begin. -/
def roundedInt (n : Int) : Int := n.sign * (min (rounded n.natAbs) beyond : Nat)

theorem roundedInt_natCast (u : Nat) : roundedInt u = (min (rounded u) beyond : Nat) := by
  unfold roundedInt
  rw [Int.natAbs_natCast]
  rcases Nat.eq_zero_or_pos u with rfl | pos
  · rw [show rounded 0 = 0 by decide, Nat.zero_min]
    rfl
  · rw [Int.sign_natCast_of_ne_zero pos.ne', one_mul]

theorem roundedInt_zero : roundedInt 0 = 0 := by
  unfold roundedInt
  rw [Int.sign_zero, zero_mul]

theorem roundedInt_neg (n : Int) : roundedInt (-n) = -roundedInt n := by
  unfold roundedInt
  rw [Int.sign_neg, Int.natAbs_neg, neg_mul]

theorem roundedInt_apply (s : Sign) (u : Nat) :
    roundedInt (s.apply u) = s.apply (min (rounded u) beyond : Nat) := by
  cases s
  · exact (roundedInt_neg u).trans (congrArg _ (roundedInt_natCast u))
  · exact roundedInt_natCast u

/-- Rounding keeps the order on both sides of zero. -/
theorem roundedInt_le {a b : Int} (h : a ≤ b) : roundedInt a ≤ roundedInt b := by
  have kept {u v : Nat} (le : u ≤ v) : min (rounded u) beyond ≤ min (rounded v) beyond :=
    min_le_min_right _ (rounded_le le)
  obtain ⟨u, rfl | rfl⟩ := a.eq_nat_or_neg <;> obtain ⟨v, rfl | rfl⟩ := b.eq_nat_or_neg
  · rw [roundedInt_natCast, roundedInt_natCast]
    exact Int.ofNat_le.2 (kept (by omega))
  · obtain ⟨rfl, rfl⟩ : u = 0 ∧ v = 0 := by omega
    rfl
  · rw [roundedInt_neg, roundedInt_natCast, roundedInt_natCast]
    omega
  · have := kept (show v ≤ u by omega)
    rw [roundedInt_neg, roundedInt_neg, roundedInt_natCast, roundedInt_natCast]
    omega

/-- A finite double has the units of a double. -/
theorem roundedInt_units {x : UnpackedFloat} (h : Canonical x) (finite : x.isFinite = true) :
    roundedInt (units x) = units x := by
  cases x with
  | notANumber => cases finite
  | infinity s => cases finite
  | zero s => exact roundedInt_zero
  | finite s m e pos =>
    obtain ⟨small, -, low, high⟩ := h
    have below : m * 2 ^ (e + 1074).toNat < beyond := units_lt small (Nat.le_refl _) (by omega)
    show roundedInt (s.apply (m * 2 ^ (e + 1074).toNat : Nat)) = _
    rw [roundedInt_apply, rounded_of_lt small, min_eq_left below.le]
    rfl

theorem units_neg (s : Sign) {m : Nat} {e : Int} {pos : 0 < m} :
    units (.finite (-s) m e pos) = -units (.finite s m e pos) := by
  cases s
  · exact (neg_neg _).symm
  · rfl

/-- A finite double survives packing. -/
theorem units_kept {x : UnpackedFloat} (h : Canonical x) (finite : x.isFinite = true) :
    (unpack Format.binary64 (pack Format.binary64 x)).isNaN = false
      ∧ units (unpack Format.binary64 (pack Format.binary64 x)) = roundedInt (units x) := by
  rw [roundedInt_units h finite]
  cases x with
  | notANumber => cases finite
  | infinity s => cases finite
  | zero s =>
    rw [unpack_pack_zero]
    exact ⟨rfl, rfl⟩
  | finite s m e pos =>
    rw [unpack_pack_finite h]
    exact ⟨rfl, rfl⟩

theorem normalize_apply (s : Sign) {u : Nat} (pos : 0 < u) (e : Int) (zeroSign : Sign) :
    UnpackedFloat.normalize Format.binary64 (s.apply u) e zeroSign
      = round Format.binary64 s u e := by
  unfold UnpackedFloat.normalize
  cases s
  · have less : Sign.negative.apply u < 0 := by
      show -(u : Int) < 0
      omega
    rw [compare_lt_iff_lt.2 less]
    show round Format.binary64 .negative (- -(u : Int)).toNat e = _
    rw [neg_neg, Int.toNat_natCast]
  · have more : 0 < Sign.positive.apply u := by
      show 0 < (u : Int)
      omega
    rw [compare_gt_iff_gt.2 more]
    rfl

theorem apply_mul (s : Sign) (u c : Nat) : s.apply u * (c : Int) = s.apply (u * c : Nat) := by
  cases s
  · show -(u : Int) * c = -((u * c : Nat) : Int)
    rw [Nat.cast_mul, neg_mul]
  · exact (Nat.cast_mul u c).symm

/-- A mantissa with a sign is rounded as the number of its units is. -/
theorem units_normalize (n : Int) {e : Int} (low : -1074 ≤ e) :
    (unpack Format.binary64 (pack Format.binary64
        (UnpackedFloat.normalize Format.binary64 n e .positive))).isNaN = false
      ∧ units (unpack Format.binary64 (pack Format.binary64
          (UnpackedFloat.normalize Format.binary64 n e .positive)))
        = roundedInt (n * (2 ^ (e + 1074).toNat : Nat)) := by
  rcases eq_or_ne n 0 with rfl | some
  · have zero : UnpackedFloat.normalize Format.binary64 0 e .positive = .zero .positive := by
      unfold UnpackedFloat.normalize
      rw [compare_eq_iff_eq.2 rfl]
    rw [zero, unpack_pack_zero, zero_mul, roundedInt_zero]
    exact ⟨rfl, rfl⟩
  · obtain ⟨s, u, rfl⟩ : ∃ (s : Sign) (u : Nat), n = s.apply u := by
      obtain ⟨u, rfl | rfl⟩ := n.eq_nat_or_neg
      · exact ⟨.positive, u, rfl⟩
      · exact ⟨.negative, u, rfl⟩
    have pos : 0 < u := Nat.pos_of_ne_zero (by rintro rfl; cases s <;> exact some rfl)
    rw [normalize_apply s pos, apply_mul, roundedInt_apply]
    exact units_round s pos low

/-- **A difference is the difference of the units**, rounded. -/
theorem units_sub {x y : UnpackedFloat} (hx : Canonical x) (hy : Canonical y)
    (finite : x.isFinite = true) (finite' : y.isFinite = true) :
    (unpack Format.binary64 (pack Format.binary64 (UnpackedFloat.sub Format.binary64 x y))).isNaN
        = false
      ∧ units (unpack Format.binary64
          (pack Format.binary64 (UnpackedFloat.sub Format.binary64 x y)))
        = roundedInt (units x - units y) := by
  cases x with
  | notANumber => cases finite
  | infinity s => cases finite
  | zero s =>
    cases y with
    | notANumber => cases finite'
    | infinity s' => cases finite'
    | zero s' =>
      show _ ∧ _ = roundedInt (0 - 0)
      rw [sub_zero, roundedInt_zero]
      cases s <;> cases s' <;> exact ⟨rfl, rfl⟩
    | finite s' m' e' pos' =>
      show _ ∧ _ = roundedInt (0 - units (.finite s' m' e' pos'))
      rw [zero_sub, ← units_neg]
      exact units_kept (x := .finite (-s') m' e' pos') hy rfl
  | finite s m e pos =>
    cases y with
    | notANumber => cases finite'
    | infinity s' => cases finite'
    | zero s' =>
      show _ ∧ _ = roundedInt (units (.finite s m e pos) - 0)
      rw [sub_zero]
      exact units_kept hx rfl
    | finite s' m' e' pos' =>
      obtain ⟨-, -, low, -⟩ := hx
      obtain ⟨-, -, low', -⟩ := hy
      let n : Int := s.apply (m <<< (e - min e e').toNat : Nat)
        - s'.apply (m' <<< (e' - min e e').toNat : Nat)
      have scaled : units (.finite s m e pos) - units (.finite s' m' e' pos')
          = n * (2 ^ (min e e' + 1074).toNat : Nat) := by
        rw [sub_mul, apply_mul, apply_mul, Nat.shiftLeft_eq, Nat.shiftLeft_eq, mul_assoc,
          mul_assoc, ← pow_add, ← pow_add,
          show (e - min e e').toNat + (min e e' + 1074).toNat = (e + 1074).toNat by omega,
          show (e' - min e e').toNat + (min e e' + 1074).toNat = (e' + 1074).toNat by omega]
        rfl
      rw [scaled]
      exact units_normalize n (by omega)

/-! ## The time that has passed -/

section

variable {a b t u p : Float}

theorem lt_iff : a < b ↔ a.toModel.unpack.lt b.toModel.unpack = true := by
  show Float.lt a b = true ↔ _
  unfold Float.lt
  rw [decide_eq_true_iff]
  exact Iff.rfl

theorem le_iff : a ≤ b ↔ a.toModel.unpack.le b.toModel.unpack = true := by
  show Float.le a b = true ↔ _
  unfold Float.le
  rw [decide_eq_true_iff]
  exact Iff.rfl

theorem canonical (a : Float) : Canonical a.toModel.unpack := canonical_unpack _

theorem isNaN_of_isFinite {x : UnpackedFloat} (finite : x.isFinite = true) : x.isNaN = false := by
  cases x with
  | notANumber => cases finite
  | infinity s => rfl
  | zero s => rfl
  | finite s m e pos => rfl

/-- What is more than a number is a number. -/
theorem isNaN_of_lt {x y : UnpackedFloat} (h : x.lt y = true) : y.isNaN = false := by
  cases y with
  | notANumber => cases x <;> cases h
  | infinity s => rfl
  | zero s => rfl
  | finite s m e pos => rfl

/-- **More time has passed since the earlier moment**: what took less than a while
from then took less than the while from a later moment. -/
theorem sub_lt_of_le (finite : a.isFinite = true) (finite' : u.isFinite = true)
    (finite'' : t.isFinite = true) (le : a ≤ u) (less : t - a < p) : t - u < p := by
  obtain ⟨num, since⟩ := units_sub (canonical t) (canonical a) finite'' finite
  obtain ⟨num', since'⟩ := units_sub (canonical t) (canonical u) finite'' finite'
  have earlier : units a.toModel.unpack ≤ units u.toModel.unpack :=
    (le_iff_units (canonical a) (canonical u) (isNaN_of_isFinite finite)
      (isNaN_of_isFinite finite')).1 (le_iff.1 le)
  have shorter : units (t - u).toModel.unpack ≤ units (t - a).toModel.unpack := by
    calc units (t - u).toModel.unpack
        = roundedInt (units t.toModel.unpack - units u.toModel.unpack) := since'
      _ ≤ roundedInt (units t.toModel.unpack - units a.toModel.unpack) :=
        roundedInt_le (Int.sub_le_sub_left earlier _)
      _ = units (t - a).toModel.unpack := since.symm
  have number := isNaN_of_lt (lt_iff.1 less)
  refine lt_iff.2 ((lt_iff_units (canonical (t - u)) (canonical p) num' number).2 ?_)
  exact shorter.trans_lt ((lt_iff_units (canonical (t - a)) (canonical p) num number).1
    (lt_iff.1 less))

end

end HaCluster.Clock
