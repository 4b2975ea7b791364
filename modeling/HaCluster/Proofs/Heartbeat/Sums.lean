import HaCluster.Heartbeat.Interval
import HaCluster.Proofs.Clock.Whole

/-!
# The sums over the kept intervals

The sums are never taken anew: an interval that goes out is subtracted, one that comes in
is added. They are nevertheless exact after any beats (`Exact`), so that no subtraction
falls below zero, and the cap on the intervals keeps them far below 128 bits
(`push?_eq`). What is kept are the most recent intervals (`kept_foldl`).

The mean of at least one interval is therefore a number, and the deviation that it is
taken with is at least one. From such a mean and deviation a distribution can be made, so
it depends on the number of intervals alone whether a suspicion is known
(`suspicionBy?_eq_none_iff`).
-/

namespace HaCluster.Heartbeat.Intervals

variable {s t : Intervals} {capacity : Nat} {first now : Int} {beats : List Int} {l : List Nat}

/-! ## Exact sums -/

theorem total_eq (l : List Nat) : total l = l.sum := rfl

/-- The squares of numbers. -/
def squares (l : List Nat) : List Nat := l.map (fun x => x * x)

/-- **The state of a history**: the sums are those of the kept intervals, which are short
enough and not too many. -/
structure Exact (s : Intervals) : Prop where
  sum : s.sum = s.kept.sum
  sumOfSquares : s.sumOfSquares = (squares s.kept).sum
  short : ∀ x ∈ s.kept, x ≤ maxInterval
  few : s.kept.length ≤ max 1 s.capacity

theorem exact_startAt (capacity : Nat) (first : Int) : (startAt capacity first).Exact :=
  ⟨rfl, rfl, fun _ hx => absurd hx List.not_mem_nil, Nat.zero_le _⟩

theorem kept_makeRoom (s : Intervals) : s.makeRoom.kept = s.kept.take (s.capacity - 1) := rfl

/-- What goes out is subtracted. -/
theorem Exact.makeRoom (h : s.Exact) : s.makeRoom.Exact where
  sum := by
    have split := s.kept.sum_take_add_sum_drop (s.capacity - 1)
    show s.sum - (s.kept.drop (s.capacity - 1)).sum = (s.kept.take (s.capacity - 1)).sum
    rw [h.sum]
    omega
  sumOfSquares := by
    have split := (squares s.kept).sum_take_add_sum_drop (s.capacity - 1)
    show s.sumOfSquares - (squares (s.kept.drop (s.capacity - 1))).sum
      = (squares (s.kept.take (s.capacity - 1))).sum
    unfold squares at split ⊢
    rw [h.sumOfSquares, List.map_take, List.map_drop]
    unfold squares
    omega
  short x hx := h.short x (List.mem_of_mem_take hx)
  few := by
    rw [kept_makeRoom, List.length_take]
    show min (s.capacity - 1) s.kept.length ≤ max 1 s.capacity
    omega

/-- **A beat keeps the sums exact.** -/
theorem Exact.pushAt (h : s.Exact) (now : Int) : (s.pushAt now).Exact where
  sum := by
    show s.makeRoom.sum + interval s.last now = (interval s.last now :: s.makeRoom.kept).sum
    rw [h.makeRoom.sum, List.sum_cons, Nat.add_comm]
  sumOfSquares := by
    show s.makeRoom.sumOfSquares + interval s.last now * interval s.last now
      = (squares (interval s.last now :: s.makeRoom.kept)).sum
    rw [h.makeRoom.sumOfSquares, Nat.add_comm]
    rfl
  short := by
    intro x hx
    rcases List.mem_cons.1 hx with rfl | hx
    · exact min_le_right _ _
    · exact h.makeRoom.short x hx
  few := by
    show (s.kept.take (s.capacity - 1)).length + 1 ≤ max 1 s.capacity
    rw [List.length_take]
    omega

/-- The history after beats, in the order in which they came. -/
def after (capacity : Nat) (first : Int) (beats : List Int) : Intervals :=
  beats.foldl Intervals.pushAt (startAt capacity first)

theorem Exact.foldl (h : s.Exact) (beats : List Int) :
    (beats.foldl Intervals.pushAt s).Exact := by
  induction beats generalizing s with
  | nil => exact h
  | cons now beats ih => exact ih (h.pushAt now)

theorem capacity_foldl (s : Intervals) (beats : List Int) :
    (beats.foldl Intervals.pushAt s).capacity = s.capacity := by
  induction beats generalizing s with
  | nil => rfl
  | cons now beats ih => exact ih (s.pushAt now)

/-! ## The most recent intervals -/

/-- The intervals from one beat to the next one, newest first. -/
def gaps (first : Int) : List Int → List Nat
  | [] => []
  | now :: beats => gaps now beats ++ [interval first now]

/-- What is beyond a number of items does not show among the first so many. -/
theorem take_append_take (l m : List Nat) (n : Nat) :
    (l ++ m.take n).take n = (l ++ m).take n := by
  rw [List.take_append, List.take_append, List.take_take]
  congr 2
  omega

/-- **Beats push older intervals out**: what is kept are the most recent ones. -/
theorem kept_foldl (h : s.Exact) (beats : List Int) :
    (beats.foldl Intervals.pushAt s).kept
      = (gaps s.last beats ++ s.kept).take (max 1 s.capacity) := by
  induction beats generalizing s with
  | nil => exact (List.take_of_length_le h.few).symm
  | cons now beats ih =>
    have pushed : (s.pushAt now).kept
        = (interval s.last now :: s.kept).take (max 1 s.capacity) := by
      show interval s.last now :: s.kept.take (s.capacity - 1) = _
      rw [show max 1 s.capacity = s.capacity - 1 + 1 by omega, List.take_succ_cons]
    rw [List.foldl_cons, ih (h.pushAt now), pushed]
    show (gaps now beats ++ _).take (max 1 s.capacity) = _
    rw [take_append_take, gaps, List.append_assoc]
    rfl

/-! ## Arithmetic that fails

The same steps in unsigned numbers of 128 bits: a difference below zero fails, and so does a
number that needs more bits. The oldest intervals go out one at a time. -/

/-- A difference, unless it is below zero. -/
def minus? (a b : Nat) : Option Nat := if b ≤ a then some (a - b) else none

/-- A number, unless it needs more than 128 bits. -/
def word? (a : Nat) : Option Nat := if a < twoTo 128 then some a else none

theorem minus?_eq {a b : Nat} (h : b ≤ a) : minus? a b = some (a - b) := if_pos h

theorem word?_eq {a : Nat} (h : a < twoTo 128) : word? a = some a := if_pos h

/-- Drops the oldest interval as long as there is one and no room. -/
def makeRoom? (s : Intervals) : Option Intervals :=
  if s.kept.length < s.capacity then some s
  else
    match _oldest : s.kept.getLast? with
    | none => some s
    | some x => do
      let sum ← minus? s.sum x
      let square ← word? (x * x)
      let sumOfSquares ← minus? s.sumOfSquares square
      makeRoom? { s with kept := s.kept.dropLast, sum, sumOfSquares }
termination_by s.kept.length
decreasing_by
  have some : 0 < s.kept.length := List.length_pos_of_mem (List.mem_of_getLast? _oldest)
  rw [List.length_dropLast]
  omega

/-- Takes in a beat, unless a step fails. -/
def push? (s : Intervals) (now : Int) : Option Intervals := do
  let s ← s.makeRoom?
  let x := interval s.last now
  let sum ← word? (s.sum + x)
  let square ← word? (x * x)
  let sumOfSquares ← word? (s.sumOfSquares + square)
  pure { s with kept := x :: s.kept, sum, sumOfSquares, last := now }

/-- The square of an interval needs 64 bits. -/
theorem square_le {x : Nat} (h : x ≤ maxInterval) : x * x ≤ maxInterval * maxInterval :=
  Nat.mul_le_mul h h

theorem makeRoom_of_room (h : s.kept.length ≤ s.capacity - 1) : s.makeRoom = s := by
  unfold makeRoom
  dsimp only
  rw [List.take_of_length_le h, List.drop_of_length_le h]
  rfl

/-- Where the oldest interval has to go out, it can do so first. -/
theorem makeRoom_concat {x : Nat} (kept : s.kept = l ++ [x]) (full : s.capacity - 1 ≤ l.length) :
    s.makeRoom
      = { s with kept := l, sum := s.sum - x, sumOfSquares := s.sumOfSquares - x * x }.makeRoom := by
  unfold makeRoom
  dsimp only
  rw [kept, List.take_append_of_le_length full, List.drop_append_of_le_length full]
  simp only [total_eq, List.sum_append, List.map_append, List.map_cons, List.map_nil,
    List.sum_singleton]
  congr 1 <;> omega

/-- **No subtraction falls below zero**: dropping the oldest intervals one at a time does not
fail, and leaves what dropping them together leaves. -/
theorem Exact.makeRoom?_eq (h : s.Exact) : s.makeRoom? = some s.makeRoom := by
  induction kept : s.kept using List.reverseRecOn generalizing s with
  | nil =>
    rw [makeRoom_of_room (by simp [kept]), makeRoom?]
    split
    · rfl
    · split
      · rfl
      · next x oldest =>
        rw [kept] at oldest
        cases oldest
  | append_singleton l x ih =>
    rw [makeRoom?]
    by_cases room : s.kept.length < s.capacity
    · rw [if_pos room, makeRoom_of_room (by omega)]
    · have full : s.capacity - 1 ≤ l.length := by
        rw [kept, List.length_append] at room
        simp only [List.length_singleton] at room
        omega
      have sum : s.sum = l.sum + x := by rw [h.sum, kept, List.sum_append, List.sum_singleton]
      have sumOfSquares : s.sumOfSquares = (squares l).sum + x * x := by
        rw [h.sumOfSquares, kept, squares, List.map_append, List.sum_append]
        rfl
      have dropped : Exact { s with
          kept := l, sum := s.sum - x, sumOfSquares := s.sumOfSquares - x * x } :=
        ⟨by dsimp only; omega, by dsimp only; omega,
          fun y hy => h.short y (by rw [kept]; exact List.mem_append_left _ hy),
          (by rw [kept, List.length_append]; omega : l.length ≤ s.kept.length).trans h.few⟩
      have short := square_le (h.short x (by rw [kept]; exact List.mem_concat_self))
      have square : x * x < twoTo 128 := short.trans_lt (by decide)
      rw [if_neg room, makeRoom_concat kept full, ← ih dropped rfl]
      split
      · next none =>
        rw [kept, List.getLast?_concat] at none
        cases none
      · next y oldest =>
        rw [kept, List.getLast?_concat] at oldest
        cases oldest
        rw [minus?_eq (by omega), word?_eq square]
        show (minus? s.sumOfSquares (x * x)).bind _ = _
        rw [minus?_eq (by omega), kept, List.dropLast_concat]
        rfl

/-- No more than so many short intervals have a sum, and a sum of squares, of 128 bits. -/
theorem Exact.fits (h : s.Exact) (usize : s.capacity < twoTo 64) :
    s.sum < twoTo 128 ∧ s.sumOfSquares < twoTo 128 := by
  have few : s.kept.length ≤ twoTo 64 - 1 := h.few.trans (max_le (by decide) (by omega))
  constructor
  · have le := List.sum_le_card_nsmul s.kept maxInterval h.short
    rw [← h.sum, nsmul_eq_mul] at le
    exact (le.trans (Nat.mul_le_mul_right _ few)).trans_lt (by decide)
  · have le := List.sum_le_card_nsmul (squares s.kept) (maxInterval * maxInterval) fun y hy => by
      obtain ⟨x, hx, rfl⟩ := List.mem_map.1 hy
      exact square_le (h.short x hx)
    rw [← h.sumOfSquares, squares, List.length_map, nsmul_eq_mul] at le
    exact (le.trans (Nat.mul_le_mul_right _ few)).trans_lt (by decide)

/-- **No sum overflows.** Taking in a beat does not fail, and does what it does in numbers
without a bound. -/
theorem Exact.push?_eq (h : s.Exact) (usize : s.capacity < twoTo 64) (now : Int) :
    s.push? now = some (s.pushAt now) := by
  obtain ⟨sum, sumOfSquares⟩ := (h.pushAt now).fits usize
  change s.makeRoom.sum + interval s.last now < twoTo 128 at sum
  change s.makeRoom.sumOfSquares + interval s.last now * interval s.last now < twoTo 128
    at sumOfSquares
  unfold push?
  rw [h.makeRoom?_eq]
  show (word? (s.makeRoom.sum + interval s.last now)).bind _ = _
  rw [word?_eq sum]
  show (word? (interval s.last now * interval s.last now)).bind _ = _
  rw [word?_eq (by omega)]
  show (word? (s.makeRoom.sumOfSquares + interval s.last now * interval s.last now)).bind _ = _
  rw [word?_eq sumOfSquares]
  rfl

/-- No step fails in the course of any beats. -/
theorem Exact.foldlM_push? (h : s.Exact) (usize : s.capacity < twoTo 64) (beats : List Int) :
    beats.foldlM push? s = some (beats.foldl Intervals.pushAt s) := by
  induction beats generalizing s with
  | nil => rfl
  | cons now beats ih =>
    rw [List.foldlM_cons, h.push?_eq usize]
    exact ih (h.pushAt now) usize

/-! ## When a suspicion is known -/

/-- What is at least one is a positive number. -/
theorem greater_one (x : Float) : (greater x 1).isNaN = false ∧ ¬ greater x 1 ≤ 0 := by
  have number : (1 : Float).isNaN = false := rfl
  have less : ¬ (1 : Float) < 1 := fun h => by
    rw [Clock.lt_iff, Clock.lt_iff_units (Clock.canonical 1) (Clock.canonical 1) number number] at h
    exact lt_irrefl _ h
  have one : (1 : Float).isNaN = false ∧ ¬ (1 : Float) ≤ 0 := ⟨number, Clock.not_le_zero number less⟩
  unfold greater
  split
  · exact one
  · next number =>
    rw [Bool.not_eq_true] at number
    rw [if_neg (by rw [one.1]; exact Bool.false_ne_true)]
    split
    · exact one
    · next less => exact ⟨number, Clock.not_le_zero number less⟩

/-- The mean of some intervals is a number. -/
theorem Exact.isNaN_mean (h : s.Exact) (usize : s.capacity < twoTo 64) (some : 0 < s.kept.length) :
    s.mean.isNaN = false :=
  Clock.isNaN_quotient (Clock.isNaN_ofNat _) some
    (h.few.trans (max_le (by decide) usize.le))

/-- **A suspicion is known from the second interval on**, by whatever distributions there are for
every number as the mean and every positive number as the deviation. -/
theorem Exact.suspicionBy?_eq_none_iff (h : s.Exact) (usize : s.capacity < twoTo 64)
    {distribution? : Float → Float → Option (Float → Float)}
    (refused : ∀ mean deviation, distribution? mean deviation = none →
      mean.isNaN = true ∨ deviation.isNaN = true ∨ deviation ≤ 0)
    (now : Int) (minDeviation : Span) :
    s.suspicionBy? distribution? now minDeviation = none ↔ s.kept.length < 2 := by
  unfold suspicionBy?
  by_cases few : s.kept.length < 2
  · rw [if_pos few]
    exact iff_of_true rfl few
  · rw [if_neg few]
    refine iff_of_false (fun none => ?_) few
    obtain ⟨number, positive⟩ := greater_one
      (greater s.deviation (Float.ofNat (millis minDeviation)))
    have mean := h.isNaN_mean usize (by omega)
    rcases refused _ _ (Option.map_eq_none_iff.1 none) with nan | nan | le
    · exact absurd (mean.symm.trans nan) Bool.false_ne_true
    · exact absurd (number.symm.trans nan) Bool.false_ne_true
    · exact positive le

/-- **The statistics of any beats are exact**, whatever the capacity and the order of the
instants. The sums are those of the kept intervals, which are the most recent ones, at most
as many as the capacity says (one in any case), and each at most so long. No subtraction
falls below zero and no number needs more than 128 bits on the way. A suspicion is not known
exactly as long as fewer than two intervals are kept. -/
theorem statistics_exact (capacity : Nat) (first : Int) (beats : List Int)
    (usize : capacity < twoTo 64) {distribution? : Float → Float → Option (Float → Float)}
    (refused : ∀ mean deviation, distribution? mean deviation = none →
      mean.isNaN = true ∨ deviation.isNaN = true ∨ deviation ≤ 0) :
    (after capacity first beats).Exact
      ∧ (after capacity first beats).kept = (gaps first beats).take (max 1 capacity)
      ∧ (after capacity first beats).capacity = capacity
      ∧ beats.foldlM push? (startAt capacity first) = some (after capacity first beats)
      ∧ ∀ now minDeviation,
        (after capacity first beats).suspicionBy? distribution? now minDeviation = none
          ↔ (after capacity first beats).kept.length < 2 := by
  have start := exact_startAt capacity first
  have exact : (after capacity first beats).Exact := start.foldl beats
  have room : (after capacity first beats).capacity = capacity := capacity_foldl _ beats
  refine ⟨exact, ?_, room, start.foldlM_push? usize beats, ?_⟩
  · have kept := kept_foldl start beats
    rw [show (startAt capacity first).kept = [] from rfl, List.append_nil] at kept
    exact kept
  · exact exact.suspicionBy?_eq_none_iff (by rw [room]; exact usize) refused

/-- There is a normal distribution for every number and every positive number. -/
theorem normal?_refused (mean deviation : Float) (h : normal? mean deviation = none) :
    mean.isNaN = true ∨ deviation.isNaN = true ∨ deviation ≤ 0 := by
  unfold normal? at h
  split at h
  · next refused => simpa [or_assoc] using refused
  · cases h

/-- The second beat is dated before the first one, and the third one comes after months. -/
theorem statistics_exact_backwards :
    let beats := [instant 1000, instant 400, instant 5000000000]
    let s := after 2 0 beats
    (s.Exact ∧ s.kept = (gaps 0 beats).take (max 1 2) ∧ s.capacity = 2
      ∧ beats.foldlM push? (startAt 2 0) = some s
      ∧ ∀ now minDeviation, s.suspicionBy? normal? now minDeviation = none ↔ s.kept.length < 2)
      ∧ s.kept = [maxInterval, 0] :=
  ⟨statistics_exact 2 0 _ (by decide) normal?_refused, by decide⟩

end HaCluster.Heartbeat.Intervals
