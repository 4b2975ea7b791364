import HaCluster.Power
import HaCluster.Span.Basic

/-!
# Intervals between beats

The beats of a peer come at irregular intervals. From the most recent ones a
normal distribution is estimated, and from that the probability that the next
beat should have come already. Sums are kept in natural numbers, so that
adding and dropping intervals never drifts.

Beats are dated in nanoseconds of the steady clock, and intervals are whole
milliseconds. An interval is never negative, and at most about 49 days. Callers
that read the clock in milliseconds use `start`, `push`, `latest` and
`suspicion?`.
-/

namespace HaCluster.Heartbeat

/-- The longest interval that is kept, in milliseconds. -/
def maxInterval : Nat := twoTo 32 - 1

/-- An instant of the steady clock that is given in milliseconds. -/
def instant (millis : Int) : Int := millis * 1000000

/-- The time from one instant to another one; none if that was before. -/
def since (earlier later : Int) : Span := ⟨(later - earlier).toNat⟩

/-- The whole milliseconds of a span, in 64 bits. -/
def millis (d : Span) : Nat := d.toMillis % twoTo 64

/-- The recent intervals between the beats of one peer. -/
structure Intervals where
  capacity : Nat
  /-- The newest interval comes first. -/
  kept : List Nat
  sum : Nat
  sumOfSquares : Nat
  /-- When the last beat came. -/
  last : Int
  deriving DecidableEq, Inhabited

namespace Intervals

/-- No interval yet; the first beat comes now. -/
def startAt (capacity : Nat) (now : Int) : Intervals := ⟨capacity, [], 0, 0, now⟩

/-- No interval yet; the first beat comes now. -/
def start (capacity : Nat) (at_ : Int) : Intervals := startAt capacity (instant at_)

/-- When the last beat came, in milliseconds. -/
def latest (s : Intervals) : Int := s.last / 1000000

/-- The sum of numbers. -/
def total (l : List Nat) : Nat := l.foldr (fun x y => x + y) 0

/-- Drops the oldest intervals until fewer than the capacity are left. -/
def makeRoom (s : Intervals) : Intervals :=
  let dropped := s.kept.drop (s.capacity - 1)
  { s with
    kept := s.kept.take (s.capacity - 1)
    sum := s.sum - total dropped
    sumOfSquares := s.sumOfSquares - total (dropped.map (fun x => x * x)) }

/-- The interval from one beat to the next one. -/
def interval (earlier later : Int) : Nat := min (millis (since earlier later)) maxInterval

/-- Takes in a beat. The newest interval is kept whatever the capacity. -/
def pushAt (s : Intervals) (now : Int) : Intervals :=
  let s := s.makeRoom
  let x := interval s.last now
  { s with
    kept := x :: s.kept
    sum := s.sum + x
    sumOfSquares := s.sumOfSquares + x * x
    last := now }

/-- Takes in a beat. -/
def push (s : Intervals) (at_ : Int) : Intervals := s.pushAt (instant at_)

/-- The mean of the intervals. -/
def mean (s : Intervals) : Float :=
  Float.ofNat s.sum / Float.ofNat s.kept.length

/-- The greater of two numbers; one that is not a number does not count. -/
def greater (a b : Float) : Float :=
  if a.isNaN then b else if b.isNaN then a else if a < b then b else a

/-- The standard deviation of the intervals. -/
def deviation (s : Intervals) : Float :=
  let m := s.mean
  (greater (Float.ofNat s.sumOfSquares / Float.ofNat s.kept.length - m * m) 0).sqrt

end Intervals

/-- The terms of a power series of the error function from one on: each is
the one before times `2 x² / (2 n + 1)`. -/
def errorSeries (square : Float) : Nat → Float → Float → Float → Float
  | 0, _, _, total => total
  | fuel + 1, n, term, total =>
    let term := term * 2 * square / (2 * n + 1)
    errorSeries square fuel (n + 1) term (total + term)

/-- The error function. Beyond six it cannot be told from one. -/
def erf (x : Float) : Float :=
  if x < 0 then -(positive (-x)) else positive x
where
  /-- The error function of a number that is not negative. -/
  positive (x : Float) : Float :=
    if 6 ≤ x then 1
    else
      let pi : Float := 3.141592653589793
      let y := 2 / pi.sqrt * Float.exp (-(x * x)) * errorSeries (x * x) 200 1 x x
      if 1 < y then 1 else y

/-- The probability that a normally distributed value is at most `x`. -/
def normal (mean deviation x : Float) : Float :=
  0.5 * (1 - erf ((mean - x) / (deviation * Float.sqrt 2)))

/-- The distribution with a mean and a deviation. There is none unless both are
numbers and the deviation is positive. -/
def normal? (mean deviation : Float) : Option (Float → Float) :=
  if mean.isNaN || deviation.isNaN || deviation ≤ 0 then none else some (normal mean deviation)

namespace Intervals

/-- The probability that the next beat should have come before a time, by a
distribution with the mean and the deviation of the intervals. It is known from
the second interval on. -/
def suspicionBy? (distribution? : Float → Float → Option (Float → Float)) (s : Intervals)
    (now : Int) (minDeviation : Span) : Option Float :=
  if s.kept.length < 2 then none
  else
    let elapsed := Float.ofNat (millis (since s.last now))
    let deviation := greater (greater s.deviation (Float.ofNat (millis minDeviation))) 1
    (distribution? s.mean deviation).map (fun atMost => atMost elapsed)

/-- The probability that the next beat should have come before a time. -/
def suspicion? (s : Intervals) (at_ : Int) (minDeviation : Span) : Option Float :=
  s.suspicionBy? normal? (instant at_) minDeviation

end Intervals

end HaCluster.Heartbeat
