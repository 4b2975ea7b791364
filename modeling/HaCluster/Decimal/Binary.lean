import HaCluster.Power

/-!
# Doubles as binary fractions

A finite double is `± mantissa · 2 ^ exponent` exactly. The decimal texts of
this library are computed from that reading in natural numbers, never by
floating-point arithmetic.
-/

namespace HaCluster.Decimal

/-- The magnitude of a finite double: `mantissa · 2 ^ exponent`. -/
structure Binary where
  mantissa : Nat
  exponent : Int
  /-- Whether the next double below is only half as far away as the next one
  above, as it is at a power of two. -/
  atPowerOfTwo : Bool
  deriving DecidableEq, Inhabited

/-- Whether the sign of a double is minus; zero and the number that is not a
number have signs too. -/
def isNegative (x : Float) : Bool :=
  x.toBits.toNat ≥ twoTo 63

/-- Reads the magnitude of a finite double off its bits. -/
def Binary.ofFloat (x : Float) : Binary :=
  let bits := x.toBits.toNat % twoTo 63
  let fraction := bits % twoTo 52
  let scale : Nat := bits / twoTo 52
  if scale = 0 then ⟨fraction, -1074, false⟩
  else ⟨twoTo 52 + fraction, (scale : Int) - 1075, fraction == 0 && scale != 1⟩

/-- The power with an exponent that may be negative, as a fraction. -/
def power (base : Nat) (e : Int) : Nat × Nat :=
  if e < 0 then (1, Nat.pow base e.natAbs) else (Nat.pow base e.natAbs, 1)

end HaCluster.Decimal
