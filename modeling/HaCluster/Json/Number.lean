import HaCluster.Power
import HaCluster.Json.Document

/-!
# Reading numbers

A numeral is the token of a number: sign, digits before and after the point,
and an exponent. Without point and exponent it is an integer as long as 64
bits hold it; `-0` and everything else are floating-point numbers.

A floating-point number is read with one rounding of its digits and one of
the scaling. The digits are gathered while 64 bits hold them; those that
follow count only for the place of the point. The scaling multiplies or
divides by a power of ten, and a numeral beyond the greatest double is no
number at all.
-/

namespace HaCluster.Json

/-- The token of a number. Digits are given by their values. -/
structure Numeral where
  negative : Bool
  whole : List Nat
  fraction : List Nat
  exponent : Option (Bool × List Nat)
  deriving DecidableEq, Inhabited

/-- The value of a decimal digit. -/
def digitValue (c : Char) : Nat := c.toNat - '0'.toNat

/-- Splits the digits off the front of a text. -/
def takeDigits (cs : List Char) : List Nat × List Char :=
  ((cs.takeWhile Char.isDigit).map digitValue, cs.dropWhile Char.isDigit)

/-- The number that digits stand for. -/
def ofDigits (ds : List Nat) : Nat :=
  ds.foldl (fun n d => 10 * n + d) 0

/-- Reads the digits before the point: a zero alone, or digits that do not
begin with zero. -/
def readWhole (cs : List Char) : Option (List Nat × List Char) :=
  match takeDigits cs with
  | ([], _) => none
  | (0 :: _ :: _, _) => none
  | r => some r

/-- Reads a point and the digits after it, if there is a point. -/
def readFraction : List Char → Option (List Nat × List Char)
  | '.' :: cs =>
    match takeDigits cs with
    | ([], _) => none
    | r => some r
  | cs => some ([], cs)

/-- Reads an exponent, if there is one. -/
def readExponent : List Char → Option (Option (Bool × List Nat) × List Char)
  | c :: cs =>
    if c = 'e' ∨ c = 'E' then
      let (minus, ds) := match cs with
        | '+' :: ds => (false, ds)
        | '-' :: ds => (true, ds)
        | ds => (false, ds)
      match takeDigits ds with
      | ([], _) => none
      | (digits, rest) => some (some (minus, digits), rest)
    else some (none, c :: cs)
  | [] => some (none, [])

/-- Reads the token of a number off the front of a text. -/
def readNumeral (cs : List Char) : Option (Numeral × List Char) := do
  let (negative, cs) := match cs with
    | '-' :: rest => (true, rest)
    | rest => (false, rest)
  let (whole, cs) ← readWhole cs
  let (fraction, cs) ← readFraction cs
  let (exponent, cs) ← readExponent cs
  pure (⟨negative, whole, fraction, exponent⟩, cs)

/-- Digits gathered in 64 bits, with the power of ten they are counted in. -/
structure Gathered where
  digits : Nat
  power : Int
  /-- Whether a digit did not fit; no digit of the same part fits after it. -/
  full : Bool
  deriving DecidableEq, Inhabited

/-- Gathers a digit before the point. One that does not fit shifts the
point. -/
def Gathered.addWhole (g : Gathered) (d : Nat) : Gathered :=
  if g.full ∨ twoTo 64 ≤ 10 * g.digits + d then
    { g with power := g.power + 1, full := true }
  else { g with digits := 10 * g.digits + d }

/-- Gathers a digit after the point. One that does not fit is dropped. -/
def Gathered.addFraction (g : Gathered) (d : Nat) : Gathered :=
  if g.full ∨ twoTo 64 ≤ 10 * g.digits + d then { g with full := true }
  else { g with digits := 10 * g.digits + d, power := g.power - 1 }

/-- The double next to a power of ten. -/
def powerOfTen (n : Nat) : Float := Float.ofScientific 1 false n

/-- Scales down by a power of ten, in steps that doubles can hold. -/
def scaleDown : Nat → Float → Nat → Float
  | 0, x, _ => x
  | fuel + 1, x, n =>
    if n ≤ 308 then x / powerOfTen n
    else if x == 0 then x
    else scaleDown fuel (x / powerOfTen 308) (n - 308)

/-- Scales gathered digits by a power of ten. Nothing is left of any number
after three of the greatest steps down. -/
def scale (digits : Nat) (power : Int) : Option Float :=
  let x := Float.ofNat digits
  if power < 0 then some (scaleDown 4 x power.natAbs)
  else if power.natAbs ≤ 308 then
    let y := x * powerOfTen power.natAbs
    if y.isInf then none else some y
  else if digits = 0 then some x
  else none

namespace Numeral

/-- The double that a numeral stands for, unless it is out of range. -/
def toFloat? (n : Numeral) : Option Float :=
  let g := n.whole.foldl Gathered.addWhole ⟨0, 0, false⟩
  let g := n.fraction.foldl Gathered.addFraction { g with full := false }
  let magnitude := match n.exponent with
    | none => scale g.digits g.power
    | some (minus, ds) =>
      let e := ofDigits ds
      if twoTo 31 ≤ e then
        if g.digits ≠ 0 ∧ !minus then none else some 0
      else scale g.digits (if minus then g.power - e else g.power + e)
  magnitude.map (fun x => if n.negative then -x else x)

/-- The number that a numeral stands for, unless it is out of range. -/
def value? (n : Numeral) : Option Number :=
  let whole := ofDigits n.whole
  if n.fraction.isEmpty ∧ n.exponent.isNone then
    if !n.negative ∧ whole < twoTo 64 then some (.integer whole)
    else if n.negative ∧ 0 < whole ∧ whole ≤ twoTo 63 then some (.integer (-whole))
    else n.toFloat?.map .real
  else n.toFloat?.map .real

end Numeral

end HaCluster.Json
