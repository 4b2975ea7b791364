import HaCluster.Power
import HaCluster.Decimal.Binary

/-!
# Decimals with a fixed number of places

The text of a double to a fixed number of places rounds the exact binary
value; a value halfway between two texts goes to the one whose last digit is
even. The sign is kept where the digits are all zero.
-/

namespace HaCluster.Decimal

/-- The integer nearest to a fraction; halfway between two it is the even
one. -/
def roundDiv (num den : Nat) : Nat :=
  let q := num / den
  let twice := 2 * (num % den)
  if twice < den ∨ (twice = den ∧ q % 2 = 0) then q else q + 1

/-- The text of a double with `places` digits after the point. -/
def fixedText (x : Float) (places : Nat) : String :=
  if x.isNaN then "NaN"
  else
    let sign := if isNegative x then "-" else ""
    if x.isInf then sign ++ "inf"
    else
      let b := Binary.ofFloat x
      let (num, den) := power 2 b.exponent
      let scaled := roundDiv (b.mantissa * num * Nat.pow 10 places) den
      let whole := toString (scaled / Nat.pow 10 places)
      if places = 0 then sign ++ whole
      else
        let cs := Nat.toDigits 10 (scaled % Nat.pow 10 places)
        let zeros := List.replicate (places - cs.length) '0'
        sign ++ whole ++ "." ++ String.ofList (zeros ++ cs)

end HaCluster.Decimal
