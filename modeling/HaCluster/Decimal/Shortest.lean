import HaCluster.Decimal.Binary

/-!
# The shortest decimal that reads back

Among the decimals that a reader rounds to a given double, the text of the
double is one with the fewest digits, and of those the one nearest to it.

The decimals that round to a double form an interval around it. A decimal
with few digits is a multiple of a large power of ten, so the search walks
through the powers of ten downwards and stops at the first whose grid has a
point in the interval. If any point of a grid lies in the interval, one of
the two grid points next to the double does, so only those two are tried.
-/

namespace HaCluster.Decimal

/-- A positive decimal, `digits · 10 ^ exponent`. -/
structure Digits where
  digits : Nat
  exponent : Int
  deriving DecidableEq, Inhabited

/-- The grid point of `10 ^ k` next to a double that reads back as it, if
there is one. -/
def gridPoint? (b : Binary) (k : Int) : Option Nat :=
  -- Everything is counted in quarters of the distance to the next double.
  let value := 4 * b.mantissa
  let low := if b.atPowerOfTwo then value - 1 else value - 2
  let high := value + 2
  let (unitNum, unitDen) := power 2 (b.exponent - 2)
  let (gridNum, gridDen) := power 10 k
  let left := unitNum * gridDen
  let right := gridNum * unitDen
  let below := value * left / right
  let closed := b.mantissa % 2 = 0
  let within := fun n =>
    if closed then low * left ≤ n * right ∧ n * right ≤ high * left
    else low * left < n * right ∧ n * right < high * left
  let above := below + 1
  if within below ∧ 0 < below then
    if within above then
      let down := value * left - below * right
      let up := above * right - value * left
      if down < up ∨ (down = up ∧ below % 2 = 0) then some below else some above
    else some below
  else if within above then some above
  else none

/-- Tries the powers of ten from `10 ^ k` downwards. -/
def search (b : Binary) : Nat → Int → Digits
  | 0, k => ⟨(gridPoint? b k).getD 0, k⟩
  | fuel + 1, k =>
    match gridPoint? b k with
    | some n => ⟨n, k⟩
    | none => search b fuel (k - 1)

/-- The shortest digits of a double other than zero. The first power tried
lies above the double, and seventeen digits always suffice. -/
def shortest (b : Binary) : Digits :=
  let magnitude : Int := (b.mantissa.log2 : Int) + b.exponent
  search b 24 (magnitude * 30103 / 100000 + 2)

/-- Digits as characters. -/
def digitChars (n : Nat) : List Char :=
  Nat.toDigits 10 n

/-- The text of a positive decimal. The digits stand in place, with `.0`
after an integer, while the first digit is worth at least `10 ^ -5` and less
than `10 ^ 16`; outside that range an exponent follows the digits. -/
def Digits.text (d : Digits) : List Char :=
  let cs := digitChars d.digits
  let point : Int := cs.length + d.exponent
  if 0 ≤ d.exponent ∧ point ≤ 16 then
    cs ++ List.replicate d.exponent.toNat '0' ++ ['.', '0']
  else if 0 < point ∧ point ≤ 16 then
    cs.take point.toNat ++ ['.'] ++ cs.drop point.toNat
  else if -5 < point ∧ point ≤ 0 then
    ['0', '.'] ++ List.replicate point.natAbs '0' ++ cs
  else
    let e := point - 1
    let exponent := ['e', if e < 0 then '-' else '+'] ++ digitChars e.natAbs
    match cs with
    | [c] => c :: exponent
    | c :: rest => c :: '.' :: rest ++ exponent
    | [] => exponent

/-- The shortest text of a finite double that reads back as it. -/
def shortestText (x : Float) : String :=
  let b := Binary.ofFloat x
  let magnitude := if b.mantissa = 0 then ['0', '.', '0'] else (shortest b).text
  String.ofList (if isNegative x then '-' :: magnitude else magnitude)

end HaCluster.Decimal
