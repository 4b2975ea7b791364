/-!
# Powers of two

Widths of words and the exponents of doubles are powers of two.
-/

namespace HaCluster

/-- Two to the power of a number. A word of `n` bits holds the numbers below
it. -/
def twoTo (n : Nat) : Nat := Nat.pow 2 n

end HaCluster
