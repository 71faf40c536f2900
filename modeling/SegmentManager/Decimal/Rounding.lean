/-!
# Rounding

A quotient rounded to a whole number, a half going to the even neighbour, and
what is built from it.
-/

namespace SegmentManager.Decimal

/-- The whole number nearest to `n / d`; a half goes to the even one. -/
def roundDiv (n d : Nat) : Nat :=
  let q := n / d
  let twice := 2 * (n % d)
  if twice < d then q else if d < twice then q + 1 else if q % 2 = 0 then q else q + 1

def roundBits (bits n : Nat) : Nat :=
  let excess := Nat.pow 2 (n.log2 + 1 - bits)
  roundDiv n excess * excess

end SegmentManager.Decimal
