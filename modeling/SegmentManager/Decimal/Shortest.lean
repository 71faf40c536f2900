import SegmentManager.Decimal.Binary64
import SegmentManager.Decimal.Digits

/-!
# Shortest decimals

The fewest significant digits that read back as a given number.  The numbers
that round to `m * 2 ^ q` form an interval around it, ends included if `m` is
even.  On the grid of decimals with `n` digits only the two neighbours of the
number have to be tried; the first `n` for which one lies in the interval wins,
of two the nearer one, and at a tie the even one.
-/

namespace SegmentManager.Decimal

structure Scientific where
  digits : Nat
  exponent : Int
deriving DecidableEq, Repr

namespace Scientific

def strip (d : Nat) (e : Int) : Scientific :=
  if d ≠ 0 ∧ d % 10 = 0 then strip (d / 10) (e + 1) else ⟨d, e⟩
  termination_by d
  decreasing_by omega

end Scientific

def leadingExponent (n d : Nat) : Int :=
  if d ≤ n then (digits (n / d)).length - 1 else -(digits ((d - 1) / n)).length

/-- A positive number in quarters of `2 ^ q`, with the interval that rounds to
it. -/
structure Rounded where
  lower : Nat
  middle : Nat
  upper : Nat
  closed : Bool
  exponent : Int
deriving DecidableEq, Repr

namespace Rounded

/-- The next smaller number is only half as far away from a power of two, unless
that is as small as normal numbers get. -/
def ofBinary64 (x : Binary64) : Rounded :=
  let m := x.significand
  let narrow := m = Binary64.hiddenBit ∧ 1 < x.exponentField
  ⟨if narrow then 4 * m - 1 else 4 * m - 2, 4 * m, 4 * m + 2, m % 2 = 0, x.twoExponent - 2⟩

/-- The neighbour on the grid of `10 ^ g` that rounds to the number, if there is
one. -/
def nearest? (r : Rounded) (g : Int) : Option Nat :=
  let scale := Nat.pow 2 r.exponent.toNat * Nat.pow 10 (-g).toNat
  let step := Nat.pow 10 g.toNat * Nat.pow 2 (-r.exponent).toNat
  let inside (a : Nat) : Bool :=
    if r.closed then r.lower * scale ≤ a ∧ a ≤ r.upper * scale
    else r.lower * scale < a ∧ a < r.upper * scale
  let middle := r.middle * scale
  let d := middle / step
  let below := middle - d * step
  let above := (d + 1) * step - middle
  match inside (d * step), inside ((d + 1) * step) with
  | true, true => if below < above ∨ below = above ∧ d % 2 = 0 then some d else some (d + 1)
  | true, false => some d
  | false, true => some (d + 1)
  | false, false => none

def shortest (r : Rounded) : Scientific :=
  let first := leadingExponent (r.middle * Nat.pow 2 r.exponent.toNat) (Nat.pow 2 (-r.exponent).toNat)
  let attempt (n : Nat) : Option Scientific :=
    let g := first - n
    (r.nearest? g).map (Scientific.strip · g)
  ((List.range 17).findSome? attempt).getD ⟨0, 0⟩

end Rounded

/-- How a number is written: positionally if the exponent of its first digit
lies in a range, else with that exponent. -/
structure NumberStyle where
  positionalFrom : Int
  positionalBelow : Int
deriving DecidableEq, Repr

def exponentText (e : Int) : List Char := if e < 0 then signed e else '+' :: signed e

def NumberStyle.unsigned (style : NumberStyle) (s : Scientific) : List Char :=
  let ds := digits s.digits
  let first := s.exponent + (ds.length - 1 : Nat)
  if style.positionalFrom ≤ first ∧ first < style.positionalBelow then
    if 0 ≤ s.exponent then ds ++ List.replicate s.exponent.toNat '0' ++ ['.', '0']
    else if 0 ≤ first then
      let whole := first.toNat + 1
      ds.take whole ++ '.' :: ds.drop whole
    else '0' :: '.' :: List.replicate (-first - 1).toNat '0' ++ ds
  else
    let point := if ds.length = 1 then [] else ['.']
    ds.take 1 ++ point ++ ds.drop 1 ++ 'e' :: exponentText first

def NumberStyle.text (style : NumberStyle) (x : Binary64) : List Char :=
  let magnitude := if x.isZero then ⟨0, 0⟩ else (Rounded.ofBinary64 x).shortest
  (if x.isNegative then ['-'] else []) ++ style.unsigned magnitude

end SegmentManager.Decimal
