import SegmentManager.Decimal.Binary64

/-!
# Scaled numbers

A decimal number is read in two steps.  Its digits are gathered in a word of 64
bits, and digits that no longer fit only count by their place.  The word, as a
double, is then multiplied or divided by a power of ten, in one step where that
power is a double itself.  A number too large for a double is refused, one too
small is zero.
-/

namespace SegmentManager.Decimal

structure Literal where
  negative : Bool
  whole : List Nat
  fraction : Option (List Nat)
  exponent : Option (Bool × List Nat)
deriving DecidableEq, Repr

/-- Appends digits to a number below a bound, as long as it stays below; gives
the digits that are left. -/
def gather (bound : Nat) : Nat → List Nat → Nat × List Nat
  | n, [] => (n, [])
  | n, d :: ds => if n * 10 + d < bound then gather bound (n * 10 + d) ds else (n, d :: ds)

def maxPower : Nat := 308

def powerOfTen (k : Nat) : Float := Float.ofScientific 1 false k

def scaleDown (f : Float) (k : Nat) : Float :=
  if k ≤ maxPower then f / powerOfTen k
  else if f == 0 then f
  else scaleDown (f / powerOfTen maxPower) (k - maxPower)
  termination_by k
  decreasing_by
    simp only [maxPower] at *
    omega

def scale? (word : Nat) (e : Int) : Option Float :=
  let f := Float.ofNat word
  if e < 0 then some (scaleDown f (-e).toNat)
  else if e.toNat ≤ maxPower then
    let g := f * powerOfTen e.toNat
    if g.isInf then none else some g
  else if f == 0 then some f
  else none

def withSign (negative : Bool) (f : Float) : Binary64 := .ofFloat (if negative then -f else f)

def Literal.toBinary64? (l : Literal) : Option Binary64 :=
  let (word, tail) := gather UInt64.size 0 l.whole
  let fraction := l.fraction.getD []
  let (word, dropped) := gather UInt64.size word fraction
  let e : Int := tail.length - (fraction.length - dropped.length : Nat)
  match l.exponent with
  | none => (scale? word e).map (withSign l.negative)
  | some (down, ds) =>
      let (exponent, beyond) := gather 0x80000000 0 ds
      if beyond = [] then
        (scale? word (if down then e - exponent else e + exponent)).map (withSign l.negative)
      else if word ≠ 0 ∧ !down then none
      else some (withSign l.negative 0)

/-- The whole number that a literal stands for, if it is one of at most 64 bits.
A zero with a sign is not a whole number. -/
def Literal.toInt? (l : Literal) : Option Int :=
  match l.fraction, l.exponent, gather UInt64.size 0 l.whole with
  | none, none, (word, []) =>
      if !l.negative then some word
      else if word ≠ 0 ∧ word ≤ 0x8000000000000000 then some (-word)
      else none
  | _, _, _ => none

end SegmentManager.Decimal
