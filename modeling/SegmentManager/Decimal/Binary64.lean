/-!
# Binary64 numbers

A double-precision number, held as its 64 bits.  Two numbers are the same value
of this type when their bits are the same, so that a number which is none, or
the sign of a zero, is kept as given.  Numeric equality is another matter, and
has its own name.
-/

namespace SegmentManager

structure Binary64 where
  bits : UInt64
deriving DecidableEq, Hashable, Repr

namespace Binary64

def toFloat (x : Binary64) : Float := Float.ofBits x.bits

def ofFloat (f : Float) : Binary64 := ⟨f.toBits⟩

def isNegative (x : Binary64) : Bool := x.bits >>> 63 == 1

def exponentField (x : Binary64) : Nat := (x.bits.toNat >>> 52) % 2048

def hiddenBit : Nat := 0x10000000000000

def fractionField (x : Binary64) : Nat := x.bits.toNat % hiddenBit

def isFinite (x : Binary64) : Bool := x.exponentField ≠ 2047

def isNaN (x : Binary64) : Bool := x.exponentField = 2047 ∧ x.fractionField ≠ 0

def isZero (x : Binary64) : Bool := x.exponentField = 0 ∧ x.fractionField = 0

/-- The magnitude of a finite number is its significand times two to the power
of `twoExponent`. -/
def significand (x : Binary64) : Nat :=
  if x.exponentField = 0 then x.fractionField else x.fractionField + hiddenBit

def twoExponent (x : Binary64) : Int :=
  if x.exponentField = 0 then -1074 else (x.exponentField : Int) - 1075

/-- Equality of the numbers that are meant: the two zeros are equal, and what
is not a number equals nothing. -/
def numericEq (x y : Binary64) : Bool :=
  !x.isNaN && !y.isNaN && (x.bits == y.bits || (x.isZero && y.isZero))

def ofNat (n : Nat) : Binary64 := ofFloat (Float.ofNat n)

def ofInt (i : Int) : Binary64 := ofFloat (Float.ofInt i)

end Binary64

end SegmentManager
