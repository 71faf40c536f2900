import SegmentManager.Decimal.Digits
import SegmentManager.Decimal.Rounding

/-!
# Byte sizes

A size below a kilobyte is written as it is, a larger one with one decimal in
the greatest of three units that it reaches.  It is first taken as a double.
-/

namespace SegmentManager.Text

structure SizeUnit where
  bytes : Nat
  name : String
deriving DecidableEq, Repr

def sizeUnits : List SizeUnit :=
  [⟨1024 * 1024 * 1024, "GB"⟩, ⟨1024 * 1024, "MB"⟩, ⟨1024, "KB"⟩]

def oneDecimal (n d : Nat) : List Char :=
  let tenths := Decimal.roundDiv (10 * n) d
  Decimal.digits (tenths / 10) ++ ['.', Decimal.digitChar (tenths % 10)]

def byteSize (bytes : Nat) : String :=
  match sizeUnits.find? (·.bytes ≤ bytes) with
  | some unit =>
      String.ofList (oneDecimal (Decimal.roundBits 53 bytes) unit.bytes) ++ " " ++ unit.name
  | none => toString bytes

end SegmentManager.Text
