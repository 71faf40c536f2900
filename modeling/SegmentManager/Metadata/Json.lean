import SegmentManager.Metadata
import SegmentManager.Json.Value

/-!
# Metadata as JSON

A metadata map is an object with its keys in order.  An integer that fits 64
bits with a sign is read as an integer, every other number as a double.  Of a
key that is given twice the last value counts.
-/

namespace SegmentManager

def Value.toJson : Value → Json
  | bool b => .bool b
  | int i => .integer i.toInt
  | float x => .float x
  | text s => .string s

def Value.ofJson? : Json → Option Value
  | .bool b => some (bool b)
  | .integer i =>
      if (Int64.ofInt i).toInt = i then some (int (.ofInt i)) else some (float (.ofInt i))
  | .float x => some (float x)
  | .string s => some (text s)
  | _ => none

def Metadata.toJson (m : Metadata) : Json :=
  .object (m.entries.map fun (key, value) => (key, value.toJson))

def Metadata.ofJson? : Json → Option Metadata
  | .object fields =>
      (fields.mapM fun f => (Value.ofJson? f.2).map fun value => (f.1, value)).map Metadata.ofList
  | _ => none

end SegmentManager
