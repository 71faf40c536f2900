import SegmentManager.Json.Value
import SegmentManager.Metadata
import SegmentManager.Uuid

/-!
# Tagged metadata

A form of metadata in which every value is told apart from all others: it
carries a tag for its sort, and a double is given by its bits.  Entries are
listed in the order of their keys.
-/

namespace SegmentManager

namespace Binary64

def hex (x : Binary64) : String := String.ofList (Uuid.hexDigits 16 x.bits.toNat)

def ofHex? (digits : String) : Option Binary64 :=
  (Uuid.readHex? digits.toList).map fun n => ⟨n.toUInt64⟩

end Binary64

def Value.toTagged : Value → Json
  | bool b => .object [("bool", .bool b)]
  | int i => .object [("int", .integer i.toInt)]
  | text s => .object [("str", .string s)]
  | float x => .object [("float", .string x.hex)]

def Value.ofTagged? : Json → Option Value
  | .object [("bool", .bool b)] => some (bool b)
  | .object [("int", .integer i)] => some (int (.ofInt i))
  | .object [("str", .string s)] => some (text s)
  | .object [("float", .string digits)] => (Binary64.ofHex? digits).map float
  | _ => none

def Metadata.toTagged (m : Metadata) : Json :=
  .array (m.entries.map fun e => .array [.string e.1, e.2.toTagged])

end SegmentManager
