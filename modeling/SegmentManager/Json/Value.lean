import SegmentManager.Decimal.Binary64

/-!
# JSON values

A number without fraction and exponent that fits 64 bits is an integer, any
other number a double.  Texts may hold what no value can represent: half of a
surrogate pair, or a number beyond all doubles.  Such a part is `unreadable`;
it may be passed over, but not used.
-/

namespace SegmentManager

inductive Json
  | null
  | bool (b : Bool)
  | integer (i : Int)
  | float (x : Binary64)
  | string (s : String)
  | array (items : List Json)
  | object (fields : List (String × Json))
  | unreadable
deriving Repr, Inhabited

namespace Json

def natural (n : Nat) : Json := integer n

def strings (items : List String) : Json := array (items.map string)

def ofOption {α : Type} (form : α → Json) : Option α → Json
  | none => null
  | some a => form a

def field? (j : Json) (name : String) : Option Json :=
  match j with
  | object fields => (fields.find? (·.1 == name)).map (·.2)
  | _ => none

def items? : Json → Option (List Json)
  | array items => some items
  | _ => none

def string? : Json → Option String
  | string s => some s
  | _ => none

def bool? : Json → Option Bool
  | bool b => some b
  | _ => none

def integer? : Json → Option Int
  | integer i => some i
  | _ => none

def natural? : Json → Option Nat
  | integer (.ofNat n) => some n
  | _ => none

def isNull : Json → Bool
  | null => true
  | _ => false

end Json

end SegmentManager
