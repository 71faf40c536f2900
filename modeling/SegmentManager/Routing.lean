import SegmentManager.Record
import SegmentManager.Fault
import SegmentManager.Digest.Sha256

/-!
# Routing

Every collection is served by one of the members of a group.  A member and a
key have a weight, and a key belongs to the member of the greatest weight; of
two with one weight the greater name wins.  When members come and go, only the
keys move whose winner came or went.
-/

namespace SegmentManager

namespace Routing

def Outranks (weight : String → Nat) (m other : String) : Prop :=
  weight other < weight m ∨ weight other = weight m ∧ other < m

instance (weight : String → Nat) (m other : String) : Decidable (Outranks weight m other) :=
  inferInstanceAs (Decidable (_ ∨ _))

def better (weight : String → Nat) (best : Option String) (m : String) : Option String :=
  match best with
  | none => some m
  | some b => if Outranks weight m b then some m else some b

def owner (weight : String → Nat) (members : List String) : Option String :=
  members.foldl (better weight) none

/-- The first eight bytes of the digest of the member's name, a zero byte and
the key. -/
def weight (key member : String) : Nat :=
  Sha256.leading64 (member.toUTF8.toList ++ 0 :: key.toUTF8.toList)

theorem outranks_trans {weight : String → Nat} {a b c : String} (h : Outranks weight a b)
    (k : Outranks weight b c) : Outranks weight a c := by
  rcases h with h | ⟨h, h'⟩ <;> rcases k with k | ⟨k, k'⟩
  · exact .inl (Nat.lt_trans k h)
  · exact .inl (by omega)
  · exact .inl (by omega)
  · exact .inr ⟨by omega, String.lt_trans k' h'⟩

end Routing

structure Workers where
  members : List String
  port : Nat
deriving DecidableEq, Repr

namespace Workers

def defaultPort : Nat := 50051

def owner (w : Workers) (key : String) : Option String :=
  Routing.owner (Routing.weight key) w.members

def endpoint (w : Workers) (c : CollectionId) : Except Fault String :=
  match w.owner (toString c) with
  | some member => .ok (member ++ ":" ++ toString w.port)
  | none => .error (.endpointResolution "member list is empty")

end Workers

end SegmentManager
