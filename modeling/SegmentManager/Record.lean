import SegmentManager.Uuid
import SegmentManager.Kind
import SegmentManager.Metadata

/-!
# Segment records

A record describes one segment: its identifier, the kind that implements it,
the scope it serves, the collection it belongs to, and metadata of its own.
Records are made when a collection is created and kept in a catalog; nothing
changes a record, and a record with one more entry is another record.
-/

namespace SegmentManager

structure Record where
  id : SegmentId
  kind : Kind
  scope : Scope
  collection : CollectionId
  metadata : Option Metadata
deriving DecidableEq, Repr

namespace Record

def endpointKey : String := "grpc_url"

/-- The record with one metadata entry set, in a new map if it had none. -/
def withEntry (r : Record) (key : String) (value : Value) : Record :=
  { r with metadata := some ((r.metadata.getD .empty).insert key value) }

def valueAt? (r : Record) (key : String) : Option Value :=
  r.metadata.bind (·.get? key)

def numericEq (r s : Record) : Bool :=
  { r with metadata := none } == { s with metadata := none } &&
    match r.metadata, s.metadata with
    | none, none => true
    | some m, some n => m.numericEq n
    | _, _ => false

@[simp] theorem id_withEntry (r : Record) (key : String) (value : Value) :
    (r.withEntry key value).id = r.id := rfl

@[simp] theorem kind_withEntry (r : Record) (key : String) (value : Value) :
    (r.withEntry key value).kind = r.kind := rfl

@[simp] theorem scope_withEntry (r : Record) (key : String) (value : Value) :
    (r.withEntry key value).scope = r.scope := rfl

@[simp] theorem collection_withEntry (r : Record) (key : String) (value : Value) :
    (r.withEntry key value).collection = r.collection := rfl

theorem valueAt?_withEntry (r : Record) (key other : String) (value : Value) :
    (r.withEntry key value).valueAt? other =
      if other = key then some value else r.valueAt? other := by
  unfold valueAt? withEntry
  cases h : r.metadata with
  | none => simp [Metadata.get?_insert]
  | some m => simp [Metadata.get?_insert]

end Record

structure Collection where
  id : CollectionId
  name : String
  metadata : Option Metadata
  dimension : Option Nat
deriving DecidableEq, Repr

end SegmentManager
