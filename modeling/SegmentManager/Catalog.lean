import SegmentManager.Record
import SegmentManager.Fault

/-!
# Catalog

The authoritative list of segment records, in the order in which they came.  It
counts the reads that it serves.  A catalog may refuse reads for a time, and
one that does not filter answers every read with all its rows.
-/

namespace SegmentManager

structure Catalog where
  rows : List Record
  reads : Nat
  refusal : Option String
  filtering : Bool
deriving DecidableEq, Repr

namespace Catalog

def empty : Catalog := ⟨[], 0, none, true⟩

instance : Inhabited Catalog := ⟨empty⟩

def add (k : Catalog) (rows : List Record) : Catalog := { k with rows := k.rows ++ rows }

def rowsOf (k : Catalog) (c : CollectionId) : List Record :=
  k.rows.filter fun r => r.collection = c

def remove (k : Catalog) (c : CollectionId) : Catalog :=
  { k with rows := k.rows.filter fun r => r.collection ≠ c }

def read (k : Catalog) (c : CollectionId) (scope : Option Scope) :
    Except Fault (List Record) × Catalog :=
  match k.refusal with
  | some text => (.error (.catalog text), k)
  | none =>
      let wanted : Record → Bool := fun r => r.collection = c ∧ ∀ s ∈ scope, r.scope = s
      (.ok (if k.filtering then k.rows.filter wanted else k.rows), { k with reads := k.reads + 1 })

@[simp] theorem rows_read (k : Catalog) (c : CollectionId) (scope : Option Scope) :
    (k.read c scope).2.rows = k.rows := by
  unfold read
  split <;> rfl

end Catalog

end SegmentManager
