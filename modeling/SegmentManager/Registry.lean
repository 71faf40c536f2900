import SegmentManager.Instance
import SegmentManager.Table
import SegmentManager.Metadata.Propagation

/-!
# Registry of kinds

The kinds of segment that a process can make, each with a descriptor: where its
instances do their work, how a new segment's metadata comes from that of its
collection, and how many file handles an instance is declared to hold.
-/

namespace SegmentManager

inductive Placement
  | inProcess
  | remote
deriving DecidableEq, Repr

structure Descriptor where
  placement : Placement
  propagate : Option (Metadata → Metadata)
  fileHandles : Option Nat

abbrev Registry := Table Kind Descriptor

namespace Registry

def knows (g : Registry) (kind : Kind) : Bool := g.contains kind

/-- A kind without propagation gives its segments no metadata; one with it
always gives a map, that of an empty one for a collection without metadata. -/
def propagate (g : Registry) (kind : Kind) (metadata : Option Metadata) : Option Metadata :=
  (g.get? kind).bind fun d => d.propagate.map fun f => f (metadata.getD .empty)

def selectKnown (g : Registry) (rows : List Record) (c : CollectionId) (scope : Scope) :
    Except Fault Record :=
  match rows.find? fun r => r.scope = scope ∧ g.knows r.kind with
  | some r => .ok r
  | none => .error (.segmentNotFound c scope)

variable {W : Type} [Backend W]

def instantiate (g : Registry) (root : Option String) (r : Record) (site : Site W) :
    Except Fault Instance × Site W :=
  if g.knows r.kind then site.build root r else (.error (.unknownKind r.kind.tag), site)

theorem selectKnown_eq_ok {g : Registry} {rows : List Record} {c : CollectionId} {scope : Scope}
    {r : Record} (h : g.selectKnown rows c scope = .ok r) :
    r ∈ rows ∧ r.scope = scope ∧ g.knows r.kind = true := by
  unfold selectKnown at h
  split at h
  · cases h
    rename_i found
    have := List.find?_some found
    simp only [decide_eq_true_eq] at this
    exact ⟨List.mem_of_find?_eq_some found, this⟩
  · cases h

end Registry

end SegmentManager
