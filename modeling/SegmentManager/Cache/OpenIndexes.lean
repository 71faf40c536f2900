import SegmentManager.Instances
import SegmentManager.Cache.Recency

/-!
# Open indexes

A persistent index holds file handles while it is open, and only so many
indexes may be open at once.  Tracking a collection opens its index; when the
budget is exceeded, the index of the collection tracked longest ago is closed.
Its instance runs on, and tracking the collection again reopens the index.
-/

namespace SegmentManager

/-- `undersized` counts how often a tracked index held more handles than the
budget had reckoned with. -/
structure OpenIndexes where
  budget : Nat
  handlesPerIndex : Option Nat
  undersized : Nat
  tracked : RecencyCache CollectionId Instance
deriving DecidableEq, Repr

namespace OpenIndexes

def ofBudget (budget : Nat) : Except Fault OpenIndexes :=
  if budget = 0 then
    .error (.invalidSettings "file handle budget must allow at least one open index")
  else .ok ⟨budget, none, 0, .empty budget⟩

def ofLimits (handleLimit handlesPerIndex : Nat) : Except Fault OpenIndexes :=
  if handlesPerIndex = 0 then
    .error (.invalidSettings "handles per persistent index must be positive")
  else
    (ofBudget (handleLimit / handlesPerIndex)).map fun o =>
      { o with handlesPerIndex := some handlesPerIndex }

def count (o : OpenIndexes) : Nat := o.tracked.count

def contains (o : OpenIndexes) (c : CollectionId) : Bool := o.tracked.contains c

/-- The collections, the one tracked longest ago first. -/
def collections (o : OpenIndexes) : List CollectionId := o.tracked.keys

/-- Stops tracking a collection; its index is left as it is. -/
def pop (o : OpenIndexes) (c : CollectionId) : Option Instance × OpenIndexes :=
  let (found, tracked) := o.tracked.remove c
  (found, { o with tracked })

def without (o : OpenIndexes) (c : CollectionId) : OpenIndexes := (o.pop c).2

/-- Forgets all collections; their indexes are left as they are. -/
def clear (o : OpenIndexes) : OpenIndexes := { o with tracked := o.tracked.clear }

variable {W : Type} [Backend W]

/-- Closes the indexes of instances in turn.  One that fails to close is left. -/
def closeAll (targets : List Instance) (site : Site W) : Site W :=
  targets.foldl (fun site i =>
    if i.views.persistentIndex then (site.perform .closeIndex i).2 else site) site

/-- Opens the index of an instance and tracks it as the latest of its
collection.  Gives the collections whose indexes had to be closed. -/
def track (c : CollectionId) (i : Instance) (o : OpenIndexes) (site : Site W) :
    Except Fault (List CollectionId) × OpenIndexes × Site W :=
  if i.views.persistentIndex then
    match site.perform .openIndex i with
    | (.error fault, site) => (.error fault, o, site)
    | (.ok (), site) =>
        let tooMany := o.handlesPerIndex.any (· < site.heldHandles i)
        let (evicted, tracked) := o.tracked.insert c i 1
        (.ok (evicted.map (·.1)),
          { o with tracked, undersized := if tooMany then o.undersized + 1 else o.undersized },
          closeAll (evicted.map (·.2)) site)
  else (.error (.persistentIndex i.record.id "segment has no persistent index"), o, site)

end OpenIndexes

end SegmentManager
