import SegmentManager.System

/-!
# Teardown

Deleting the segments of a collection, and what is done to all instances.  In
its own process a manager deletes up to the first failure and says how far it
came; proxies for remote workers are stopped whatever happens.
-/

namespace SegmentManager.System

variable {W : Type} [Backend W]

def countDeleted (s : System W) : System W :=
  { s with manager := s.manager.tally fun n => { n with deleted := n.deleted + 1 } }

/-- Deletes the running ones among segments in turn, up to the first failure.
Gives those that were deleted and the one that failed. -/
def deleteEach : List SegmentId → System W →
    (List SegmentId × Option (SegmentId × Fault)) × System W
  | [], s => (([], none), s)
  | segment :: rest, s =>
      match s.unregister segment with
      | (none, s) => deleteEach rest s
      | (some i, s) =>
          match s.perform .delete i with
          | (.error fault, s) => (([], some (segment, fault)), s)
          | (.ok (), s) =>
              let ((completed, failure), s) := deleteEach rest s.countDeleted
              ((segment :: completed, failure), s)

/-- Stops the running ones among segments in turn, whatever fails. -/
def releaseEach : List SegmentId → System W → System W
  | [], s => s
  | segment :: rest, s =>
      match s.unregister segment with
      | (none, s) => releaseEach rest s
      | (some i, s) => releaseEach rest (s.perform .stop i).2.countDeleted

def forgetAll (c : CollectionId) (s : System W) : System W :=
  ((s.forget c .vector).forget c .metadata).untrack c

/-- Tears down the running segments of a collection and forgets it.  Gives the
identifiers of all its rows, running or not. -/
def deleteSegments (c : CollectionId) (s : System W) :
    Except Fault (List SegmentId) × System W :=
  match s.readCatalog c none with
  | (.error fault, s) => (.error fault, s)
  | (.ok rows, s) =>
      let segments := rows.map (·.id)
      match s.manager.deployment with
      | .distributed _ => (.ok segments, (releaseEach segments s).forgetAll c)
      | .inProcess _ =>
          match deleteEach segments s with
          | ((_, none), s) => (.ok segments, s.forgetAll c)
          | ((completed, some (failed, cause)), s) =>
              (.error (.partialDelete completed failed cause), s.forgetAll c)

/-! ## All instances

The instances have no order among them, so each call on all of them is told the order
in which it visits them. -/

def performAll (action : Action) (targets : List Instance) (s : System W) :
    Except Fault Unit × System W :=
  let (outcome, site) := s.site.performAll action targets
  (outcome, { s with site })

def startAll (order : List SegmentId) (s : System W) : Except Fault Unit × System W :=
  s.performAll .start (s.manager.instances.visited order)

def stopAll (order : List SegmentId) (s : System W) : Except Fault Unit × System W :=
  s.performAll .stop (s.manager.instances.visited order)

def reset (order : List SegmentId) (s : System W) : Except Fault Unit × System W :=
  let running := s.manager.instances.visited order
  let emptied := { s.manager with
    instances := .empty
    vectorRecords := s.manager.vectorRecords.clear
    metadataRecords := s.manager.metadataRecords.clear
    openIndexes := s.manager.openIndexes.map (·.clear) }
  performAll .stop running { s with manager := emptied }

end SegmentManager.System
