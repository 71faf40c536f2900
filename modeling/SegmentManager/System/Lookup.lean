import SegmentManager.System

/-!
# Lookup

The instance that serves a capability of a collection comes from the record
cache and the running instances, or is fetched and launched.  Caching a record
may push others out of the memory budget, and their instances are stopped.
-/

namespace SegmentManager.System

variable {W : Type} [Backend W]

def retire (i : Instance) (s : System W) : System W :=
  match s.perform .stop i with
  | (.ok (), s) =>
      { s with manager := s.manager.tally fun n =>
          { n with memoryEvictions := n.memoryEvictions + 1 } }
  | (.error _, s) =>
      { s with manager := s.manager.tally fun n =>
          { n with failedEvictions := n.failedEvictions + 1 } }

def evict (c : CollectionId) (r : Record) (s : System W) : System W :=
  match (s.untrack c).unregister r.id with
  | (none, s) => s
  | (some i, s) => s.retire i

def footprint (r : Record) (s : System W) : Nat :=
  match s.manager.persistDirectory with
  | some root => s.site.bytesOnDisk root r.id
  | none => 0

/-- Caches a record under its own collection, and evicts what has to leave. -/
def remember (r : Record) (scope : Scope) (s : System W) : System W :=
  (s.manager.records scope).insertThen r.collection r (s.footprint r)
    (fun cache => { s with manager := s.manager.withRecords scope cache }) evict

/-- The running instance that serves a capability of a collection.  A record
that was fetched is cached only once its instance runs; one that was cached and
cannot be served is dropped. -/
def getSegment (c : CollectionId) (capability : Capability) (s : System W) :
    Except Fault Instance × System W :=
  let scope := capability.scope
  match s.consult c scope with
  | (some r, s) =>
      match s.acquire r with
      | (.ok i, s) => (.ok i, s)
      | (.error fault, s) => (.error fault, s.forget r.collection scope)
  | (none, s) =>
      match s.fetch c scope with
      | (.error fault, s) => (.error fault, s)
      | (.ok r, s) =>
          match s.acquire r with
          | (.ok i, s) => (.ok i, s.remember r scope)
          | (.error fault, s) => (.error fault, s)

def getSegmentNamed (c : CollectionId) (name : String) (s : System W) :
    Except Fault Instance × System W :=
  match Capability.ofName? name with
  | some capability => s.getSegment c capability
  | none => (.error (.invalidCapability name), s)

/-! ## Warming up -/

def trackIndex (c : CollectionId) (i : Instance) (s : System W) : Except Fault Unit × System W :=
  match s.manager.openIndexes with
  | none => (.ok (), s)
  | some o =>
      if i.views.persistentIndex then
        match o.track c i s.site with
        | (.error fault, o, site) =>
            (.error fault, { s with manager := { s.manager with openIndexes := some o }, site })
        | (.ok closed, o, site) =>
            let m := { s.manager with openIndexes := some o }
            (.ok (), { s with
              manager := m.tally fun n =>
                { n with handleEvictions := n.handleEvictions + closed.length }
              site })
      else (.ok (), s)

/-- Loads both segments of a collection that is about to be used and opens its
index.  Remote workers need no such hint. -/
def hint (c : CollectionId) (_ : Operation) (s : System W) : Except Fault Unit × System W :=
  match s.manager.deployment with
  | .distributed _ => (.ok (), s)
  | .inProcess _ =>
      match s.getSegment c .metadataReader with
      | (.error fault, s) => (.error fault, s)
      | (.ok _, s) =>
          match s.getSegment c .vectorReader with
          | (.error fault, s) => (.error fault, s)
          | (.ok i, s) => s.trackIndex c i

end SegmentManager.System
