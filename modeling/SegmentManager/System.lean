import SegmentManager.Manager
import SegmentManager.Catalog

/-!
# Systems

A manager works on a catalog that it only reads and a site where its instances
are made.  The steps of its operations are given here, each of them one access
to a single part of the system.
-/

namespace SegmentManager

structure System (W : Type) where
  manager : Manager
  catalog : Catalog
  site : Site W

namespace System

variable {W : Type} [Backend W]

def consult (c : CollectionId) (scope : Scope) (s : System W) : Option Record × System W :=
  let (found, cache) := (s.manager.records scope).touch c
  let counted := (s.manager.withRecords scope cache).tally fun n =>
    if found.isSome then { n with hits := n.hits + 1 }
    else { n with misses := n.misses + 1 }
  (found, { s with manager := counted })

def readCatalog (c : CollectionId) (scope : Option Scope) (s : System W) :
    Except Fault (List Record) × System W :=
  let (rows, catalog) := s.catalog.read c scope
  let counted := s.manager.tally fun n => { n with fetches := n.fetches + 1 }
  (rows, { s with manager := counted, catalog })

def fetch (c : CollectionId) (scope : Scope) (s : System W) : Except Fault Record × System W :=
  match s.readCatalog c (some scope) with
  | (.error fault, s) => (.error fault, s)
  | (.ok rows, s) => ((s.manager.kinds.selectKnown rows c scope).bind s.manager.complete, s)

def launch (m : Manager) (r : Record) (site : Site W) : Except Fault Instance × Site W :=
  match m.kinds.instantiate m.persistDirectory r site with
  | (.error fault, site) => (.error fault, site)
  | (.ok i, site) =>
      match site.perform .start i with
      | (.error fault, site) => (.error fault, site)
      | (.ok (), site) => (.ok i, site)

def acquire (r : Record) (s : System W) : Except Fault Instance × System W :=
  match s.manager.instances.getOrCreate r.id (launch s.manager r) s.site with
  | (.error fault, instances, site) =>
      (.error fault, { s with manager := { s.manager with instances }, site })
  | (.ok (i, created), instances, site) =>
      let m := { s.manager with instances }
      let counted := if created then m.tally fun n => { n with started := n.started + 1 } else m
      (.ok i, { s with manager := counted, site })

def untrack (c : CollectionId) (s : System W) : System W :=
  { s with manager := { s.manager with openIndexes := s.manager.openIndexes.map (·.without c) } }

def unregister (segment : SegmentId) (s : System W) : Option Instance × System W :=
  let (found, instances) := s.manager.instances.pop segment
  (found, { s with manager := { s.manager with instances } })

def perform (action : Action) (i : Instance) (s : System W) : Except Fault Unit × System W :=
  let (outcome, site) := s.site.perform action i
  (outcome, { s with site })

def forget (c : CollectionId) (scope : Scope) (s : System W) : System W :=
  { s with manager := s.manager.withRecords scope ((s.manager.records scope).without c) }

def create (c : Collection) (fresh : Scope → SegmentId) (s : System W) : System W :=
  { s with catalog := s.catalog.add (s.manager.prepare c fresh) }

end System

end SegmentManager
