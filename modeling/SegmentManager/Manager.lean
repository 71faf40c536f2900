import SegmentManager.Cache.Records
import SegmentManager.Cache.OpenIndexes
import SegmentManager.Counters
import SegmentManager.Registry
import SegmentManager.Routing
import SegmentManager.Settings

/-!
# Managers

A manager turns the records of a collection into running instances and keeps
them within its limits.  It runs segments in its own process, where a memory
budget may bound the vector segments and a budget of file handles the open
indexes, or it reaches them through proxies for remote workers and has no
limits of its own.

The record caches and the open indexes are derived from the instances: what
they hold runs.
-/

namespace SegmentManager

inductive Deployment
  | inProcess (settings : Settings)
  | distributed (workers : Workers)
deriving DecidableEq, Repr

structure Manager where
  deployment : Deployment
  kinds : Registry
  instances : Instances
  vectorRecords : RecordCache
  metadataRecords : RecordCache
  openIndexes : Option OpenIndexes
  counters : Counters

namespace Manager

def inProcessKinds (g : Registry) : Registry := g.filter fun _ d => d.placement = .inProcess

/-- Proxies for remote workers, and metadata segments wherever they run. -/
def distributedKinds (g : Registry) : Registry :=
  g.filter fun kind d => d.placement = .remote ∨ kind.scope? = some .metadata

/-- The handles that a persistent index is reckoned to hold: as set, else as
declared for the kind, else by default. -/
def handlesPerIndex (settings : Settings) (kinds : Registry) : Nat :=
  (settings.handlesPerIndex.or ((kinds.get? .hnswPersisted).bind (·.fileHandles))).getD
    Settings.defaultHandlesPerIndex

def inProcess (settings : Settings) (g : Registry) : Except Fault Manager := do
  settings.validate
  let kinds := inProcessKinds g
  let openIndexes ←
    if settings.isPersistent then
      (OpenIndexes.ofLimits settings.handleLimit (handlesPerIndex settings kinds)).map some
    else .ok none
  .ok {
    deployment := .inProcess settings
    kinds := kinds
    instances := .empty
    vectorRecords := if settings.usesMemoryBudget then .ofCapacity settings.memoryLimit
      else .unlimited
    metadataRecords := .unlimited
    openIndexes := openIndexes
    counters := {} }

def distributed (workers : Workers) (g : Registry) : Manager where
  deployment := .distributed workers
  kinds := distributedKinds g
  instances := .empty
  vectorRecords := .unlimited
  metadataRecords := .unlimited
  openIndexes := none
  counters := {}

def persistDirectory (m : Manager) : Option String :=
  match m.deployment with
  | .inProcess settings => settings.persistDirectory
  | .distributed _ => none

def withMembers (m : Manager) (members : List String) : Manager :=
  match m.deployment with
  | .inProcess _ => m
  | .distributed workers => { m with deployment := .distributed { workers with members } }

/-- The cache of a scope's records.  Records of no other scope than vectors and
metadata are ever looked up. -/
def records (m : Manager) : Scope → RecordCache
  | .vector => m.vectorRecords
  | _ => m.metadataRecords

def withRecords (m : Manager) (scope : Scope) (cache : RecordCache) : Manager :=
  match scope with
  | .vector => { m with vectorRecords := cache }
  | _ => { m with metadataRecords := cache }

def isRunning (m : Manager) (segment : SegmentId) : Bool := m.instances.contains segment

def runningInstances (m : Manager) : Nat := m.instances.size

def isCached (m : Manager) (c : CollectionId) : Scope → Bool
  | .record => false
  | scope => (m.records scope).contains c

def tally (m : Manager) (change : Counters → Counters) : Manager :=
  { m with counters := change m.counters }

/-! ## New collections -/

def layout (m : Manager) : List (Kind × Scope) :=
  match m.deployment with
  | .inProcess settings =>
      [(if settings.isPersistent then .hnswPersisted else .hnswMemory, .vector),
        (.sqlite, .metadata)]
  | .distributed _ =>
      [(.hnswRemote, .vector), (.blockMetadata, .metadata), (.blockRecords, .record)]

/-- One record for each scope of a new collection, with the identifiers given
for the scopes.  Nothing is stored or started. -/
def prepare (m : Manager) (c : Collection) (fresh : Scope → SegmentId) : List Record :=
  m.layout.map fun (kind, scope) =>
    ⟨fresh scope, kind, scope, c.id, m.kinds.propagate kind c.metadata⟩

def complete (m : Manager) (r : Record) : Except Fault Record :=
  match m.deployment with
  | .inProcess _ => .ok r
  | .distributed workers =>
      (workers.endpoint r.collection).map fun endpoint =>
        r.withEntry Record.endpointKey (.text endpoint)

end Manager

end SegmentManager
