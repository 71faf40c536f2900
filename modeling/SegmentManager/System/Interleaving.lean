import SegmentManager.System.Run

/-!
# Calls under way

Several callers may work on one manager at a time.  What is left of a call is a
job, and a step of it makes one access to one part of the system: a cache, the
catalog, the table of instances, or one instance.  Between two steps of a job
other jobs may take steps of their own.
-/

namespace SegmentManager

/-- Where a lookup stands: the access that it makes next, with what it has got
so far.  Records that had to leave the cache are torn down one after another,
each in three steps. -/
inductive Lookup
  | consult
  | fetch
  | acquire (r : Record) (cached : Bool)
  | forget (r : Record) (fault : Fault)
  | remember (r : Record) (i : Instance)
  | untrack (c : CollectionId) (r : Record) (gone : List (CollectionId × Record)) (i : Instance)
  | unregister (r : Record) (gone : List (CollectionId × Record)) (i : Instance)
  | retire (evicted : Instance) (gone : List (CollectionId × Record)) (i : Instance)

namespace Lookup

variable {W : Type} [Backend W]

def evicting (i : Instance) : List (CollectionId × Record) → Lookup ⊕ Except Fault Instance
  | [] => .inr (.ok i)
  | (c, r) :: gone => .inl (untrack c r gone i)

def step (c : CollectionId) (k : Capability) :
    Lookup → System W → (Lookup ⊕ Except Fault Instance) × System W
  | consult, s =>
      match s.consult c k.scope with
      | (some r, s) => (.inl (acquire r true), s)
      | (none, s) => (.inl fetch, s)
  | fetch, s =>
      match s.fetch c k.scope with
      | (.ok r, s) => (.inl (acquire r false), s)
      | (.error fault, s) => (.inr (.error fault), s)
  | acquire r cached, s =>
      match s.acquire r with
      | (.ok i, s) => (if cached then .inr (.ok i) else .inl (remember r i), s)
      | (.error fault, s) => (if cached then .inl (forget r fault) else .inr (.error fault), s)
  | forget r fault, s => (.inr (.error fault), s.forget r.collection k.scope)
  | remember r i, s =>
      let (gone, cache) := (s.manager.records k.scope).insert r.collection r (s.footprint r)
      (evicting i gone, { s with manager := s.manager.withRecords k.scope cache })
  | untrack d r gone i, s => (.inl (unregister r gone i), s.untrack d)
  | unregister r gone i, s =>
      match s.unregister r.id with
      | (none, s) => (evicting i gone, s)
      | (some evicted, s) => (.inl (retire evicted gone i), s)
  | retire evicted gone i, s => (evicting i gone, s.retire evicted)

end Lookup

inductive Errand
  | serve (k : Capability)
  | warmMetadata
  | warmVectors
deriving DecidableEq, Repr

def Errand.capability : Errand → Capability
  | serve k => k
  | warmMetadata => .metadataReader
  | warmVectors => .vectorReader

inductive Job
  | lookup (errand : Errand) (c : CollectionId) (stage : Lookup)
  | hint (c : CollectionId)
  | openIndex (c : CollectionId) (i : Instance)
  | track (c : CollectionId) (i : Instance)
  | closeIndexes (targets : List Instance) (closed : Nat)
  | list (c : CollectionId)
  | remove (c : CollectionId) (segment : SegmentId) (later all completed : List SegmentId)
  | forgetVectors (c : CollectionId) (answer : Except Fault (List SegmentId))
  | forgetMetadata (c : CollectionId) (answer : Except Fault (List SegmentId))
  | untrack (c : CollectionId) (answer : Except Fault (List SegmentId))
  | returned (answer : Except Fault Reply)

namespace Job

variable {W : Type} [Backend W]

def proceed (errand : Errand) (c : CollectionId) : Except Fault Instance → Job
  | .error fault => returned (.error fault)
  | .ok i =>
      match errand with
      | .serve _ => returned (.ok (.served i))
      | .warmMetadata => lookup .warmVectors c .consult
      | .warmVectors => openIndex c i

def follow (errand : Errand) (c : CollectionId) : Lookup ⊕ Except Fault Instance → Job
  | .inl stage => lookup errand c stage
  | .inr answer => proceed errand c answer

def removing (c : CollectionId) (all completed : List SegmentId) : List SegmentId → Job
  | [] => forgetVectors c (.ok all)
  | segment :: later => remove c segment later all completed

/-- Takes the instance of a segment out and ends it.  In its own process a
manager goes no further than the first that cannot be deleted. -/
def takeOut (c : CollectionId) (segment : SegmentId) (later all completed : List SegmentId)
    (s : System W) : Job × System W :=
  match s.unregister segment with
  | (none, s) => (removing c all completed later, s)
  | (some i, s) =>
      match s.manager.deployment with
      | .distributed _ => (removing c all completed later, (s.perform .stop i).2.countDeleted)
      | .inProcess _ =>
          match s.perform .delete i with
          | (.ok (), s) => (removing c all (completed ++ [segment]) later, s.countDeleted)
          | (.error fault, s) =>
              (forgetVectors c (.error (.partialDelete completed segment fault)), s)

def step : Job → System W → Job × System W
  | lookup errand c stage, s =>
      let (next, s) := stage.step c errand.capability s
      (follow errand c next, s)
  | hint c, s =>
      match s.manager.deployment with
      | .distributed _ => (returned (.ok .done), s)
      | .inProcess _ => (lookup .warmMetadata c .consult, s)
  | openIndex c i, s =>
      if s.manager.openIndexes.isSome && i.views.persistentIndex then
        match s.perform .openIndex i with
        | (.ok (), s) => (track c i, s)
        | (.error fault, s) => (returned (.error fault), s)
      else (returned (.ok .done), s)
  | track c i, s =>
      match s.manager.openIndexes with
      | none => (returned (.ok .done), s)
      | some o =>
          let tooMany := o.handlesPerIndex.any (· < s.site.heldHandles i)
          let (evicted, tracked) := o.tracked.insert c i 1
          let undersized := if tooMany then o.undersized + 1 else o.undersized
          (closeIndexes (evicted.map (·.2)) evicted.length,
            { s with manager := { s.manager with
                openIndexes := some { o with tracked, undersized } } })
  | closeIndexes [] closed, s =>
      (returned (.ok .done), { s with manager := s.manager.tally fun n =>
        { n with handleEvictions := n.handleEvictions + closed } })
  | closeIndexes (i :: targets) closed, s =>
      (closeIndexes targets closed,
        if i.views.persistentIndex then (s.perform .closeIndex i).2 else s)
  | list c, s =>
      match s.readCatalog c none with
      | (.ok rows, s) => (removing c (rows.map (·.id)) [] (rows.map (·.id)), s)
      | (.error fault, s) => (returned (.error fault), s)
  | remove c segment later all completed, s => takeOut c segment later all completed s
  | forgetVectors c answer, s => (forgetMetadata c answer, s.forget c .vector)
  | forgetMetadata c answer, s => (untrack c answer, s.forget c .metadata)
  | untrack c answer, s => (returned (answer.map .deleted), s.untrack c)
  | returned answer, s => (returned answer, s)

end Job

inductive Query
  | get (c : CollectionId) (k : Capability)
  | hint (c : CollectionId) (operation : Operation)
  | delete (c : CollectionId)
deriving DecidableEq, Repr

namespace Query

def request : Query → Request
  | get c k => .get c k
  | hint c operation => .hint c operation
  | delete c => .delete c

def job : Query → Job
  | get c k => .lookup (.serve k) c .consult
  | hint c _ => .hint c
  | delete c => .list c

end Query

structure Traffic (W : Type) where
  jobs : List Job
  system : System W

namespace Traffic

variable {W : Type} [Backend W]

def start (queries : List Query) (s : System W) : Traffic W := ⟨queries.map Query.job, s⟩

def turn (x : Traffic W) (n : Nat) : Traffic W :=
  match x.jobs[n]? with
  | none => x
  | some job => ⟨x.jobs.set n (job.step x.system).1, (job.step x.system).2⟩

def run (schedule : List Nat) (x : Traffic W) : Traffic W := schedule.foldl turn x

end Traffic

end SegmentManager
