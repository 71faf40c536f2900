import SegmentManager.Record
import SegmentManager.Table
import SegmentManager.Cache.Recency

/-!
# Record caches

The records of one scope, one for each collection.  An unbounded cache keeps
what it is given.  A bounded one charges each record with a size, which is
fixed when the record is put in, and lets the records used longest ago leave
when the sizes no longer fit.
-/

namespace SegmentManager

inductive RecordCache
  | unbounded (records : Table CollectionId Record)
  | bounded (records : RecencyCache CollectionId Record)
deriving DecidableEq, Repr

namespace RecordCache

def unlimited : RecordCache := unbounded .empty

def ofCapacity (capacity : Nat) : RecordCache := bounded (.empty capacity)

instance : Inhabited RecordCache := ⟨unlimited⟩

def peek? : RecordCache → CollectionId → Option Record
  | unbounded records, c => records.get? c
  | bounded records, c => records.peek? c

def contains (cache : RecordCache) (c : CollectionId) : Bool := (cache.peek? c).isSome

def touch : RecordCache → CollectionId → Option Record × RecordCache
  | unbounded records, c => (records.get? c, unbounded records)
  | bounded records, c =>
      let (found, records) := records.touch c
      (found, bounded records)

/-- Puts a record in, over one of the same collection, and gives what had to
leave, the record used longest ago first. -/
def insert (c : CollectionId) (r : Record) (size : Nat) :
    RecordCache → List (CollectionId × Record) × RecordCache
  | unbounded records => ([], unbounded (records.insert c r))
  | bounded records =>
      let (evicted, records) := records.insert c r size
      (evicted, bounded records)

/-- Puts a record in and then announces each record that had to leave.  The
announcements work on a state that holds the cache as it is by then, and may
change it. -/
def insertThen {σ : Type} (cache : RecordCache) (c : CollectionId) (r : Record) (size : Nat)
    (holding : RecordCache → σ) (announce : CollectionId → Record → σ → σ) : σ :=
  let (evicted, cache) := cache.insert c r size
  evicted.foldl (fun state e => announce e.1 e.2 state) (holding cache)

def remove (cache : RecordCache) (c : CollectionId) : Option Record × RecordCache :=
  match cache with
  | unbounded records =>
      let (found, records) := records.pop c
      (found, unbounded records)
  | bounded records =>
      let (found, records) := records.remove c
      (found, bounded records)

def without (cache : RecordCache) (c : CollectionId) : RecordCache := (cache.remove c).2

def clear : RecordCache → RecordCache
  | unbounded _ => unlimited
  | bounded records => bounded records.clear

def collections : RecordCache → List CollectionId
  | unbounded records => records.keys
  | bounded records => records.keys

def count (cache : RecordCache) : Nat := cache.collections.length

def isEmpty (cache : RecordCache) : Bool := cache.collections.isEmpty

@[simp] theorem touch_fst (cache : RecordCache) (c : CollectionId) :
    (cache.touch c).1 = cache.peek? c := by
  cases cache with
  | unbounded => rfl
  | bounded records =>
      simp only [touch, peek?, RecencyCache.touch, RecencyCache.peek?]
      cases records.find? c <;> rfl

@[simp] theorem remove_fst (cache : RecordCache) (c : CollectionId) :
    (cache.remove c).1 = cache.peek? c := by
  cases cache <;> rfl

end RecordCache

end SegmentManager
