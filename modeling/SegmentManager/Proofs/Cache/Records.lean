import SegmentManager.Cache.Records
import SegmentManager.Proofs.Table
import SegmentManager.Proofs.Cache.Recency

/-!
# What a record cache holds

Both policies are seen through `peek?`: an operation changes what is found
under its own collection, and an insertion also loses what it evicts.
-/

namespace SegmentManager.RecordCache

def WellFormed : RecordCache → Prop
  | unbounded records => records.Distinct
  | bounded records => records.WellFormed

def limit? : RecordCache → Option Nat
  | unbounded _ => none
  | bounded records => some records.capacity

theorem wellFormed_unlimited : unlimited.WellFormed := Table.distinct_empty

def ofLimit : Option Nat → RecordCache
  | none => unlimited
  | some capacity => ofCapacity capacity

theorem wellFormed_ofLimit (limit : Option Nat) : (ofLimit limit).WellFormed := by
  cases limit with
  | none => exact wellFormed_unlimited
  | some capacity => exact RecencyCache.wellFormed_empty capacity

@[simp] theorem limit?_ofLimit (limit : Option Nat) : (ofLimit limit).limit? = limit := by
  cases limit <;> rfl

@[simp] theorem peek?_ofLimit (limit : Option Nat) (c : CollectionId) :
    (ofLimit limit).peek? c = none := by
  cases limit <;> rfl

/-! ## Reading -/

@[simp] theorem peek?_touch (cache : RecordCache) (c d : CollectionId) :
    (cache.touch c).2.peek? d = cache.peek? d := by
  cases cache with
  | unbounded records => rfl
  | bounded records => exact RecencyCache.peek?_touch records c d

theorem touch_of_absent {cache : RecordCache} {c : CollectionId} (habsent : cache.peek? c = none) :
    cache.touch c = (none, cache) := by
  cases cache with
  | unbounded records => exact Prod.ext habsent rfl
  | bounded records =>
      have hfind : records.find? c = none := by
        simpa [peek?, RecencyCache.peek?] using habsent
      simp [touch, RecencyCache.touch, hfind]

def charges : RecordCache → List (RecencyEntry CollectionId Record)
  | unbounded _ => []
  | bounded records => records.entries

theorem mem_charges_touch {cache : RecordCache} {c : CollectionId}
    {e : RecencyEntry CollectionId Record} (hmem : e ∈ (cache.touch c).2.charges) :
    e ∈ cache.charges := by
  cases cache with
  | unbounded records => exact hmem
  | bounded records => exact RecencyCache.mem_entries_touch hmem

theorem limit?_touch (cache : RecordCache) (c : CollectionId) :
    (cache.touch c).2.limit? = cache.limit? := by
  cases cache with
  | unbounded records => rfl
  | bounded records => exact congrArg some (RecencyCache.capacity_touch records c)

theorem wellFormed_touch {cache : RecordCache} (hcache : cache.WellFormed) (c : CollectionId) :
    (cache.touch c).2.WellFormed := by
  cases cache with
  | unbounded records => exact hcache
  | bounded records => exact RecencyCache.wellFormed_touch hcache c

/-! ## Taking out -/

theorem peek?_without (cache : RecordCache) (c d : CollectionId) :
    (cache.without c).peek? d = if d = c then none else cache.peek? d := by
  cases cache with
  | unbounded records => exact Table.get?_erase records c d
  | bounded records => exact RecencyCache.peek?_drop records c d

theorem limit?_without (cache : RecordCache) (c : CollectionId) :
    (cache.without c).limit? = cache.limit? := by
  cases cache with
  | unbounded records => rfl
  | bounded records => exact congrArg some (RecencyCache.capacity_drop records c)

theorem mem_charges_without {cache : RecordCache} {c : CollectionId}
    {e : RecencyEntry CollectionId Record} (hmem : e ∈ (cache.without c).charges) :
    e ∈ cache.charges := by
  cases cache with
  | unbounded records => exact hmem
  | bounded records =>
      change e ∈ (records.drop c).entries at hmem
      rw [RecencyCache.entries_drop] at hmem
      exact (RecencyCache.mem_without.mp hmem).1

theorem collections_without (cache : RecordCache) (c : CollectionId) :
    (cache.without c).collections = cache.collections.filter (· ≠ c) := by
  cases cache with
  | unbounded records => exact Table.keys_erase records c
  | bounded records => exact RecencyCache.keys_drop records c

theorem wellFormed_without {cache : RecordCache} (hcache : cache.WellFormed) (c : CollectionId) :
    (cache.without c).WellFormed := by
  cases cache with
  | unbounded records => exact Table.distinct_erase hcache c
  | bounded records => exact RecencyCache.wellFormed_drop hcache c

@[simp] theorem peek?_clear (cache : RecordCache) (c : CollectionId) :
    cache.clear.peek? c = none := by
  cases cache <;> rfl

theorem charges_clear (cache : RecordCache) : cache.clear.charges = [] := by
  cases cache <;> rfl

theorem limit?_clear (cache : RecordCache) : cache.clear.limit? = cache.limit? := by
  cases cache <;> rfl

theorem wellFormed_clear (cache : RecordCache) : cache.clear.WellFormed := by
  cases cache with
  | unbounded records => exact wellFormed_unlimited
  | bounded records => exact RecencyCache.wellFormed_clear records

/-! ## Insertion -/

def evicted (cache : RecordCache) (c : CollectionId) (r : Record) (size : Nat) :
    List (CollectionId × Record) :=
  (cache.insert c r size).1

theorem mem_charges_insert {cache : RecordCache} {c : CollectionId} {r : Record} {size : Nat}
    {e : RecencyEntry CollectionId Record} (hmem : e ∈ (cache.insert c r size).2.charges) :
    e = ⟨c, r, size⟩ ∨ e ∈ cache.charges ∧ e.key ≠ c := by
  cases cache with
  | unbounded records => cases hmem
  | bounded records => exact RecencyCache.mem_entries_insert hmem

theorem limit?_insert (cache : RecordCache) (c : CollectionId) (r : Record) (size : Nat) :
    (cache.insert c r size).2.limit? = cache.limit? := by
  cases cache <;> rfl

theorem evicted_of_unlimited {cache : RecordCache} (hcache : cache.limit? = none)
    (c : CollectionId) (r : Record) (size : Nat) : cache.evicted c r size = [] := by
  cases cache with
  | unbounded records => rfl
  | bounded records => cases hcache

theorem peek?_insert {cache : RecordCache} (hcache : cache.WellFormed) (c : CollectionId)
    (r : Record) (size : Nat) (d : CollectionId) :
    (cache.insert c r size).2.peek? d =
      if d = c then some r
      else if d ∈ (cache.evicted c r size).map (·.1) then none else cache.peek? d := by
  cases cache with
  | unbounded records =>
      have hget := Table.get?_insert records c d r
      simpa [evicted, insert, peek?] using hget
  | bounded records => exact RecencyCache.peek?_insert hcache c r size d

theorem peek?_of_mem_evicted {cache : RecordCache} (hcache : cache.WellFormed)
    {c : CollectionId} {r : Record} {size : Nat} {e : CollectionId × Record}
    (hmem : e ∈ cache.evicted c r size) : e.1 ≠ c ∧ cache.peek? e.1 = some e.2 := by
  cases cache with
  | unbounded records => simp [evicted, insert] at hmem
  | bounded records => exact RecencyCache.peek?_of_mem_evicted hcache.distinct hmem

theorem prefix_evicted (cache : RecordCache) (c : CollectionId) (r : Record) (size : Nat) :
    (cache.evicted c r size).map (·.1) <+: cache.collections.filter (· ≠ c) := by
  cases cache with
  | unbounded records => exact List.nil_prefix
  | bounded records => exact RecencyCache.prefix_evicted records c r size

theorem nodup_evicted {cache : RecordCache} (hcache : cache.WellFormed) (c : CollectionId)
    (r : Record) (size : Nat) : ((cache.evicted c r size).map (·.1)).Nodup := by
  cases cache with
  | unbounded records => simp [evicted, insert]
  | bounded records => exact RecencyCache.nodup_evicted hcache.distinct c r size

theorem wellFormed_insert {cache : RecordCache} (hcache : cache.WellFormed) (c : CollectionId)
    (r : Record) (size : Nat) : (cache.insert c r size).2.WellFormed := by
  cases cache with
  | unbounded records => exact Table.distinct_insert hcache c r
  | bounded records => exact RecencyCache.wellFormed_insert hcache c r size

end SegmentManager.RecordCache
