import SegmentManager.Proofs.System.Lifecycle

/-!
# The memory budget of running vectors

A manager with a memory budget charges every vector record that it caches with
the size of its segment at that time.  If rows leave the catalog only after
their collection was deleted, no vector segment runs that is not charged, so the
budget bounds what runs, except that one segment may be too large by itself.
-/

namespace SegmentManager

open Simulation

/-! ## Measurements -/

def latest (log : List (CollectionId × Nat)) (c : CollectionId) : Option Nat :=
  (log.reverse.find? (·.1 = c)).map (·.2)

theorem latest_concat (log : List (CollectionId × Nat)) (c d : CollectionId) (bytes : Nat) :
    latest (log ++ [(c, bytes)]) d = if d = c then some bytes else latest log d := by
  unfold latest
  rw [List.reverse_append, List.reverse_singleton, List.singleton_append, List.find?_cons]
  by_cases hd : d = c
  · simp [hd]
  · have hne : c ≠ d := fun heq => hd heq.symm
    simp [hd, hne]

def Manager.vectors (m : Manager) : List Instance :=
  m.instances.values.filter (·.record.scope = .vector)

namespace System

variable {W : Type} [Backend W]

def measuredBy (c : CollectionId) (s : System W) : Option (CollectionId × Nat) :=
  match s.manager.cached? .vectorReader c, s.load c .vectorReader with
  | none, (.ok (r, _), s') => some (c, s'.footprint r)
  | _, _ => none

def measured (s : System W) : Event W → Option (CollectionId × Nat)
  | .request (.get c .vectorReader) => s.measuredBy c
  | .request (.getNamed c name) =>
      if Capability.ofName? name = some .vectorReader then s.measuredBy c else none
  | .request (.hint c _) =>
      match s.getSegment c .metadataReader with
      | (.ok _, s') => s'.measuredBy c
      | (.error _, _) => none
  | _ => none

def measurements : List (Event W) → System W → List (CollectionId × Nat)
  | [], _ => []
  | e :: events, s => (s.measured e).toList ++ measurements events (s.after e)

theorem measurements_concat (events : List (Event W)) (e : Event W) (s : System W) :
    s.measurements (events ++ [e]) =
      s.measurements events ++ ((s.replay events).measured e).toList := by
  induction events generalizing s with
  | nil => simp [measurements]
  | cons first rest ih =>
      rw [List.cons_append, measurements, ih, measurements, List.append_assoc]
      rfl

/-- Rows leave the catalog only right after their collection was deleted. -/
def Tidy (s : System W) (events : List (Event W)) : Prop :=
  ∀ before c after, events = before ++ .withdraw c :: after →
    ∃ earlier segments, before = earlier ++ [.request (.delete c)] ∧
      ((s.replay earlier).deleteSegments c).1 = .ok segments

theorem Tidy.of_append {s : System W} {events later : List (Event W)}
    (htidy : s.Tidy (events ++ later)) : s.Tidy events := by
  rintro before c after rfl
  exact htidy before c (after ++ later) (by simp)

theorem Tidy.concat {s : System W} {events : List (Event W)} (htidy : s.Tidy events)
    {e : Event W} (hlast : ∀ c, e = .withdraw c → ∃ earlier segments,
      events = earlier ++ [.request (.delete c)] ∧
        ((s.replay earlier).deleteSegments c).1 = .ok segments) :
    s.Tidy (events ++ [e]) := by
  intro before c after hsplit
  rcases List.eq_nil_or_concat after with rfl | ⟨between, last, rfl⟩
  · obtain ⟨rfl, hwithdraw⟩ := List.append_inj' hsplit rfl
    exact hlast c (List.singleton_inj.mp hwithdraw)
  · rw [List.concat_eq_append, ← List.cons_append, ← List.append_assoc] at hsplit
    obtain ⟨hearlier, -⟩ := List.append_inj' hsplit rfl
    exact htidy before c between hearlier

/-! ## What is charged and what runs -/

/-- Charges are the latest measurements, every running vector segment is cached,
and whatever runs is still in the catalog. -/
structure Budgeted (log : List (CollectionId × Nat)) (s : System W) : Prop where
  charged : ∀ e ∈ s.manager.vectorRecords.charges, latest log e.key = some e.size
  vectors : ∀ segment i, s.manager.running? segment = some i → i.record.scope = .vector →
    s.manager.cached? .vectorReader i.record.collection = some i.record
  recorded : ∀ segment i, s.manager.running? segment = some i → i.record ∈ s.catalog.rows

variable {created : List Record} {log : List (CollectionId × Nat)} {s s' : System W}
  {settings : Settings} {c : CollectionId} {k : Capability}

namespace Budgeted

omit [Backend W] in
theorem restrict (hs : s.Budgeted log)
    (hcharges : ∀ e ∈ s'.manager.vectorRecords.charges, e ∈ s.manager.vectorRecords.charges)
    (hrunning : ∀ segment i, s'.manager.running? segment = some i →
      s.manager.running? segment = some i ∧ i.record ∈ s'.catalog.rows ∧
        s'.manager.cached? .vectorReader i.record.collection =
          s.manager.cached? .vectorReader i.record.collection) : s'.Budgeted log := by
  refine ⟨?_, ?_, ?_⟩
  · intro e he
    exact hs.charged e (hcharges e he)
  · intro segment i hi hscope
    obtain ⟨hbefore, -, hcached⟩ := hrunning segment i hi
    rw [hcached]
    exact hs.vectors segment i hbefore hscope
  · intro segment i hi
    exact (hrunning segment i hi).2.1

omit [Backend W] in
theorem consult (hs : s.Budgeted log) (c : CollectionId) (k : Capability) :
    (s.consult c k.scope).2.Budgeted log := by
  apply hs.restrict
  · intro e he
    cases k with
    | metadataReader => exact he
    | vectorReader => exact RecordCache.mem_charges_touch he
  · intro segment i hi
    unfold Manager.running? at hi
    rw [instances_consult] at hi
    exact ⟨hi, hs.recorded segment i hi, cached?_consult c _ k .vectorReader s⟩

omit [Backend W] in
theorem congr (hs : s.Budgeted log)
    (hvectors : s'.manager.vectorRecords = s.manager.vectorRecords)
    (hrunning : ∀ segment, s'.manager.running? segment = s.manager.running? segment)
    (hrows : s'.catalog.rows = s.catalog.rows) : s'.Budgeted log := by
  apply hs.restrict
  · intro e he
    rwa [hvectors] at he
  · intro segment i hi
    rw [hrunning] at hi
    rw [hrows]
    exact ⟨hi, hs.recorded segment i hi, congrArg (RecordCache.peek? · _) hvectors⟩

theorem loads_failed (hs : s.Budgeted log) (habsent : s.manager.cached? k c = none)
    {fault : Fault} (hload : Loads c k s (.error fault) s') : s'.Budgeted log := by
  have hvectors := (sameCaches_fetching habsent).vectorRecords
  cases hload with
  | refused fault => exact hs.congr hvectors running?_fetching rows_fetching
  | failed hadmits hnone hlaunch => exact hs.congr hvectors running?_fetching rows_fetching

end Budgeted

/-! ## Remembering -/

theorem vectorRecords_remember_vector (r : Record) (s : System W) :
    (s.remember r Capability.vectorReader.scope).manager.vectorRecords =
      (s.manager.vectorRecords.insert r.collection r (s.footprint r)).2 :=
  records_evictAll (s.displaced r .vector) (s.caching r .vector) .vector

theorem vectorRecords_remember_metadata (r : Record) (s : System W) :
    (s.remember r Capability.metadataReader.scope).manager.vectorRecords =
      s.manager.vectorRecords :=
  records_evictAll (s.displaced r .metadata) (s.caching r .metadata) .vector

theorem Coherent.running_of_loads (hs : s.Coherent created)
    (hdeployment : s.manager.deployment = .inProcess settings)
    (habsent : s.manager.cached? k c = none) {r : Record} {i : Instance}
    (hload : Loads c k s (.ok (r, i)) s') {segment : SegmentId} {j : Instance}
    (hj : s'.manager.running? segment = some j) :
    s.manager.running? segment = some j ∨ j.record = r := by
  obtain ⟨hs', -, hok⟩ := hs.loads habsent hload
  obtain ⟨hadmits, hrunning⟩ := hok r i rfl
  have hdeployment' := hload.sameSetup.deployment.trans hdeployment
  have hrecord := hs'.record_of_running hdeployment' hadmits hrunning
  rcases hload.running_of hj with hbefore | ⟨-, r', hanswer, -⟩
  · exact .inl hbefore
  · right
    cases hanswer
    exact hrecord

theorem Budgeted.recorded_of_loads (hs : s.Budgeted log) (hcoherent : s.Coherent created)
    (hdeployment : s.manager.deployment = .inProcess settings)
    (habsent : s.manager.cached? k c = none) {r : Record} {i : Instance}
    (hload : Loads c k s (.ok (r, i)) s') {segment : SegmentId} {j : Instance}
    (hj : s'.manager.running? segment = some j) : j.record ∈ s'.catalog.rows := by
  obtain ⟨hadmits, hrows⟩ := hload.admits
  rw [hrows]
  rcases hcoherent.running_of_loads hdeployment habsent hload hj with hbefore | hrecord
  · exact hs.recorded segment j hbefore
  · obtain ⟨row, hrow, hserves⟩ := hadmits.served
    rw [hdeployment] at hserves
    have hsame : r = row := hserves
    rw [hrecord, hsame]
    exact hrow

/-- A running vector segment of another record than the one that is remembered
keeps its place in the cache. -/
theorem Budgeted.vectors_of_remember (hs : s.Budgeted log) {r : Record}
    (habsent : s.manager.cached? .vectorReader r.collection = none)
    (hwell : s'.manager.WellFormed) (hcaches : Manager.SameCaches s.manager s'.manager)
    {segment : SegmentId} {j : Instance} (hid : j.record.id = segment)
    (hbefore : s.manager.running? segment = some j) (hscope : j.record.scope = .vector)
    (hstays : segment ∉ (s'.displaced r Capability.vectorReader.scope).map (·.2.id)) :
    (s'.remember r Capability.vectorReader.scope).manager.cached? .vectorReader
      j.record.collection = some j.record := by
  have hcached := hs.vectors segment j hbefore hscope
  have hne : j.record.collection ≠ r.collection := by
    intro heq
    rw [heq, habsent] at hcached
    cases hcached
  have hkept : j.record.collection ∉ (s'.displaced r Capability.vectorReader.scope).map (·.1) := by
    intro hmem
    obtain ⟨gone, hgone, hcollection⟩ := List.mem_map.mp hmem
    have hleaving := (mem_displaced r .vectorReader hwell hgone).2
    rw [hcollection, hcaches.cached?, hcached] at hleaving
    apply hstays
    rw [← hid, Option.some.inj hleaving]
    exact List.mem_map.mpr ⟨gone, hgone, rfl⟩
  rw [cached?_remember r .vectorReader hwell, if_pos rfl, if_neg hne, if_neg hkept,
    hcaches.cached?]
  exact hcached

theorem Budgeted.loaded_vectors (hs : s.Budgeted log) (hcoherent : s.Coherent created)
    (hdeployment : s.manager.deployment = .inProcess settings)
    (habsent : s.manager.cached? .vectorReader c = none) {r : Record} {i : Instance}
    (hload : Loads c .vectorReader s (.ok (r, i)) s') :
    (s'.remember r Capability.vectorReader.scope).Budgeted (log ++ [(c, s'.footprint r)]) := by
  obtain ⟨hcoherent', hcaches, hok⟩ := hcoherent.loads habsent hload
  obtain ⟨hadmits, -⟩ := hok r i rfl
  have hcollection : r.collection = c := hadmits.collection
  have hwell := hcoherent'.manager.wellFormed
  refine ⟨?_, ?_, ?_⟩
  · intro e he
    rw [vectorRecords_remember_vector, hcaches.vectorRecords] at he
    rw [latest_concat]
    rcases RecordCache.mem_charges_insert he with rfl | ⟨hbefore, hkey⟩
    · rw [if_pos hcollection]
    · rw [if_neg (hcollection ▸ hkey)]
      exact hs.charged e hbefore
  · intro segment j hj hscope
    obtain ⟨hafter, hstays⟩ := running?_of_remember hj
    have hid := (hcoherent'.manager.running segment j hafter).1
    rcases hcoherent.running_of_loads hdeployment habsent hload hafter with hbefore | hrecord
    · exact hs.vectors_of_remember (hcollection ▸ habsent) hwell hcaches hid hbefore hscope hstays
    · rw [hrecord, cached?_remember r .vectorReader hwell, if_pos rfl, if_pos rfl]
  · intro segment j hj
    rw [catalog_remember]
    exact hs.recorded_of_loads hcoherent hdeployment habsent hload (running?_of_remember hj).1

theorem Budgeted.loaded_metadata (hs : s.Budgeted log) (hcoherent : s.Coherent created)
    (hdeployment : s.manager.deployment = .inProcess settings)
    (habsent : s.manager.cached? .metadataReader c = none) {r : Record} {i : Instance}
    (hload : Loads c .metadataReader s (.ok (r, i)) s') :
    (s'.remember r Capability.metadataReader.scope).Budgeted log := by
  obtain ⟨hcoherent', hcaches, hok⟩ := hcoherent.loads habsent hload
  obtain ⟨hadmits, -⟩ := hok r i rfl
  have hwell := hcoherent'.manager.wellFormed
  refine ⟨?_, ?_, ?_⟩
  · intro e he
    rw [vectorRecords_remember_metadata, hcaches.vectorRecords] at he
    exact hs.charged e he
  · intro segment j hj hscope
    rw [cached?_remember r .metadataReader hwell, if_neg (by simp), hcaches.cached?]
    rcases hcoherent.running_of_loads hdeployment habsent hload (running?_of_remember hj).1
      with hbefore | hrecord
    · exact hs.vectors segment j hbefore hscope
    · rw [hrecord, hadmits.scope] at hscope
      cases hscope
  · intro segment j hj
    rw [catalog_remember]
    exact hs.recorded_of_loads hcoherent hdeployment habsent hload (running?_of_remember hj).1

/-! ## What runs and what it may take -/

omit [Backend W] in
/-- The vector segments that run are those of the cached records. -/
theorem Budgeted.perm_vectors {records : RecencyCache CollectionId Record}
    (hs : s.Budgeted log) (hcoherent : s.Coherent created)
    (hdeployment : s.manager.deployment = .inProcess settings)
    (hrecords : s.manager.vectorRecords = .bounded records) (hwell : records.WellFormed) :
    (s.manager.vectors.map (·.record)).Perm (records.entries.map (·.value)) := by
  have hfound : ∀ c, s.manager.cached? .vectorReader c = records.peek? c := by
    intro c
    change s.manager.vectorRecords.peek? c = _
    rw [hrecords]
    rfl
  have hentry : ∀ e ∈ records.entries, s.manager.cached? .vectorReader e.key = some e.value := by
    intro e he
    rw [hfound]
    exact (RecencyCache.peek?_eq_some_iff hwell.distinct).mpr ⟨e, he, rfl, rfl⟩
  have hrunning : (s.manager.vectors.map (·.record)).Nodup := by
    have hids : (s.manager.instances.values.map (·.record.id)).Nodup := by
      rw [hcoherent.ids_values]
      exact hcoherent.manager.wellFormed.instances
    apply List.Nodup.of_map (·.id)
    rw [List.map_map]
    exact (List.filter_sublist.map _).nodup hids
  have hcached : (records.entries.map (·.value)).Nodup := by
    have hkeys : records.entries.map (·.value.collection) = records.keys := by
      apply List.map_congr_left
      intro e he
      exact (hcoherent.manager.cached _ _ _ (hentry e he)).1.collection
    apply List.Nodup.of_map (·.collection)
    rw [List.map_map]
    exact hkeys ▸ hwell.distinct
  apply (List.perm_ext_iff_of_nodup hrunning hcached).mpr
  intro r
  constructor
  · intro hr
    obtain ⟨i, hi, rfl⟩ := List.mem_map.mp hr
    obtain ⟨hvalue, hscope⟩ := List.mem_filter.mp hi
    have hheld := hs.vectors _ i (hcoherent.mem_values_iff.mp hvalue) (by simpa using hscope)
    rw [hfound] at hheld
    obtain ⟨e, he, -, hsame⟩ := (RecencyCache.peek?_eq_some_iff hwell.distinct).mp hheld
    exact List.mem_map.mpr ⟨e, he, hsame⟩
  · intro hr
    obtain ⟨e, he, rfl⟩ := List.mem_map.mp hr
    obtain ⟨hadmits, i, hi⟩ := hcoherent.manager.cached _ _ _ (hentry e he)
    have hrecord := hcoherent.record_of_running hdeployment hadmits hi
    rw [← hrecord] at hi hadmits
    have hscope : i.record.scope = .vector := hadmits.scope
    apply List.mem_map.mpr
    refine ⟨i, List.mem_filter.mpr ⟨hcoherent.mem_values_iff.mpr hi, ?_⟩, hrecord⟩
    simpa using hscope

omit [Backend W] in
theorem Coherent.bounded_of_budget (hs : s.Coherent created)
    (hdeployment : s.manager.deployment = .inProcess settings)
    (hbudget : settings.usesMemoryBudget = true) :
    ∃ records, s.manager.vectorRecords = .bounded records ∧
      records.capacity = settings.memoryLimit ∧ records.WellFormed := by
  have hlimit : s.manager.vectorRecords.limit? = s.manager.deployment.limit? .vectorReader :=
    hs.manager.limits .vectorReader
  have hwell : s.manager.vectorRecords.WellFormed := hs.manager.wellFormed.records .vectorReader
  rw [hdeployment, Deployment.limit?, if_pos hbudget] at hlimit
  cases hrecords : s.manager.vectorRecords with
  | unbounded records =>
      rw [hrecords] at hlimit
      cases hlimit
  | bounded records =>
      rw [hrecords] at hlimit hwell
      exact ⟨records, rfl, Option.some.inj hlimit, hwell⟩

/-! ## Requests -/

theorem measuredBy_of_cached {r : Record} (hcached : s.manager.cached? .vectorReader c = some r) :
    s.measuredBy c = none := by
  unfold measuredBy
  rw [hcached]

theorem measuredBy_of_failed {fault : Fault}
    (hload : s.load c .vectorReader = (.error fault, s')) : s.measuredBy c = none := by
  unfold measuredBy
  rw [hload]
  cases s.manager.cached? .vectorReader c <;> rfl

theorem measuredBy_of_loaded (habsent : s.manager.cached? .vectorReader c = none) {r : Record}
    {i : Instance} (hload : s.load c .vectorReader = (.ok (r, i), s')) :
    s.measuredBy c = some (c, s'.footprint r) := by
  unfold measuredBy
  rw [habsent, hload]

theorem Budgeted.getVectors (hs : s.Budgeted log) (hcoherent : s.Coherent created)
    (hdeployment : s.manager.deployment = .inProcess settings) (c : CollectionId) :
    (s.getSegment c .vectorReader).2.Budgeted (log ++ (s.measuredBy c).toList) := by
  cases hcached : s.manager.cached? .vectorReader c with
  | some r =>
      obtain ⟨-, i, hrunning⟩ := hcoherent.manager.cached .vectorReader c r hcached
      rw [getSegment_of_cached hcached hrunning, measuredBy_of_cached hcached,
        Option.toList_none, List.append_nil]
      exact hs.consult c .vectorReader
  | none =>
      have hload := loads_load c .vectorReader hcoherent.filtering
      rw [getSegment_of_absent hcached]
      cases hend : s.load c .vectorReader with
      | mk answer s' =>
          rw [hend] at hload
          cases answer with
          | error fault =>
              rw [measuredBy_of_failed hend, Option.toList_none, List.append_nil]
              exact hs.loads_failed hcached hload
          | ok loaded =>
              obtain ⟨r, i⟩ := loaded
              rw [measuredBy_of_loaded hcached hend]
              exact hs.loaded_vectors hcoherent hdeployment hcached hload

theorem Budgeted.getMetadata (hs : s.Budgeted log) (hcoherent : s.Coherent created)
    (hdeployment : s.manager.deployment = .inProcess settings) (c : CollectionId) :
    (s.getSegment c .metadataReader).2.Budgeted log := by
  have hlook := hcoherent.looks_getSegment c .metadataReader
  generalize (s.getSegment c .metadataReader).1 = answer at hlook
  generalize (s.getSegment c .metadataReader).2 = s' at hlook ⊢
  cases hlook with
  | cached hcached hrunning => exact hs.consult c .metadataReader
  | failed habsent hload => exact hs.loads_failed habsent hload
  | loaded habsent hload => exact hs.loaded_metadata hcoherent hdeployment habsent hload

theorem Budgeted.getSegment (hs : s.Budgeted log) (hcoherent : s.Coherent created)
    (hdeployment : s.manager.deployment = .inProcess settings) (c : CollectionId)
    (k : Capability) : (s.getSegment c k).2.Budgeted
      (log ++ (s.measured (.request (.get c k))).toList) := by
  cases k with
  | vectorReader => exact hs.getVectors hcoherent hdeployment c
  | metadataReader =>
      rw [measured, Option.toList_none, List.append_nil]
      · exact hs.getMetadata hcoherent hdeployment c
      all_goals simp

theorem Budgeted.getSegmentNamed (hs : s.Budgeted log) (hcoherent : s.Coherent created)
    (hdeployment : s.manager.deployment = .inProcess settings) (c : CollectionId)
    (name : String) : (s.getSegmentNamed c name).2.Budgeted
      (log ++ (s.measured (.request (.getNamed c name))).toList) := by
  have hmeasured : s.measured (.request (.getNamed c name)) =
      if Capability.ofName? name = some .vectorReader then s.measuredBy c else none := rfl
  rw [hmeasured]
  unfold System.getSegmentNamed
  cases hname : Capability.ofName? name with
  | none =>
      rw [if_neg (by simp), Option.toList_none, List.append_nil]
      exact hs
  | some k =>
      cases k with
      | vectorReader =>
          rw [if_pos rfl]
          exact hs.getVectors hcoherent hdeployment c
      | metadataReader =>
          rw [if_neg (by simp), Option.toList_none, List.append_nil]
          exact hs.getMetadata hcoherent hdeployment c

theorem Budgeted.tracks (hs : s.Budgeted log) {i : Instance} {answer : Except Fault Unit}
    (htracks : Tracks c i s answer s') : s'.Budgeted log := by
  cases htracks with
  | skipped => exact hs
  | refused hpersistent hperform => exact hs.congr rfl (fun segment => rfl) rfl
  | tracked hbefore hpersistent hperform => exact hs.congr rfl (fun segment => rfl) rfl

theorem Budgeted.hint (hs : s.Budgeted log) (hcoherent : s.Coherent created)
    (hdeployment : s.manager.deployment = .inProcess settings) (c : CollectionId)
    (operation : Operation) : (s.hint c operation).2.Budgeted
      (log ++ (s.measured (.request (.hint c operation))).toList) := by
  have hmetadata := hs.getMetadata hcoherent hdeployment c
  have hlook := hcoherent.looks_getSegment c .metadataReader
  have hcoherent' := (hcoherent.looks hlook).1
  have hdeployment' := hlook.sameSetup.deployment.trans hdeployment
  have hmeasured : s.measured (.request (.hint c operation)) =
      match s.getSegment c .metadataReader with
      | (.ok _, s') => s'.measuredBy c
      | (.error _, _) => none := rfl
  rw [hmeasured]
  unfold System.hint
  rw [hdeployment]
  cases hfirst : s.getSegment c .metadataReader with
  | mk answer next =>
      rw [hfirst] at hmetadata hcoherent' hdeployment'
      cases answer with
      | error fault =>
          simp only [Option.toList_none, List.append_nil]
          exact hmetadata
      | ok i =>
          have hvectors := hmetadata.getVectors hcoherent' hdeployment' c
          simp only at hvectors ⊢
          cases hsecond : next.getSegment c .vectorReader with
          | mk answer last =>
              rw [hsecond] at hvectors
              cases answer with
              | error fault => exact hvectors
              | ok j => exact hvectors.tracks (tracks_trackIndex c j last)

/-- Of a collection whose rows were all visited nothing runs on. -/
theorem Budgeted.running_of_down (hs : s.Budgeted log) (hcoherent : s.Coherent created)
    {action : Action} {asked : List Instance} {counted : Nat}
    (hdown : TakenDown action ((s.catalog.rowsOf c).map (·.id)) asked counted (s.listing c) s')
    {segment : SegmentId} {i : Instance} (hi : s'.manager.running? segment = some i) :
    s.manager.running? segment = some i ∧ i.record.collection ≠ c := by
  rw [hdown.running] at hi
  split at hi
  · cases hi
  · rename_i hstays
    have hbefore : s.manager.running? segment = some i := hi
    refine ⟨hbefore, ?_⟩
    intro hcollection
    apply hstays
    rw [← (hcoherent.manager.running segment i hbefore).1]
    have hrow := hs.recorded segment i hbefore
    exact List.mem_map.mpr ⟨i.record, List.mem_filter.mpr ⟨hrow, by simpa using hcollection⟩, rfl⟩

theorem Budgeted.forgetAll (hs : s.Budgeted log) (hcoherent : s.Coherent created)
    {action : Action} {asked : List Instance} {counted : Nat}
    (hdown : TakenDown action ((s.catalog.rowsOf c).map (·.id)) asked counted
      (s.listing c) s') : (s'.forgetAll c).Budgeted log := by
  apply hs.restrict
  · intro e he
    have hbefore : s'.manager.vectorRecords = s.manager.vectorRecords :=
      hdown.caches.vectorRecords
    rw [← hbefore]
    exact RecordCache.mem_charges_without he
  · intro segment i hi
    obtain ⟨hbefore, hother⟩ := hs.running_of_down hcoherent hdown hi
    have hrows : (s'.forgetAll c).catalog.rows = s.catalog.rows := by
      change s'.catalog.rows = _
      rw [hdown.catalog, rows_listing]
    rw [hrows, cached?_forgetAll, if_neg hother]
    exact ⟨hbefore, hs.recorded segment i hbefore, hdown.caches.cached? _ _⟩

theorem Budgeted.deleteSegments (hs : s.Budgeted log) (hcoherent : s.Coherent created)
    (hdeployment : s.manager.deployment = .inProcess settings) (c : CollectionId)
    (hsucceeds : ∀ i, Call.act .delete i false ∉ (s.deleteSegments c).2.site.journal) :
    (s.deleteSegments c).2.Budgeted log ∧
      ∀ segments, (s.deleteSegments c).1 = .ok segments →
        ∀ segment i, (s.deleteSegments c).2.manager.running? segment = some i →
          i.record.collection ≠ c := by
  have hclears := hcoherent.clears_deleteSegments c
  generalize (s.deleteSegments c).1 = answer at hclears ⊢
  generalize (s.deleteSegments c).2 = s' at hclears hsucceeds ⊢
  cases hclears with
  | refused hrefusal =>
      refine ⟨hs.congr rfl (fun segment => rfl) (rows_listing c s), ?_⟩
      rintro segments ⟨⟩
  | released hdistributed hdown =>
      rw [hdeployment] at hdistributed
      cases hdistributed
  | deleted hsame hdeletes =>
      rename_i completed failure s'
      cases hdeletes with
      | complete hok hdown =>
          refine ⟨hs.forgetAll hcoherent hdown, ?_⟩
          intro segments hanswer segment i hi
          exact (hs.running_of_down hcoherent hdown hi).2
      | broken hsplit hrunning hok hfails hdown =>
          rename_i before after failed i cause
          have hfailed : Call.act .delete i false ∈ (s'.forgetAll c).site.journal := by
            change _ ∈ s'.site.journal
            rw [hdown.site, Site.journal_performAll_concat hok hfails]
            simp
          exact (hsucceeds i hfailed).elim

theorem Budgeted.reset (hs : s.Budgeted log) (order : List SegmentId) :
    (s.reset order).2.Budgeted log := by
  apply hs.restrict
  · intro e he
    have hnone : (s.reset order).2.manager.vectorRecords.charges = [] :=
      RecordCache.charges_clear s.manager.vectorRecords
    rw [hnone] at he
    cases he
  · intro segment i hi
    cases hi

theorem Budgeted.handle (hs : s.Budgeted log) (hcoherent : s.Coherent created)
    (hdeployment : s.manager.deployment = .inProcess settings) (q : Request)
    (hsucceeds : ∀ i, Call.act .delete i false ∉ (s.handle q).2.site.journal) :
    (s.handle q).2.Budgeted (log ++ (s.measured (.request q)).toList) := by
  have hquiet : s.measured (.request q) = none → (s.handle q).2.Budgeted log →
      (s.handle q).2.Budgeted (log ++ (s.measured (.request q)).toList) := by
    intro hnone hafter
    rw [hnone, Option.toList_none, List.append_nil]
    exact hafter
  cases q with
  | get c k => exact hs.getSegment hcoherent hdeployment c k
  | getNamed c name => exact hs.getSegmentNamed hcoherent hdeployment c name
  | hint c operation => exact hs.hint hcoherent hdeployment c operation
  | delete c => exact hquiet rfl (hs.deleteSegments hcoherent hdeployment c hsucceeds).1
  | start order => exact hquiet rfl (hs.congr rfl (fun segment => rfl) rfl)
  | stop order => exact hquiet rfl (hs.congr rfl (fun segment => rfl) rfl)
  | reset order => exact hquiet rfl (hs.reset order)

/-! ## Histories -/

theorem Budgeted.withdraw (hs : s.Budgeted log)
    (hgone : ∀ segment i, s.manager.running? segment = some i → i.record.collection ≠ c) :
    (s.after (.withdraw c)).Budgeted log := by
  apply hs.restrict
  · intro e he
    exact he
  · intro segment i hi
    have hrow : i.record ∈ s.catalog.rows.filter fun r => r.collection ≠ c :=
      List.mem_filter.mpr ⟨hs.recorded segment i hi, by simpa using hgone segment i hi⟩
    exact ⟨hi, hrow, rfl⟩

theorem Budgeted.after (hs : s.Budgeted log) (hcoherent : s.Coherent created)
    (hdeployment : s.manager.deployment = .inProcess settings) (e : Event W)
    (hsucceeds : ∀ i, Call.act .delete i false ∉ (s.after e).site.journal)
    (hgone : ∀ c, e = .withdraw c →
      ∀ segment i, s.manager.running? segment = some i → i.record.collection ≠ c) :
    (s.after e).Budgeted (log ++ (s.measured e).toList) := by
  have hquiet : s.measured e = none → (s.after e).Budgeted log →
      (s.after e).Budgeted (log ++ (s.measured e).toList) := by
    intro hnone hafter
    rw [hnone, Option.toList_none, List.append_nil]
    exact hafter
  cases e with
  | request q => exact hs.handle hcoherent hdeployment q hsucceeds
  | enter rows =>
      refine hquiet rfl (hs.restrict (fun e he => he) ?_)
      intro segment i hi
      exact ⟨hi, List.mem_append_left rows (hs.recorded segment i hi), rfl⟩
  | withdraw c => exact hquiet rfl (hs.withdraw (hgone c rfl))
  | refuse text => exact hquiet rfl (hs.congr rfl (fun segment => rfl) rfl)
  | regroup members =>
      have hsame : s.after (.regroup members) = s := by
        change { s with manager := s.manager.withMembers members } = s
        rw [Manager.withMembers_of_inProcess hdeployment]
      apply hquiet rfl
      rw [hsame]
      exact hs
  | elapse change => exact hquiet rfl (hs.congr rfl (fun segment => rfl) rfl)

omit [Backend W] in
theorem budgeted_initial {g : Registry} {m : Manager}
    (hm : Manager.inProcess settings g = .ok m) (w : W) : (initial m w).Budgeted [] := by
  obtain ⟨openIndexes, rfl, -⟩ := Manager.inProcess_eq_ok hm
  refine ⟨?_, ?_, ?_⟩
  · intro e he
    have hmem : e ∈ RecordCache.charges (if settings.usesMemoryBudget then
        .ofCapacity settings.memoryLimit else .unlimited) := he
    split at hmem <;> cases hmem
  · rintro segment i ⟨⟩
  · rintro segment i ⟨⟩

theorem Coherent.journal_after (hs : s.Coherent created) (e : Event W) {call : Call}
    (hcall : call ∈ s.site.journal) : call ∈ (s.after e).site.journal := by
  rw [(hs.ledger_noted rfl e).1]
  exact List.mem_append_right _ hcall

theorem budgeted_replay {g : Registry} {m : Manager}
    (hm : Manager.inProcess settings g = .ok m) (w : W) {events : List (Event W)}
    (hids : Event.NeverShared events) (htidy : (initial m w).Tidy events)
    (hsucceeds : ∀ i, Call.act .delete i false ∉ ((initial m w).replay events).site.journal) :
    ((initial m w).replay events).Budgeted ((initial m w).measurements events) := by
  -- A withdrawal needs what the deletion before it left behind, so that goes along.
  suffices hboth : ((initial m w).replay events).Budgeted ((initial m w).measurements events) ∧
      ∀ earlier c segments, events = earlier ++ [.request (.delete c)] →
        (((initial m w).replay earlier).deleteSegments c).1 = .ok segments →
        ∀ segment i, ((initial m w).replay events).manager.running? segment = some i →
          i.record.collection ≠ c from hboth.1
  revert hids htidy hsucceeds
  induction events using List.reverseRecOn with
  | nil =>
      intro hids htidy hsucceeds
      refine ⟨budgeted_initial hm w, ?_⟩
      intro earlier c segments hempty
      simp at hempty
  | append_singleton events e ih =>
      intro hids htidy hsucceeds
      have hcoherent := coherent_replay (.inProcess hm) w hids.of_append
      have hdeployment := deployment_replay hm w hids.of_append
      rw [replay_concat] at hsucceeds ⊢
      obtain ⟨hbudgeted, hcleared⟩ := ih hids.of_append htidy.of_append
        fun i hi => hsucceeds i (hcoherent.journal_after e hi)
      rw [measurements_concat]
      refine ⟨?_, ?_⟩
      · apply hbudgeted.after hcoherent hdeployment e hsucceeds
        rintro c rfl
        obtain ⟨earlier, segments, hlast, hanswer⟩ := htidy events c [] rfl
        exact hcleared earlier c segments hlast hanswer
      · intro earlier c segments hevents hanswer
        obtain ⟨rfl, hlast⟩ := List.append_inj' hevents rfl
        obtain rfl := List.singleton_inj.mp hlast
        exact (hbudgeted.deleteSegments hcoherent hdeployment c hsucceeds).2 segments hanswer

/-! ## Evictions -/

def served (s : System W) : Request → List Instance
  | .get c k => (s.getSegment c k).1.toOption.toList
  | .getNamed c name => (s.getSegmentNamed c name).1.toOption.toList
  | .hint c _ =>
      match s.getSegment c .metadataReader with
      | (.ok i, s') => i :: (s'.getSegment c .vectorReader).1.toOption.toList
      | (.error _, _) => []
  | _ => []

theorem Coherent.serving_of_answer (hs : s.Coherent created) {i : Instance}
    (hi : i ∈ (s.getSegment c k).1.toOption.toList) :
    (s.getSegment c k).2.manager.Serving k c i := by
  apply (hs.looks (hs.looks_getSegment c k)).2
  cases hanswer : (s.getSegment c k).1 with
  | error fault =>
      rw [hanswer] at hi
      cases hi
  | ok j =>
      rw [hanswer] at hi
      rw [List.mem_singleton.mp hi]

theorem Coherent.running_of_answer (hs : s.Coherent created) {i : Instance}
    (hi : i ∈ (s.getSegment c k).1.toOption.toList) :
    (s.getSegment c k).2.manager.running? i.record.id = some i :=
  (hs.getSegment c k).running_of_serving (hs.serving_of_answer hi)

theorem Coherent.running_of_both (hs : s.Coherent created) {i j : Instance}
    (hserving : s.manager.Serving .metadataReader c j)
    (hi : i ∈ j :: (s.getSegment c .vectorReader).1.toOption.toList) :
    (s.getSegment c .vectorReader).2.manager.running? i.record.id = some i := by
  have hlook := hs.looks_getSegment c .vectorReader
  rcases List.mem_cons.mp hi with rfl | hlast
  · exact (hs.looks hlook).1.running_of_serving
      (hs.serving_of_looks hlook (by simp) hserving)
  · exact hs.running_of_answer hlast

theorem Coherent.running_of_hinted (hs : s.Coherent created)
    (hdeployment : s.manager.deployment = .inProcess settings) {operation : Operation}
    {i : Instance} (hi : i ∈ s.served (.hint c operation)) :
    (s.hint c operation).2.manager.running? i.record.id = some i := by
  have hserves : ∀ j, j ∈ (s.getSegment c .metadataReader).1.toOption.toList →
      (s.getSegment c .metadataReader).2.manager.Serving .metadataReader c j :=
    fun j hj => hs.serving_of_answer hj
  have hcoherent' := hs.getSegment c .metadataReader
  have hserved : i ∈ (match s.getSegment c .metadataReader with
    | (.ok i, s') => i :: (s'.getSegment c .vectorReader).1.toOption.toList
    | (.error _, _) => []) := hi
  unfold System.hint
  rw [hdeployment]
  cases hfirst : s.getSegment c .metadataReader with
  | mk answer next =>
      rw [hfirst] at hserves hcoherent' hserved
      cases answer with
      | error fault => cases hserved
      | ok j =>
          have hboth := hcoherent'.running_of_both (hserves j (List.mem_singleton.mpr rfl)) hserved
          simp only
          cases hsecond : next.getSegment c .vectorReader with
          | mk answer last =>
              rw [hsecond] at hboth
              cases answer with
              | error fault => exact hboth
              | ok v =>
                  have hinstances := (tracks_trackIndex c v last).instances
                  unfold Manager.running? at hboth ⊢
                  rw [hinstances]
                  exact hboth

theorem Coherent.running_of_served (hs : s.Coherent created)
    (hdeployment : s.manager.deployment = .inProcess settings) {q : Request} {i : Instance}
    (hi : i ∈ s.served q) : (s.handle q).2.manager.running? i.record.id = some i := by
  cases q with
  | get c k => exact hs.running_of_answer hi
  | getNamed c name =>
      have hanswer : i ∈ (s.getSegmentNamed c name).1.toOption.toList := hi
      change (s.getSegmentNamed c name).2.manager.running? i.record.id = some i
      unfold System.getSegmentNamed at hanswer ⊢
      cases hname : Capability.ofName? name with
      | none =>
          rw [hname] at hanswer
          cases hanswer
      | some k =>
          rw [hname] at hanswer
          exact hs.running_of_answer hanswer
  | hint c operation => exact hs.running_of_hinted hdeployment hi
  | delete c => cases hi
  | start order => cases hi
  | stop order => cases hi
  | reset order => cases hi

/-- What a lookup stops: whatever it takes out of the running instances, once,
and nothing that it answers with. -/
structure Evicts (q : Request) (s : System W) : Prop where
  stopped : ∀ i, s.manager.running? i.record.id = some i →
    (s.handle q).2.manager.running? i.record.id ≠ some i →
    (callsOn i (s.noted (.request q))).countP (·.action = .stop) = 1
  spared : ∀ i, (s.handle q).2.manager.running? i.record.id = some i →
    (callsOn i (s.noted (.request q))).countP (·.action = .stop) = 0
  served : ∀ i ∈ s.served q, (s.handle q).2.manager.running? i.record.id = some i

theorem evicts_replay {g : Registry} {m : Manager}
    (hm : Manager.inProcess settings g = .ok m) (w : W) {events : List (Event W)}
    {q : Request} (hq : q.LooksUp) (hids : Event.NeverShared (events ++ [.request q])) :
    Evicts q ((initial m w).replay events) := by
  have hcoherent := coherent_replay (.inProcess hm) w hids.of_append
  have hdeployment := deployment_replay hm w hids.of_append
  obtain ⟨-, -, hledger⟩ := ledger_replay (.inProcess hm) w hids.of_append
  obtain ⟨-, -, hledger'⟩ := ledger_replay (.inProcess hm) w hids
  rw [trace_concat, replay_concat] at hledger'
  have hbefore := Booked.of_ledger hledger
  have hafter := Booked.of_ledger hledger'
  have hlooks : ∀ i, ∀ a ∈ callsOn i (((initial m w).replay events).noted (.request q)),
      a.request.LooksUp := by
    intro i a ha
    rw [request_of_mem_callsOn ha]
    exact hq
  refine ⟨?_, ?_, ?_⟩
  · intro i hrunning hgone
    exact hbefore.stopped_once hafter (hlooks i) hrunning hgone
  · intro i hrunning
    exact hafter.spared (hlooks i) hrunning
  · intro i hi
    exact hcoherent.running_of_served hdeployment hi

/-- With a memory budget, the vector segments that run are those of the cached
records, each charged with what it measured when it was cached, and the charges
stay within the budget unless one vector segment runs alone.  Lookups stop what
has to leave, once, and never what they were asked for.  All this as long as
rows are withdrawn only after their collection was deleted, and no deletion of
an instance fails. -/
theorem running_vectors_fit_memory_budget {g : Registry} {m : Manager}
    (hm : Manager.inProcess settings g = .ok m) (hbounded : settings.bounded = true)
    (hlimit : 0 < settings.memoryLimit) (w : W) {events : List (Event W)}
    (hids : Event.NeverShared events) (htidy : (initial m w).Tidy events)
    (hsucceeds : ∀ i, Call.act .delete i false ∉ ((initial m w).replay events).site.journal) :
    let s := (initial m w).replay events
    (∃ records, s.manager.vectorRecords = .bounded records ∧
      (s.manager.vectors.map (·.record)).Perm (records.entries.map (·.value)) ∧
      (∀ e ∈ records.entries, latest ((initial m w).measurements events) e.key = some e.size) ∧
      records.total = (records.entries.map (·.size)).sum ∧
      (records.total ≤ settings.memoryLimit ∨ s.manager.vectors.length = 1)) ∧
    ∀ before q after, events = before ++ .request q :: after → q.LooksUp →
      Evicts q ((initial m w).replay before) := by
  have hcoherent := coherent_replay (.inProcess hm) w hids
  have hdeployment := deployment_replay hm w hids
  have hbudgeted := budgeted_replay hm w hids htidy hsucceeds
  have hbudget : settings.usesMemoryBudget = true := by
    unfold Settings.usesMemoryBudget
    rw [hbounded, Bool.true_and, bne_iff_ne]
    omega
  obtain ⟨records, hrecords, hcapacity, hwell⟩ :=
    hcoherent.bounded_of_budget hdeployment hbudget
  have hperm := hbudgeted.perm_vectors hcoherent hdeployment hrecords hwell
  refine ⟨⟨records, hrecords, hperm, ?_, hwell.total_eq, ?_⟩, ?_⟩
  · have hcharged := hbudgeted.charged
    rw [hrecords] at hcharged
    exact hcharged
  · have hlength := hperm.length_eq
    rw [List.length_map, List.length_map] at hlength
    rcases hwell.fits with hfits | hone
    · left
      rw [← hcapacity]
      exact hfits
    · right
      rw [hlength]
      exact hone
  · rintro before q after rfl hq
    rw [List.append_cons] at hids
    exact evicts_replay hm w hq hids.of_append

def tidied : List (Event World) :=
  crowded ++ [.request (.delete (numberedCollection 0).id),
    .withdraw (numberedCollection 0).id]

theorem tidy_tidied (m : Manager)
    (hok : (((initial m keeperWorld).replay crowded).deleteSegments
      (numberedCollection 0).id).1.isOk = true) : (initial m keeperWorld).Tidy tidied := by
  have hcrowded : (initial m keeperWorld).Tidy crowded := by
    rintro before c after hsplit
    have hmem : Event.withdraw c ∈ crowded := by simp [hsplit]
    simp [crowded, vectorsWritten] at hmem
  have hrequested := hcrowded.concat (e := .request (.delete (numberedCollection 0).id))
    (by simp)
  apply hrequested.concat
  rintro c ⟨⟩
  cases hanswer : (((initial m keeperWorld).replay crowded).deleteSegments
      (numberedCollection 0).id).1 with
  | error fault =>
      rw [hanswer] at hok
      cases hok
  | ok segments => exact ⟨crowded, segments, rfl, hanswer⟩

theorem tidied_vectors_fit :
    ∃ m, Manager.inProcess crowdedSettings keeperRegistry = .ok m ∧
      Event.NeverShared tidied ∧ (initial m keeperWorld).Tidy tidied ∧
      (initial m keeperWorld).measurements tidied =
        [((numberedCollection 0).id, 6), ((numberedCollection 1).id, 7)] ∧
      let s := (initial m keeperWorld).replay tidied
      (∃ records, s.manager.vectorRecords = .bounded records ∧
        (s.manager.vectors.map (·.record)).Perm (records.entries.map (·.value)) ∧
        records.entries.map (fun e => (e.key, e.size)) = [((numberedCollection 1).id, 7)] ∧
        (∀ e ∈ records.entries,
          latest ((initial m keeperWorld).measurements tidied) e.key = some e.size) ∧
        records.total = 7 ∧
        (records.total ≤ crowdedSettings.memoryLimit ∨ s.manager.vectors.length = 1)) ∧
      Evicts (.hint (numberedCollection 1).id .add)
        ((initial m keeperWorld).replay crowded.dropLast) := by
  have hids : Event.NeverShared tidied := by decide +kernel
  obtain ⟨m, hm⟩ : ∃ m, Manager.inProcess crowdedSettings keeperRegistry = .ok m := ⟨_, rfl⟩
  have hdeleted : ∀ m, Manager.inProcess crowdedSettings keeperRegistry = .ok m →
      (((initial m keeperWorld).replay crowded).deleteSegments
        (numberedCollection 0).id).1.isOk = true ∧
      ((initial m keeperWorld).replay tidied).site.journal.all (fun
        | .act action _ ok => action ≠ .delete || ok
        | .build _ _ => true) = true ∧
      (initial m keeperWorld).measurements tidied =
        [((numberedCollection 0).id, 6), ((numberedCollection 1).id, 7)] ∧
      ((initial m keeperWorld).replay tidied).manager.vectorRecords.charges.map
        (fun e => (e.key, e.size)) = [((numberedCollection 1).id, 7)] := by
    rintro m ⟨⟩
    decide +kernel
  obtain ⟨hok, hjournal, hmeasured, hcharges⟩ := hdeleted m hm
  have htidy := tidy_tidied m hok
  have hsucceeds : ∀ i, Call.act .delete i false ∉
      ((initial m keeperWorld).replay tidied).site.journal := by
    intro i hi
    have hnot := List.all_eq_true.mp hjournal _ hi
    simp at hnot
  obtain ⟨⟨records, hrecords, hperm, hsizes, htotal, hfits⟩, hevicts⟩ :=
    running_vectors_fit_memory_budget hm rfl (by decide) keeperWorld hids htidy hsucceeds
  rw [hrecords] at hcharges
  have hseven : records.entries.map (·.size) = [7] := by
    have hsecond := congrArg (List.map (·.2)) hcharges
    rwa [List.map_map] at hsecond
  rw [hseven] at htotal
  exact ⟨m, hm, hids, htidy, hmeasured,
    ⟨records, hrecords, hperm, hcharges, hsizes, htotal, hfits⟩,
    hevicts crowded.dropLast _ _ rfl trivial⟩

end System

end SegmentManager
