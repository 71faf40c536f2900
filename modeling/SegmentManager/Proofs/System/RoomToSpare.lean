import SegmentManager.Proofs.System.Alterations
import SegmentManager.Proofs.System.MemoryBudget

/-!
# A budget with room to spare

A bounded cache of vector records evicts nothing as long as what it holds fits.
A manager with that much room does what one without a budget does, answer for
answer and call for call, whatever fails.
-/

namespace SegmentManager

open Simulation

theorem RecordCache.evicted_of_room {cache : RecordCache} {limit : Nat}
    (hcache : cache.WellFormed) (hlimit : cache.limit? = some limit) {c : CollectionId}
    {r : Record} {size : Nat} (hroom : RecencyCache.sizeOf cache.charges + size ≤ limit) :
    cache.evicted c r size = [] := by
  cases cache with
  | unbounded records => cases hlimit
  | bounded records =>
      obtain rfl := Option.some.inj hlimit
      have htotal : records.total + size ≤ records.capacity := by
        rw [RecencyCache.WellFormed.total_eq hcache]
        exact hroom
      have hfits : (records.drop c).total + size ≤ records.capacity :=
        Nat.le_trans (Nat.add_le_add_right (records.total_drop_le c) size) htotal
      simp only [evicted, insert, RecencyCache.insert, RecencyCache.shrink_of_fits hfits,
        List.map_nil]

def Deployment.unbudgeted : Deployment → Deployment
  | inProcess settings => inProcess { settings with bounded := false }
  | distributed workers => distributed workers

namespace System

variable {W : Type}

def unbudgeted (records : Table CollectionId Record) (s : System W) : System W :=
  { s with manager := { s.manager with
      deployment := s.manager.deployment.unbudgeted
      vectorRecords := .unbounded records } }

theorem unnoticed_unbudgeted (records : Table CollectionId Record) :
    Unnoticed (unbudgeted records : System W → System W) where
  kinds _ := rfl
  root s := by
    unfold Manager.persistDirectory unbudgeted
    cases s.manager.deployment <;> rfl
  instances _ := rfl
  openIndexes _ := rfl
  counters _ := rfl
  site _ := rfl
  refit _ _ _ _ _ := rfl

/-- The table holds what the bounded cache holds.  Where nothing is kept on disk
nothing is charged. -/
structure Mirrored (limit : Nat) (root : Option String) (records : Table CollectionId Record)
    (s : System W) : Prop where
  wellFormed : s.manager.vectorRecords.WellFormed
  limit : s.manager.vectorRecords.limit? = some limit
  same : ∀ c, records.get? c = s.manager.vectorRecords.peek? c
  directory : s.manager.persistDirectory = root
  weightless : root = none → ∀ e ∈ s.manager.vectorRecords.charges, e.size = 0

def Spares (limit : Nat) (s : System W) (bytes : Nat) : Prop :=
  RecencyCache.sizeOf s.manager.vectorRecords.charges + bytes ≤ limit

instance (limit : Nat) (s : System W) (bytes : Nat) : Decidable (s.Spares limit bytes) :=
  inferInstanceAs (Decidable (_ ≤ _))

variable {limit : Nat} {root : Option String} {records : Table CollectionId Record}
variable {s s' : System W}

namespace Mirrored

theorem congr (h : Mirrored limit root records s)
    (hrecords : s'.manager.vectorRecords = s.manager.vectorRecords)
    (hroot : s'.manager.persistDirectory = s.manager.persistDirectory) :
    Mirrored limit root records s' := by
  refine ⟨?_, ?_, ?_, hroot.trans h.directory, ?_⟩
  · rw [hrecords]
    exact h.wellFormed
  · rw [hrecords]
    exact h.limit
  · rw [hrecords]
    exact h.same
  · rw [hrecords]
    exact h.weightless

theorem refitted (h : Mirrored limit root records s) (hrefitted : Refitted s s') :
    Mirrored limit root records s' :=
  h.congr (hrefitted.records .vector) hrefitted.root

theorem cached? (h : Mirrored limit root records s) (k : Capability) (c : CollectionId) :
    (s.unbudgeted records).manager.cached? k c = s.manager.cached? k c := by
  cases k with
  | metadataReader => rfl
  | vectorReader => exact h.same c

/-! ## Reading -/

theorem consult (h : Mirrored limit root records s) (c : CollectionId) (k : Capability) :
    (s.unbudgeted records).consult c k.scope =
      ((s.consult c k.scope).1, (s.consult c k.scope).2.unbudgeted records) ∧
    Mirrored limit root records (s.consult c k.scope).2 := by
  cases k with
  | metadataReader => exact ⟨rfl, h.congr rfl rfl⟩
  | vectorReader =>
      have hfound : (s.manager.vectorRecords.touch c).1 = records.get? c := by
        rw [RecordCache.touch_fst, h.same]
      have htouch : (RecordCache.unbounded records).touch c =
          (records.get? c, .unbounded records) := rfl
      refine ⟨?_, ?_, ?_, ?_, h.directory, ?_⟩
      · unfold System.consult
        simp only [Capability.scope, unbudgeted, Manager.records, Manager.withRecords, htouch,
          hfound, Manager.tally]
      · exact RecordCache.wellFormed_touch h.wellFormed c
      · exact (RecordCache.limit?_touch _ c).trans h.limit
      · intro d
        exact (h.same d).trans (RecordCache.peek?_touch _ c d).symm
      · intro hroot e he
        exact h.weightless hroot e (RecordCache.mem_charges_touch he)

end Mirrored

theorem complete_unbudgeted (s : System W) (records : Table CollectionId Record) (r : Record) :
    (s.unbudgeted records).manager.complete r = s.manager.complete r := by
  unfold Manager.complete unbudgeted
  cases s.manager.deployment <;> rfl

theorem fetch_unbudgeted (s : System W) (records : Table CollectionId Record)
    (c : CollectionId) (scope : Scope) : (s.unbudgeted records).fetch c scope =
      ((s.fetch c scope).1, (s.fetch c scope).2.unbudgeted records) := by
  have hread : (s.unbudgeted records).readCatalog c (some scope) =
      ((s.readCatalog c (some scope)).1,
        (s.readCatalog c (some scope)).2.unbudgeted records) := rfl
  unfold fetch
  rw [hread]
  cases s.readCatalog c (some scope) with
  | mk answer next =>
      cases answer with
      | error fault => rfl
      | ok rows =>
          simp only [funext (complete_unbudgeted next records)]
          rfl

section Lookups

variable [Backend W]

/-! ## Lookups -/

namespace Mirrored

theorem load (h : Mirrored limit root records s) (c : CollectionId) (k : Capability) :
    (s.unbudgeted records).load c k =
      ((s.load c k).1, (s.load c k).2.unbudgeted records) := by
  unfold System.load
  rw [(h.consult c k).1, fetch_unbudgeted]
  cases (s.consult c k.scope).2.fetch c k.scope with
  | mk answer next =>
      cases answer with
      | error fault => rfl
      | ok r =>
          simp only [(unnoticed_unbudgeted records).commutes.acquire next r]
          cases next.acquire r with
          | mk outcome last => cases outcome <;> rfl

end Mirrored

theorem sameCaches_load {c : CollectionId} {k : Capability}
    (habsent : s.manager.cached? k c = none) :
    Manager.SameCaches s.manager (s.load c k).2.manager := by
  have hfetching := sameCaches_fetching habsent
  have hnext := fetch_snd c k.scope (s.consult c k.scope).2
  unfold load
  cases hfetch : (s.consult c k.scope).2.fetch c k.scope with
  | mk answer next =>
      rw [hfetch] at hnext
      obtain rfl : next = s.fetching c k := hnext
      cases answer with
      | error fault => exact hfetching
      | ok r =>
          have hacquires := acquires_acquire r (s.fetching c k)
          simp only
          cases hacquire : (s.fetching c k).acquire r with
          | mk outcome last =>
              rw [hacquire] at hacquires
              have hlast : Manager.SameCaches (s.fetching c k).manager last.manager := by
                cases hacquires with
                | running hrunning => exact .refl _
                | failed habsent hlaunch => exact .refl _
                | launched habsent hlaunch => exact ⟨⟨rfl, rfl, fun _ => rfl⟩, rfl, rfl, rfl⟩
              cases outcome <;> exact hfetching.trans hlast

theorem remember_metadata_unbudgeted (s : System W) (records : Table CollectionId Record)
    (r : Record) :
    (s.unbudgeted records).remember r .metadata =
      (s.remember r .metadata).unbudgeted records := by
  have hfootprint := (unnoticed_unbudgeted records).commutes.footprint s r
  have hdisplaced : (s.unbudgeted records).displaced r .metadata = s.displaced r .metadata := by
    unfold displaced
    rw [hfootprint]
    rfl
  have hcaching : (s.unbudgeted records).caching r .metadata =
      (s.caching r .metadata).unbudgeted records := by
    unfold caching
    rw [hfootprint]
    rfl
  rw [remember_eq, remember_eq, hdisplaced, hcaching,
    (unnoticed_unbudgeted records).commutes.evictAll]

theorem footprint_of_rootless (hroot : s.manager.persistDirectory = none) (r : Record) :
    s.footprint r = 0 := by
  unfold footprint
  rw [hroot]

namespace Mirrored

omit [Backend W] in
theorem forget (h : Mirrored limit root records s) (c : CollectionId) (k : Capability) :
    ∃ records', (s.unbudgeted records).forget c k.scope =
        (s.forget c k.scope).unbudgeted records' ∧
      Mirrored limit root records' (s.forget c k.scope) := by
  cases k with
  | metadataReader => exact ⟨records, rfl, h.congr rfl rfl⟩
  | vectorReader =>
      refine ⟨records.erase c, rfl, ?_, ?_, ?_, h.directory, ?_⟩
      · exact RecordCache.wellFormed_without h.wellFormed c
      · exact (RecordCache.limit?_without _ c).trans h.limit
      · intro d
        change _ = (s.manager.vectorRecords.without c).peek? d
        rw [Table.get?_erase, RecordCache.peek?_without, h.same]
      · intro hroot e he
        exact h.weightless hroot e (RecordCache.mem_charges_without he)

theorem remember_vector (h : Mirrored limit root records s) {r : Record}
    (hroom : s.Spares limit (s.footprint r)) :
    (s.unbudgeted records).remember r .vector =
        (s.remember r .vector).unbudgeted (records.insert r.collection r) ∧
      Mirrored limit root (records.insert r.collection r) (s.remember r .vector) := by
  have hnone : s.displaced r .vector = [] :=
    RecordCache.evicted_of_room h.wellFormed h.limit hroom
  have hkept : s.remember r .vector = s.caching r .vector := by
    rw [remember_eq, hnone]
    rfl
  rw [hkept]
  refine ⟨rfl, ?_, ?_, ?_, h.directory, ?_⟩
  · exact RecordCache.wellFormed_insert h.wellFormed r.collection r _
  · exact (RecordCache.limit?_insert _ r.collection r _).trans h.limit
  · intro c
    have hinsert := RecordCache.peek?_insert h.wellFormed r.collection r (s.footprint r) c
    have hevicted : s.manager.vectorRecords.evicted r.collection r (s.footprint r) = [] := hnone
    simp only [hevicted, List.map_nil, List.not_mem_nil, if_false] at hinsert
    rw [Table.get?_insert, h.same]
    exact hinsert.symm
  · intro hroot e he
    rcases RecordCache.mem_charges_insert he with rfl | ⟨hbefore, -⟩
    · exact footprint_of_rootless (h.directory.trans hroot) r
    · exact h.weightless hroot e hbefore

theorem getSegment_of_cached (h : Mirrored limit root records s) {c : CollectionId} {k : Capability}
    {r : Record} (hcached : s.manager.cached? k c = some r) :
    ∃ records', (s.unbudgeted records).getSegment c k =
        ((s.getSegment c k).1, (s.getSegment c k).2.unbudgeted records') ∧
      Mirrored limit root records' (s.getSegment c k).2 := by
  obtain ⟨hconsult, hmirrored⟩ := h.consult c k
  rw [getSegment_of_hit hcached, getSegment_of_hit ((h.cached? k c).trans hcached), hconsult,
    (unnoticed_unbudgeted records).commutes.acquire]
  have hacquired := hmirrored.refitted (refitted_acquire r (s.consult c k.scope).2)
  cases hacquire : (s.consult c k.scope).2.acquire r with
  | mk outcome last =>
      rw [hacquire] at hacquired
      cases outcome with
      | ok i => exact ⟨records, rfl, hacquired⟩
      | error fault =>
          obtain ⟨records', hforget, hforgotten⟩ := hacquired.forget r.collection k
          exact ⟨records', congrArg (Prod.mk _) hforget, hforgotten⟩

theorem getSegment (h : Mirrored limit root records s) {c : CollectionId} {k : Capability}
    (hroom : k = .vectorReader → ∀ d bytes, s.measuredBy c = some (d, bytes) →
      s.Spares limit bytes) :
    ∃ records', (s.unbudgeted records).getSegment c k =
        ((s.getSegment c k).1, (s.getSegment c k).2.unbudgeted records') ∧
      Mirrored limit root records' (s.getSegment c k).2 := by
  cases hcached : s.manager.cached? k c with
  | some r => exact h.getSegment_of_cached hcached
  | none =>
      rw [getSegment_of_absent hcached, getSegment_of_absent ((h.cached? k c).trans hcached),
        h.load]
      have hcaches := sameCaches_load hcached
      have hloaded := h.congr hcaches.vectorRecords hcaches.root
      cases hload : s.load c k with
      | mk answer next =>
          rw [hload] at hcaches hloaded
          cases answer with
          | error fault => exact ⟨records, rfl, hloaded⟩
          | ok loaded =>
              obtain ⟨r, i⟩ := loaded
              cases k with
              | metadataReader =>
                  have hkept := refitted_evictAll (next.displaced r .metadata)
                    (next.caching r .metadata)
                  refine ⟨records, congrArg (Prod.mk _)
                    (remember_metadata_unbudgeted next records r), ?_⟩
                  exact hloaded.congr (hkept.records .vector) hkept.root
              | vectorReader =>
                  have hspares := hroom rfl c _ (measuredBy_of_loaded hcached hload)
                  unfold Spares at hspares
                  rw [← hcaches.vectorRecords] at hspares
                  obtain ⟨hremember, hremembered⟩ := hloaded.remember_vector hspares
                  exact ⟨_, congrArg (Prod.mk _) hremember, hremembered⟩

end Mirrored

theorem vectorRecords_getSegment_metadata (c : CollectionId) (s : System W) :
    (s.getSegment c .metadataReader).2.manager.vectorRecords = s.manager.vectorRecords := by
  cases hcached : s.manager.cached? .metadataReader c with
  | some r =>
      rw [getSegment_of_hit hcached]
      have hacquired := (refitted_acquire r
        (s.consult c Capability.metadataReader.scope).2).records .vector
      cases hacquire : (s.consult c Capability.metadataReader.scope).2.acquire r with
      | mk outcome last =>
          rw [hacquire] at hacquired
          cases outcome <;> exact hacquired
  | none =>
      rw [getSegment_of_absent hcached]
      have hcaches := sameCaches_load hcached
      cases hload : s.load c .metadataReader with
      | mk answer next =>
          rw [hload] at hcaches
          cases answer with
          | error fault => exact hcaches.vectorRecords
          | ok loaded =>
              exact (vectorRecords_remember_metadata loaded.1 next).trans hcaches.vectorRecords

/-! ## Requests -/

namespace Mirrored

theorem hint (h : Mirrored limit root records s) {c : CollectionId} {operation : Operation}
    (hroom : ∀ d bytes, s.measured (.request (.hint c operation)) = some (d, bytes) →
      s.Spares limit bytes) :
    ∃ records', (s.unbudgeted records).hint c operation =
        ((s.hint c operation).1, (s.hint c operation).2.unbudgeted records') ∧
      Mirrored limit root records' (s.hint c operation).2 := by
  simp only [measured] at hroom
  unfold System.hint
  cases hdeployment : s.manager.deployment with
  | distributed workers =>
      have hsame : (s.unbudgeted records).manager.deployment = .distributed workers :=
        congrArg Deployment.unbudgeted hdeployment
      rw [hsame]
      exact ⟨records, rfl, h⟩
  | inProcess settings =>
      have hsame : (s.unbudgeted records).manager.deployment =
          .inProcess { settings with bounded := false } :=
        congrArg Deployment.unbudgeted hdeployment
      -- The first lookup leaves the vector records alone, so there is still room after it.
      have hkept := vectorRecords_getSegment_metadata c s
      obtain ⟨first, hfirst, hmirrored⟩ := h.getSegment (c := c) (k := .metadataReader)
        (by rintro ⟨⟩)
      rw [hsame]
      simp only [hfirst]
      cases hmetadata : s.getSegment c .metadataReader with
      | mk answer next =>
          rw [hmetadata] at hroom hkept hmirrored
          cases answer with
          | error fault => exact ⟨first, rfl, hmirrored⟩
          | ok i =>
              obtain ⟨second, hsecond, hlast⟩ := hmirrored.getSegment (c := c)
                (k := .vectorReader) (by
                  intro _ d bytes hbytes
                  unfold Spares
                  rw [hkept]
                  exact hroom d bytes hbytes)
              simp only [hsecond]
              cases hvectors : next.getSegment c .vectorReader with
              | mk answer last =>
                  rw [hvectors] at hlast
                  cases answer with
                  | error fault => exact ⟨second, rfl, hlast⟩
                  | ok j =>
                      exact ⟨second, (unnoticed_unbudgeted second).trackIndex last c j,
                        hlast.refitted (refitted_trackIndex c j last)⟩

omit [Backend W] in
theorem forgetAll (h : Mirrored limit root records s) (c : CollectionId) :
    ∃ records', (s.unbudgeted records).forgetAll c = (s.forgetAll c).unbudgeted records' ∧
      Mirrored limit root records' (s.forgetAll c) := by
  obtain ⟨first, hvectors, hmirrored⟩ := h.forget c .vectorReader
  obtain ⟨second, hmetadata, hforgotten⟩ := hmirrored.forget c .metadataReader
  refine ⟨second, ?_, hforgotten.congr rfl rfl⟩
  calc (s.unbudgeted records).forgetAll c
      = (((s.forget c .vector).unbudgeted first).forget c .metadata).untrack c :=
        congrArg (fun s : System W => (s.forget c .metadata).untrack c) hvectors
    _ = (((s.forget c .vector).forget c .metadata).unbudgeted second).untrack c :=
        congrArg (fun s : System W => s.untrack c) hmetadata
    _ = (s.forgetAll c).unbudgeted second := (unnoticed_unbudgeted second).commutes.untrack _ c

theorem deleteSegments (h : Mirrored limit root records s) (c : CollectionId) :
    ∃ records', (s.unbudgeted records).deleteSegments c =
        ((s.deleteSegments c).1, (s.deleteSegments c).2.unbudgeted records') ∧
      Mirrored limit root records' (s.deleteSegments c).2 := by
  have hread : (s.unbudgeted records).readCatalog c none =
      ((s.readCatalog c none).1, (s.readCatalog c none).2.unbudgeted records) := rfl
  have hlisted : Mirrored limit root records (s.readCatalog c none).2 := h.congr rfl rfl
  unfold System.deleteSegments
  rw [hread]
  generalize s.readCatalog c none = listed at hlisted ⊢
  obtain ⟨answer, next⟩ := listed
  cases answer with
  | error fault => exact ⟨records, rfl, hlisted⟩
  | ok rows =>
      simp only
      cases hdeployment : next.manager.deployment with
      | distributed workers =>
          have hsame : (next.unbudgeted records).manager.deployment = .distributed workers :=
            congrArg Deployment.unbudgeted hdeployment
          have hreleased := hlisted.refitted (refitted_releaseEach (rows.map (·.id)) next)
          obtain ⟨records', hforget, hforgotten⟩ := hreleased.forgetAll c
          rw [hsame]
          simp only [(unnoticed_unbudgeted records).commutes.releaseEach, hforget]
          exact ⟨records', rfl, hforgotten⟩
      | inProcess settings =>
          have hsame : (next.unbudgeted records).manager.deployment =
              .inProcess { settings with bounded := false } :=
            congrArg Deployment.unbudgeted hdeployment
          have hdeleted := hlisted.refitted (refitted_deleteEach (rows.map (·.id)) next)
          obtain ⟨records', hforget, hforgotten⟩ := hdeleted.forgetAll c
          rw [hsame]
          simp only [(unnoticed_unbudgeted records).commutes.deleteEach]
          cases hdelete : deleteEach (rows.map (·.id)) next with
          | mk answer last =>
              rw [hdelete] at hforget hforgotten
              obtain ⟨completed, failure⟩ := answer
              cases failure with
              | none => exact ⟨records', congrArg (Prod.mk _) hforget, hforgotten⟩
              | some broken => exact ⟨records', congrArg (Prod.mk _) hforget, hforgotten⟩

theorem handle (h : Mirrored limit root records s) {q : Request}
    (hroom : ∀ c bytes, s.measured (.request q) = some (c, bytes) → s.Spares limit bytes) :
    ∃ records', (s.unbudgeted records).handle q =
        ((s.handle q).1, (s.handle q).2.unbudgeted records') ∧
      Mirrored limit root records' (s.handle q).2 := by
  have hperformed : ∀ action targets, ∃ records',
      (s.unbudgeted records).performAll action targets =
        ((s.performAll action targets).1, (s.performAll action targets).2.unbudgeted records') ∧
      Mirrored limit root records' (s.performAll action targets).2 :=
    fun action targets => ⟨records, (unnoticed_unbudgeted records).commutes.performAll s action targets,
      h.congr rfl rfl⟩
  have hreply : ∀ {α : Type} (form : α → Reply) {outcome outcome' : Except Fault α × System W},
      (∃ records', outcome' = (outcome.1, outcome.2.unbudgeted records') ∧
        Mirrored limit root records' outcome.2) →
      ∃ records', reply form outcome' =
        ((reply form outcome).1, (reply form outcome).2.unbudgeted records') ∧
        Mirrored limit root records' (reply form outcome).2 := by
    rintro α form outcome outcome' ⟨records', rfl, hmirrored⟩
    exact ⟨records', rfl, hmirrored⟩
  cases q with
  | get c k =>
      refine hreply .served (h.getSegment ?_)
      rintro rfl
      exact hroom
  | getNamed c name =>
      have hmeasured : s.measured (.request (.getNamed c name)) =
          if Capability.ofName? name = some .vectorReader then s.measuredBy c else none := rfl
      rw [hmeasured] at hroom
      refine hreply .served ?_
      unfold getSegmentNamed
      cases hname : Capability.ofName? name with
      | none => exact ⟨records, rfl, h⟩
      | some k =>
          refine h.getSegment ?_
          rintro rfl
          rwa [if_pos hname] at hroom
  | hint c operation => exact hreply _ (h.hint hroom)
  | delete c => exact hreply .deleted (h.deleteSegments c)
  | start order => exact hreply _ (hperformed .start (s.manager.instances.visited order))
  | stop order => exact hreply _ (hperformed .stop (s.manager.instances.visited order))
  | reset order =>
      refine hreply _ ⟨.empty, rfl, ?_, ?_, ?_, h.directory, ?_⟩
      · exact RecordCache.wellFormed_clear s.manager.vectorRecords
      · exact (RecordCache.limit?_clear s.manager.vectorRecords).trans h.limit
      · intro c
        exact (RecordCache.peek?_clear s.manager.vectorRecords c).symm
      · intro _ e he
        have hnone : e ∈ s.manager.vectorRecords.clear.charges := he
        rw [RecordCache.charges_clear] at hnone
        cases hnone

/-! ## Histories -/

theorem after (h : Mirrored limit root records s) {e : Event W}
    (hroom : ∀ c bytes, s.measured e = some (c, bytes) → s.Spares limit bytes) :
    ∃ records', (s.unbudgeted records).after e = (s.after e).unbudgeted records' ∧
      Mirrored limit root records' (s.after e) := by
  cases e with
  | request q =>
      obtain ⟨records', hhandle, hmirrored⟩ := h.handle hroom
      exact ⟨records', congrArg Prod.snd hhandle, hmirrored⟩
  | enter rows => exact ⟨records, rfl, h.congr rfl rfl⟩
  | withdraw c => exact ⟨records, rfl, h.congr rfl rfl⟩
  | refuse text => exact ⟨records, rfl, h.congr rfl rfl⟩
  | elapse change => exact ⟨records, rfl, h.congr rfl rfl⟩
  | regroup members =>
      cases hdeployment : s.manager.deployment with
      | inProcess settings =>
          have hsame := Manager.withMembers_of_inProcess hdeployment members
          have hsame' : (s.unbudgeted records).manager.withMembers members =
              (s.unbudgeted records).manager := by
            simp [Manager.withMembers, unbudgeted, hdeployment, Deployment.unbudgeted]
          simp only [System.after, hsame, hsame']
          exact ⟨records, rfl, h⟩
      | distributed workers =>
          have hsame : s.manager.withMembers members =
              { s.manager with deployment := .distributed { workers with members } } := by
            unfold Manager.withMembers
            rw [hdeployment]
          have hsame' : (s.unbudgeted records).manager.withMembers members =
              (({ s with manager := s.manager.withMembers members } : System W).unbudgeted
                records).manager := by
            simp [Manager.withMembers, unbudgeted, hdeployment, Deployment.unbudgeted]
          refine ⟨records, ?_, ?_⟩
          · simp only [System.after, hsame']
            rfl
          · apply h.congr
            · simp only [System.after, hsame]
            · simp only [System.after, hsame, Manager.persistDirectory, hdeployment]

end Mirrored

/-- Whenever a vector record is cached, it fits beside those that are. -/
def HasRoom (limit : Nat) : List (Event W) → System W → Prop
  | [], _ => True
  | e :: events, s =>
      (∀ entry ∈ s.measured e, s.Spares limit entry.2) ∧ HasRoom limit events (s.after e)

instance decidableHasRoom (limit : Nat) :
    (events : List (Event W)) → (s : System W) → Decidable (HasRoom limit events s)
  | [], _ => inferInstanceAs (Decidable True)
  | e :: events, s =>
      have := decidableHasRoom limit events (s.after e)
      inferInstanceAs (Decidable ((∀ entry ∈ s.measured e, s.Spares limit entry.2) ∧ _))

theorem hasRoom_append (events later : List (Event W)) (s : System W) :
    HasRoom limit (events ++ later) s ↔
      HasRoom limit events s ∧ HasRoom limit later (s.replay events) := by
  induction events generalizing s with
  | nil => exact ⟨fun h => ⟨trivial, h⟩, And.right⟩
  | cons e rest ih =>
      change _ ∧ HasRoom limit (rest ++ later) (s.after e) ↔ _
      rw [ih, ← and_assoc]
      rfl

namespace Mirrored

theorem replay (h : Mirrored limit root records s) {events : List (Event W)}
    (hroom : HasRoom limit events s) :
    ∃ records', (s.unbudgeted records).replay events = (s.replay events).unbudgeted records' ∧
      Mirrored limit root records' (s.replay events) := by
  induction events generalizing s records with
  | nil => exact ⟨records, rfl, h⟩
  | cons e rest ih =>
      obtain ⟨between, hafter, hmirrored⟩ := h.after fun c bytes hbytes =>
        hroom.1 (c, bytes) hbytes
      obtain ⟨last, hreplay, hreplayed⟩ := ih hmirrored hroom.2
      refine ⟨last, ?_, hreplayed⟩
      change ((s.unbudgeted records).after e).replay rest = _
      rw [hafter]
      exact hreplay

theorem measuredBy_eq_zero (h : Mirrored limit none records s) {c d : CollectionId} {bytes : Nat}
    (hmeasured : s.measuredBy c = some (d, bytes)) : bytes = 0 := by
  unfold measuredBy at hmeasured
  cases hcached : s.manager.cached? .vectorReader c with
  | some r => simp [hcached] at hmeasured
  | none =>
      have hcaches := sameCaches_load hcached
      cases hload : s.load c .vectorReader with
      | mk answer next =>
          rw [hload] at hcaches
          cases answer with
          | error fault => simp [hcached, hload] at hmeasured
          | ok loaded =>
              simp only [hcached, hload, Option.some.injEq, Prod.mk.injEq] at hmeasured
              rw [← hmeasured.2]
              exact footprint_of_rootless (hcaches.root.trans h.directory) loaded.1

theorem measured_eq_zero (h : Mirrored limit none records s) {e : Event W} {c : CollectionId}
    {bytes : Nat} (hmeasured : s.measured e = some (c, bytes)) : bytes = 0 := by
  unfold measured at hmeasured
  split at hmeasured
  · exact h.measuredBy_eq_zero hmeasured
  · split at hmeasured
    · exact h.measuredBy_eq_zero hmeasured
    · cases hmeasured
  · rename_i d operation
    obtain ⟨records', -, hmirrored⟩ := h.getSegment (c := d) (k := .metadataReader) (by rintro ⟨⟩)
    cases hmetadata : s.getSegment d .metadataReader with
    | mk answer next =>
        rw [hmetadata] at hmeasured hmirrored
        cases answer with
        | error fault => cases hmeasured
        | ok i => exact hmirrored.measuredBy_eq_zero hmeasured
  · cases hmeasured

theorem spares_of_rootless (h : Mirrored limit none records s) {e : Event W} {c : CollectionId}
    {bytes : Nat} (hmeasured : s.measured e = some (c, bytes)) : s.Spares limit bytes := by
  have hnothing : RecencyCache.sizeOf s.manager.vectorRecords.charges = 0 := by
    apply List.sum_eq_zero
    intro size hsize
    obtain ⟨entry, hentry, rfl⟩ := List.mem_map.mp hsize
    exact h.weightless rfl entry hentry
  unfold Spares
  rw [hnothing, h.measured_eq_zero hmeasured]
  exact Nat.zero_le limit

theorem hasRoom_of_rootless (h : Mirrored limit none records s) (events : List (Event W)) :
    HasRoom limit events s := by
  induction events generalizing s records with
  | nil => trivial
  | cons e rest ih =>
      have hspares : ∀ c bytes, s.measured e = some (c, bytes) → s.Spares limit bytes :=
        fun c bytes => h.spares_of_rootless
      obtain ⟨between, -, hmirrored⟩ := h.after hspares
      exact ⟨fun entry hentry => hspares entry.1 entry.2 hentry, ih hmirrored⟩

end Mirrored

/-! ## Setting up -/

omit [Backend W] in
theorem inProcess_unbudgeted {settings : Settings} {g : Registry} {m : Manager}
    (hm : Manager.inProcess settings g = .ok m) (w : W) :
    ∃ m', Manager.inProcess { settings with bounded := false } g = .ok m' ∧
      initial m' w = (initial m w).unbudgeted .empty := by
  have hmap : Manager.inProcess { settings with bounded := false } g =
      (Manager.inProcess settings g).map fun m => { m with
        deployment := .inProcess { settings with bounded := false }
        vectorRecords := .unlimited } := by
    unfold Manager.inProcess
    have hvalid : Settings.validate { settings with bounded := false } = settings.validate := rfl
    have hpersistent : Settings.isPersistent { settings with bounded := false } =
      settings.isPersistent := rfl
    have hlimits : Settings.handleLimit { settings with bounded := false } =
      settings.handleLimit := rfl
    have hindexes : Manager.handlesPerIndex { settings with bounded := false } =
      Manager.handlesPerIndex settings := rfl
    rw [hvalid, hpersistent, hlimits, hindexes]
    cases settings.validate with
    | error fault => rfl
    | ok valid =>
        cases settings.isPersistent with
        | false => rfl
        | true =>
            simp only [if_true]
            cases OpenIndexes.ofLimits settings.handleLimit
              (Manager.handlesPerIndex settings (Manager.inProcessKinds g)) <;> rfl
  rw [hmap, hm]
  refine ⟨_, rfl, ?_⟩
  obtain ⟨openIndexes, rfl, -⟩ := Manager.inProcess_eq_ok hm
  rfl

omit [Backend W] in
theorem mirrored_initial {settings : Settings} {g : Registry} {m : Manager}
    (hm : Manager.inProcess settings g = .ok m) (hbounded : settings.bounded = true)
    (hlimit : 0 < settings.memoryLimit) (w : W) :
    Mirrored settings.memoryLimit settings.persistDirectory .empty (initial m w) := by
  obtain ⟨openIndexes, rfl, -⟩ := Manager.inProcess_eq_ok hm
  have hbudget : settings.usesMemoryBudget = true := by
    simp [Settings.usesMemoryBudget, hbounded, Nat.ne_of_gt hlimit]
  refine ⟨?_, ?_, ?_, rfl, ?_⟩
  · change (if _ then _ else _ : RecordCache).WellFormed
    rw [if_pos hbudget]
    exact RecencyCache.wellFormed_empty settings.memoryLimit
  · change (if _ then _ else _ : RecordCache).limit? = _
    rw [if_pos hbudget]
    rfl
  · intro c
    change _ = (if _ then _ else _ : RecordCache).peek? c
    rw [if_pos hbudget]
    rfl
  · intro _ e he
    have hmem : e ∈ (if settings.usesMemoryBudget then
      RecordCache.ofCapacity settings.memoryLimit else .unlimited).charges := he
    rw [if_pos hbudget] at hmem
    cases hmem

/-- As long as the vector records fit that a manager with a memory budget caches,
it answers every request as one without a budget would, makes the same calls,
counts the same, and runs, caches and tracks the same.  Without a directory on
disk they always fit. -/
theorem budget_with_room_is_no_budget {settings : Settings} {g : Registry} {m : Manager}
    (hm : Manager.inProcess settings g = .ok m) (hbounded : settings.bounded = true)
    (hlimit : 0 < settings.memoryLimit) (w : W) (events : List (Event W)) :
    (settings.persistDirectory = none →
      HasRoom settings.memoryLimit events (initial m w)) ∧
    ∃ m', Manager.inProcess { settings with bounded := false } g = .ok m' ∧
      (HasRoom settings.memoryLimit events (initial m w) →
        ∀ before after, events = before ++ after →
          let s := (initial m w).replay before
          let s' := (initial m' w).replay before
          (∀ q later, after = .request q :: later → (s'.handle q).1 = (s.handle q).1) ∧
          s'.site = s.site ∧ s'.catalog = s.catalog ∧
          s'.manager.counters = s.manager.counters ∧
          s'.manager.instances = s.manager.instances ∧
          s'.manager.openIndexes = s.manager.openIndexes ∧
          ∀ k c, s'.manager.cached? k c = s.manager.cached? k c) := by
  have hmirrored := mirrored_initial hm hbounded hlimit w
  obtain ⟨m', hm', hinitial⟩ := inProcess_unbudgeted hm w
  refine ⟨?_, m', hm', ?_⟩
  · intro hroot
    rw [hroot] at hmirrored
    exact hmirrored.hasRoom_of_rootless events
  · rintro hroom before after rfl
    obtain ⟨hbefore, hafter⟩ := (hasRoom_append before after _).mp hroom
    obtain ⟨records, hreplay, hreplayed⟩ := hmirrored.replay hbefore
    rw [← hinitial] at hreplay
    simp only [hreplay]
    refine ⟨?_, rfl, rfl, rfl, rfl, rfl, hreplayed.cached?⟩
    rintro q later rfl
    obtain ⟨records', hhandle, -⟩ := hreplayed.handle (q := q) fun c bytes hbytes =>
      hafter.1 (c, bytes) hbytes
    rw [hhandle]

def fittingSettings : Settings := { crowdedSettings with memoryLimit := 13 }

def troubled : List (Event World) :=
  crowded ++ [.elapse fun w => (w.fail ⟨.act .stop, some (numberedSegment 0 .vector)⟩).fail
      ⟨.act .delete, some (numberedSegment 1 .vector)⟩,
    .request (.stop []), .request (.delete (numberedCollection 1).id)]

theorem troubled_budget_has_room :
    ∃ m m', Manager.inProcess fittingSettings keeperRegistry = .ok m ∧
      Manager.inProcess { fittingSettings with bounded := false } keeperRegistry = .ok m' ∧
      HasRoom fittingSettings.memoryLimit troubled (initial m keeperWorld) ∧
      ((initial m keeperWorld).replay troubled).site.journal.countP (!·.succeeded) = 2 ∧
      ((initial m' keeperWorld).replay troubled).site =
        ((initial m keeperWorld).replay troubled).site ∧
      (((initial m' keeperWorld).replay troubled.dropLast).handle
          (.delete (numberedCollection 1).id)).1 =
        (((initial m keeperWorld).replay troubled.dropLast).handle
          (.delete (numberedCollection 1).id)).1 := by
  have hran : ∀ m, Manager.inProcess fittingSettings keeperRegistry = .ok m →
      HasRoom fittingSettings.memoryLimit troubled (initial m keeperWorld) ∧
      ((initial m keeperWorld).replay troubled).site.journal.countP (!·.succeeded) = 2 := by
    rintro m ⟨⟩
    decide +kernel
  obtain ⟨m, hm⟩ : ∃ m, Manager.inProcess fittingSettings keeperRegistry = .ok m := ⟨_, rfl⟩
  obtain ⟨hroom, hfailures⟩ := hran m hm
  obtain ⟨-, m', hm', hsame⟩ := budget_with_room_is_no_budget hm rfl (by decide) keeperWorld
    troubled
  refine ⟨m, m', hm, hm', hroom, hfailures, ?_, ?_⟩
  · exact (hsame hroom troubled [] (List.append_nil _).symm).2.1
  · exact (hsame hroom troubled.dropLast _ rfl).1 _ [] rfl

end Lookups

end System

end SegmentManager
