import SegmentManager.Proofs.System.Endpoints
import SegmentManager.Proofs.System.Failure

/-!
# What the statistics account for

Every lookup is counted as a hit or a miss, and every reading of the catalog as
a fetch.  An instance that is gone was counted in one way only, unless its
deletion failed or all was reset.  So the counters can be checked against the
requests of a history, whatever fails in it.
-/

namespace SegmentManager

open Simulation

namespace Counters

def evictions (n : Counters) : Nat := n.memoryEvictions + n.failedEvictions

end Counters

namespace Manager

theorem Fresh.empty {m : Manager} (hm : m.Fresh) : m.counters = {} ∧ m.instances = .empty := by
  cases hm with
  | distributed workers g => exact ⟨rfl, rfl⟩
  | inProcess hsetup =>
      obtain ⟨openIndexes, rfl, -⟩ := inProcess_eq_ok hsetup
      exact ⟨rfl, rfl⟩

def untracked (m m' : Manager) : Nat :=
  match m.openIndexes with
  | none => 0
  | some o => (o.collections.filter fun d => (m'.tracked? d).isNone).length

/-- The counters of a later manager account for some lookups, some listings of
whole collections, some instances that are gone without a count, and some
collections that are no longer tracked since there was no room. -/
structure Counted (lookups listings lost closed : Nat) (m m' : Manager) : Prop where
  lookups : m'.counters.lookups = m.counters.lookups + lookups
  fetches : m'.counters.fetches + m.counters.misses =
    m.counters.fetches + m'.counters.misses + listings
  distinct : m.instances.Distinct → m'.instances.Distinct
  instances : m.instances.Distinct →
    m'.counters.started + m.runningInstances + m.counters.evictions + m.counters.deleted =
      m.counters.started + m'.runningInstances + m'.counters.evictions + m'.counters.deleted + lost
  closings : m'.counters.handleEvictions = m.counters.handleEvictions + closed
  limits : ∀ k : Capability, (m'.records k.scope).limit? = (m.records k.scope).limit?
  /-- Without a limit there is always room. -/
  evictions : (∀ k : Capability, (m.records k.scope).limit? = none) →
    m'.counters.evictions = m.counters.evictions

namespace Counted

variable {lookups listings lost closed lookups' listings' lost' closed' : Nat}
  {m m' m'' : Manager}

theorem trans (h : Counted lookups listings lost closed m m')
    (h' : Counted lookups' listings' lost' closed' m' m'') :
    Counted (lookups + lookups') (listings + listings') (lost + lost') (closed + closed') m m'' := by
  constructor
  · rw [h'.lookups, h.lookups, Nat.add_assoc]
  · have hfirst := h.fetches
    have hsecond := h'.fetches
    omega
  · exact h'.distinct ∘ h.distinct
  · intro hdistinct
    have hfirst := h.instances hdistinct
    have hsecond := h'.instances (h.distinct hdistinct)
    omega
  · rw [h'.closings, h.closings, Nat.add_assoc]
  · intro k
    rw [h'.limits, h.limits]
  · intro hunlimited
    rw [h'.evictions fun k => (h.limits k).trans (hunlimited k), h.evictions hunlimited]

theorem of_same (hcounters : m'.counters = m.counters) (hinstances : m'.instances = m.instances)
    (hlimits : ∀ k : Capability, (m'.records k.scope).limit? = (m.records k.scope).limit?) :
    Counted 0 0 0 0 m m' := by
  constructor <;> simp [hcounters, hinstances, hlimits, runningInstances]

theorem of_empty (h : Counted lookups listings lost closed m m') (hcounters : m.counters = {})
    (hinstances : m.instances = .empty) :
    m'.counters.lookups = lookups ∧ m'.counters.fetches = m'.counters.misses + listings ∧
      m'.counters.started = m'.runningInstances + m'.counters.evictions + m'.counters.deleted + lost ∧
      m'.counters.handleEvictions = closed := by
  have hlookups := h.lookups
  have hfetches := h.fetches
  have hbalance := h.instances (by rw [hinstances]; exact Table.distinct_empty)
  have hclosings := h.closings
  rw [hcounters] at hlookups hfetches hbalance hclosings
  have hnone : m.runningInstances = 0 := by
    rw [runningInstances, hinstances]
    rfl
  have hzero : Counters.lookups {} = 0 ∧ Counters.evictions {} = 0 := ⟨rfl, rfl⟩
  simp only at hfetches hbalance hclosings
  refine ⟨?_, ?_, ?_, ?_⟩ <;> omega

end Counted

end Manager

namespace System

variable {W : Type}

/-- As for managers, and the catalog was read as often as the manager says, unless
it refused to be. -/
structure Counted (lookups listings lost closed : Nat) (s s' : System W) : Prop
    extends Manager.Counted lookups listings lost closed s.manager s'.manager where
  reads : s.catalog.refusal = none → s'.catalog.refusal = none ∧
    s'.catalog.reads + s.manager.counters.fetches = s.catalog.reads + s'.manager.counters.fetches

namespace Counted

variable {lookups listings lost closed lookups' listings' lost' closed' : Nat}
  {s s' s'' : System W}

theorem trans (h : Counted lookups listings lost closed s s')
    (h' : Counted lookups' listings' lost' closed' s' s'') :
    Counted (lookups + lookups') (listings + listings') (lost + lost') (closed + closed') s s'' := by
  refine ⟨h.toCounted.trans h'.toCounted, ?_⟩
  intro hserves
  obtain ⟨hserves', hfirst⟩ := h.reads hserves
  obtain ⟨hserves'', hsecond⟩ := h'.reads hserves'
  exact ⟨hserves'', by omega⟩

theorem of_same (hcounters : s'.manager.counters = s.manager.counters)
    (hinstances : s'.manager.instances = s.manager.instances)
    (hlimits : ∀ k : Capability,
      (s'.manager.records k.scope).limit? = (s.manager.records k.scope).limit?)
    (hcatalog : s'.catalog = s.catalog) : Counted 0 0 0 0 s s' := by
  refine ⟨.of_same hcounters hinstances hlimits, ?_⟩
  rw [hcatalog, hcounters]
  exact fun hserves => ⟨hserves, rfl⟩

theorem refl (s : System W) : Counted 0 0 0 0 s s := .of_same rfl rfl (fun _ => rfl) rfl

end Counted

/-! ## Lookups -/

variable [Backend W] {c : CollectionId} {k : Capability} {s : System W}

omit [Backend W] in
theorem counted_consult {r : Record} (hcached : s.manager.cached? k c = some r) :
    Counted 1 0 0 0 s (s.consult c k.scope).2 := by
  have hcounters := counters_consult_of_cached hcached
  refine ⟨?_, fun hserves => ⟨hserves, ?_⟩⟩
  · constructor
    · simp only [hcounters, Counters.lookups]
      omega
    · simp [hcounters]
    · simp
    · simp [hcounters, Manager.runningInstances, Counters.evictions]
    · simp [hcounters]
    · exact (sameSetup_consult c k s).limits
    · simp [hcounters, Counters.evictions]
  · simp [hcounters]

omit [Backend W] in
theorem reads_read {catalog : Catalog} (hserves : catalog.refusal = none) (c : CollectionId)
    (scope : Option Scope) : (catalog.read c scope).2.reads = catalog.reads + 1 := by
  unfold Catalog.read
  rw [hserves]

omit [Backend W] in
theorem counted_fetching (habsent : s.manager.cached? k c = none) :
    Counted 1 0 0 0 s (s.fetching c k) := by
  have hmanager := manager_fetching habsent
  refine ⟨?_, fun hserves => ⟨?_, ?_⟩⟩
  · rw [hmanager]
    constructor
    · simp [Manager.missed, Manager.tally, Counters.lookups, Nat.add_assoc]
    · simp only [Manager.missed, Manager.tally]
      omega
    · exact id
    · exact fun _ => rfl
    · rfl
    · intro k
      cases k <;> rfl
    · exact fun _ => rfl
  · exact (Catalog.refusal_read s.catalog c _).trans hserves
  · have hreads : (s.fetching c k).catalog.reads = s.catalog.reads + 1 :=
      reads_read hserves c (some k.scope)
    rw [hreads, hmanager]
    simp only [Manager.missed, Manager.tally]
    omega

theorem counted_acquire (r : Record) (s : System W) : Counted 0 0 0 0 s (s.acquire r).2 := by
  cases hrunning : s.manager.running? r.id with
  | some i =>
      rw [acquire_of_running hrunning]
      exact .refl s
  | none =>
      rw [acquire_of_absent hrunning]
      cases launch s.manager r s.site with
      | mk outcome site =>
          cases outcome with
          | error fault => exact .of_same rfl rfl (fun _ => rfl) rfl
          | ok i =>
              refine ⟨?_, fun hserves => ⟨hserves, rfl⟩⟩
              constructor
              · rfl
              · rfl
              · exact fun hdistinct => Table.distinct_insert hdistinct r.id i
              · intro hdistinct
                have hsize := Table.size_insert_of_absent hrunning i
                simp only [Manager.runningInstances, hsize, Counters.evictions]
                omega
              · rfl
              · intro k
                cases k <;> rfl
              · exact fun _ => rfl

theorem counted_load (habsent : s.manager.cached? k c = none) :
    Counted 1 0 0 0 s (s.load c k).2 := by
  have hfetching := counted_fetching habsent
  have hnext := fetch_snd c k.scope (s.consult c k.scope).2
  unfold load
  cases hfetch : (s.consult c k.scope).2.fetch c k.scope with
  | mk answer next =>
      rw [hfetch] at hnext
      obtain rfl : next = s.fetching c k := hnext
      cases answer with
      | error fault => exact hfetching
      | ok r =>
          have hacquired := hfetching.trans (counted_acquire r (s.fetching c k))
          simp only
          cases hacquire : (s.fetching c k).acquire r with
          | mk outcome last =>
              rw [hacquire] at hacquired
              cases outcome <;> exact hacquired

/-! ## Evictions -/

theorem counted_evict (hlimited : ¬ ∀ k : Capability, (s.manager.records k.scope).limit? = none)
    (d : CollectionId) (r : Record) : Counted 0 0 0 0 s (s.evict d r) := by
  obtain ⟨counters, hmanager⟩ := manager_evict d r s
  have hinstances : (s.evict d r).manager.instances = s.manager.instances.erase r.id := by
    rw [hmanager]
  have hlimits : ∀ k : Capability,
      ((s.evict d r).manager.records k.scope).limit? = (s.manager.records k.scope).limit? := by
    intro k
    rw [hmanager]
    cases k <;> rfl
  cases hrunning : s.manager.running? r.id with
  | none =>
      rw [Table.erase_of_absent hrunning] at hinstances
      exact .of_same (counters_evict_of_absent d hrunning) hinstances hlimits (catalog_evict d r s)
  | some i =>
      have hsize : s.manager.instances.Distinct →
          (s.manager.instances.erase r.id).size + 1 = s.manager.instances.size :=
        fun hdistinct => Table.size_erase_of_get? hdistinct hrunning
      have hcounters := counters_evict d hrunning
      generalize (s.site.perform .stop i).1 = outcome at hcounters
      cases outcome
      all_goals
        simp only at hcounters
        refine ⟨?_, ?_⟩
        · constructor
          · rw [hcounters]
            rfl
          · rw [hcounters]
            rfl
          · rw [hinstances]
            exact fun hdistinct => Table.distinct_erase hdistinct r.id
          · intro hdistinct
            have hone := hsize hdistinct
            simp only [hcounters, hinstances, Manager.runningInstances, Counters.evictions]
            omega
          · rw [hcounters]
            rfl
          · exact hlimits
          · exact fun hunlimited => (hlimited hunlimited).elim
        · rw [catalog_evict, hcounters]
          exact fun hserves => ⟨hserves, rfl⟩

theorem counted_evictAll
    (hlimited : ¬ ∀ k : Capability, (s.manager.records k.scope).limit? = none)
    (gone : List (CollectionId × Record)) : Counted 0 0 0 0 s (s.evictAll gone) := by
  induction gone generalizing s with
  | nil => exact .refl s
  | cons e rest ih =>
      have hfirst := counted_evict hlimited e.1 e.2
      rw [evictAll_cons]
      refine hfirst.trans (ih ?_)
      simp only [hfirst.limits]
      exact hlimited

theorem counted_remember (r : Record) (k : Capability) (s : System W) :
    Counted 0 0 0 0 s (s.remember r k.scope) := by
  have hcaching : Counted 0 0 0 0 s (s.caching r k.scope) := by
    refine .of_same ?_ ?_ (s.keeps_caching r k).setup.limits rfl
    · cases k <;> rfl
    · cases k <;> rfl
  rw [remember_eq]
  cases hgone : s.displaced r k.scope with
  | nil => exact hcaching
  | cons e rest =>
      -- What has to leave does so for a limit.
      refine hcaching.trans (counted_evictAll ?_ (e :: rest))
      intro hunlimited
      have hnone := RecordCache.evicted_of_unlimited
        ((hcaching.limits k).symm.trans (hunlimited k)) r.collection r (s.footprint r)
      rw [displaced, hnone] at hgone
      cases hgone

omit [Backend W] in
theorem counted_forget (d : CollectionId) (k : Capability) (s : System W) :
    Counted 0 0 0 0 s (s.forget d k.scope) := by
  refine .of_same ?_ ?_ (s.keeps_forget d k).setup.limits rfl
  · cases k <;> rfl
  · cases k <;> rfl

theorem counted_getSegment (c : CollectionId) (k : Capability) (s : System W) :
    Counted 1 0 0 0 s (s.getSegment c k).2 := by
  cases hcached : s.manager.cached? k c with
  | some r =>
      have hconsult := counted_consult hcached
      rw [getSegment_of_hit hcached]
      have hacquired := hconsult.trans (counted_acquire r (s.consult c k.scope).2)
      cases hacquire : (s.consult c k.scope).2.acquire r with
      | mk outcome next =>
          rw [hacquire] at hacquired
          cases outcome with
          | ok i => exact hacquired
          | error fault => exact hacquired.trans (counted_forget r.collection k next)
  | none =>
      have hload := counted_load hcached
      rw [getSegment_of_absent hcached]
      cases hend : s.load c k with
      | mk answer next =>
          rw [hend] at hload
          cases answer with
          | error fault => exact hload
          | ok loaded => exact hload.trans (counted_remember loaded.1 k next)

/-! ## Tracking -/

omit [Backend W] in
theorem untracked_of_same {m m' : Manager} (hopen : m'.openIndexes = m.openIndexes) :
    m.untracked m' = 0 := by
  unfold Manager.untracked Manager.tracked?
  rw [hopen]
  cases m.openIndexes with
  | none => rfl
  | some o =>
      simp only [Option.bind_some, List.length_eq_zero_iff, List.filter_eq_nil_iff]
      intro d hd hnone
      rw [Option.isNone_iff_eq_none, RecencyCache.peek?, Option.map_eq_none_iff,
        RecencyCache.find?_eq_none_iff] at hnone
      exact hnone hd

theorem counted_trackIndex (hs : s.manager.WellFormed) (c : CollectionId) (i : Instance) :
    Counted 0 0 0 (s.manager.untracked (s.trackIndex c i).2.manager) s (s.trackIndex c i).2 := by
  have hsame : ∀ s' : System W, s'.manager = s.manager → s'.catalog = s.catalog →
      Counted 0 0 0 (s.manager.untracked s'.manager) s s' := by
    intro s' hmanager hcatalog
    rw [hmanager, untracked_of_same rfl]
    refine .of_same ?_ ?_ ?_ hcatalog <;> simp [hmanager]
  unfold trackIndex
  cases hopen : s.manager.openIndexes with
  | none => exact hsame s rfl rfl
  | some o =>
      simp only
      by_cases hpersistent : i.views.persistentIndex = true
      · rw [if_pos hpersistent]
        cases hperform : (s.site.perform .openIndex i).1 with
        | error fault =>
            rw [OpenIndexes.track_of_error o c hpersistent hperform]
            refine hsame _ ?_ rfl
            simp only [← hopen]
        | ok done =>
            rw [OpenIndexes.track_of_ok o c hpersistent hperform]
            have hlost := RecencyCache.length_evicted (hs.openIndexes o hopen) c i 1
            have huntracked : ∀ m' : Manager,
                (∀ d, m'.tracked? d = (o.tracked.insert c i 1).2.peek? d) →
                s.manager.untracked m' = (o.tracked.insert c i 1).1.length := by
              intro m' htracked
              simp only [Manager.untracked, hopen, htracked]
              exact hlost.symm
            simp only
            rw [huntracked _ fun d => rfl]
            refine ⟨?_, fun hserves => ⟨hserves, rfl⟩⟩
            constructor
            · rfl
            · rfl
            · exact id
            · exact fun _ => rfl
            · simp [Manager.tally]
            · intro k
              cases k <;> rfl
            · exact fun _ => rfl
      · rw [if_neg hpersistent]
        exact hsame s rfl rfl

/-! ## Taking down -/

omit [Backend W] in
theorem counted_listing (c : CollectionId) (s : System W) : Counted 0 1 0 0 s (s.listing c) := by
  refine ⟨?_, fun hserves => ⟨?_, ?_⟩⟩
  · constructor
    · rfl
    · simp only [listing, readCatalog, Manager.tally]
      omega
    · exact id
    · exact fun _ => rfl
    · rfl
    · intro k
      cases k <;> rfl
    · exact fun _ => rfl
  · exact (Catalog.refusal_read s.catalog c _).trans hserves
  · have hreads : (s.listing c).catalog.reads = s.catalog.reads + 1 := reads_read hserves c none
    rw [hreads]
    simp only [listing, readCatalog, Manager.tally]
    omega

omit [Backend W] in
theorem counted_forgetAll (c : CollectionId) (s : System W) :
    Counted 0 0 0 0 s (s.forgetAll c) :=
  .of_same rfl rfl (sameSetup_forgetAll c s).limits rfl

/-- An instance that is taken out is gone without a count, unless it is counted
as deleted. -/
theorem counted_takeOut {segment : SegmentId} {i : Instance}
    (hrunning : s.manager.running? segment = some i) (action : Action) :
    Counted 0 0 1 0 s ((s.unregister segment).2.perform action i).2 ∧
      Counted 0 0 0 0 s ((s.unregister segment).2.perform action i).2.countDeleted := by
  have hsize : s.manager.instances.Distinct →
      (s.manager.instances.erase segment).size + 1 = s.manager.instances.size :=
    fun hdistinct => Table.size_erase_of_get? hdistinct hrunning
  refine ⟨⟨?_, fun hserves => ⟨hserves, rfl⟩⟩, ⟨?_, fun hserves => ⟨hserves, rfl⟩⟩⟩
  all_goals
    constructor
    · rfl
    · rfl
    · exact fun hdistinct => Table.distinct_erase hdistinct segment
    · intro hdistinct
      have hone := hsize hdistinct
      simp only [countDeleted, perform, unregister, Table.pop, Manager.tally,
        Manager.runningInstances, Counters.evictions]
      omega
    · rfl
    · intro k
      cases k <;> rfl
    · exact fun _ => rfl

theorem counted_deleteEach (segments : List SegmentId) (s : System W) :
    Counted 0 0 (deleteEach segments s).1.2.toList.length 0 s (deleteEach segments s).2 := by
  induction segments generalizing s with
  | nil => exact .refl s
  | cons segment rest ih =>
      unfold deleteEach
      cases hrunning : s.manager.running? segment with
      | none =>
          rw [unregister_of_absent hrunning]
          exact ih s
      | some i =>
          obtain ⟨hlost, hdeleted⟩ := counted_takeOut hrunning .delete
          rw [unregister_of_running hrunning]
          simp only
          cases hperform : (s.unregister segment).2.perform .delete i with
          | mk outcome next =>
              rw [hperform] at hlost hdeleted
              cases outcome with
              | error fault => exact hlost
              | ok done => simpa using hdeleted.trans (ih next.countDeleted)

theorem counted_releaseEach (segments : List SegmentId) (s : System W) :
    Counted 0 0 0 0 s (releaseEach segments s) := by
  induction segments generalizing s with
  | nil => exact .refl s
  | cons segment rest ih =>
      unfold releaseEach
      cases hrunning : s.manager.running? segment with
      | none =>
          rw [unregister_of_absent hrunning]
          exact ih s
      | some i =>
          rw [unregister_of_running hrunning]
          exact (counted_takeOut hrunning .stop).2.trans (ih _)

/-! ## Requests -/

end System

namespace Request

variable {W : Type} [Backend W]

/-- The lookups that a request comes to.  A hint looks for the vectors once it has
the metadata. -/
def lookups (s : System W) : Request → Nat
  | get _ _ => 1
  | getNamed _ name => if (Capability.ofName? name).isSome then 1 else 0
  | hint c _ =>
      match s.manager.deployment with
      | .distributed _ => 0
      | .inProcess _ => if (s.getSegment c .metadataReader).1.isOk then 2 else 1
  | _ => 0

def refusals : Except Fault (List SegmentId) → Nat
  | .error (.partialDelete _ _ _) => 1
  | _ => 0

def deletions (_ : System W) : Request → Nat
  | delete _ => 1
  | _ => 0

/-- The deletions that end at an instance that refuses. -/
def breaks (s : System W) : Request → Nat
  | delete c => refusals (s.deleteSegments c).1
  | _ => 0

/-- The instances that a reset takes out. -/
def drains (s : System W) : Request → Nat
  | reset _ => s.manager.runningInstances
  | _ => 0

/-- The collections that a hint stops tracking for the sake of its own. -/
def closes (s : System W) : Request → Nat
  | hint c _ =>
      match s.manager.deployment with
      | .distributed _ => 0
      | .inProcess _ =>
          match s.getSegment c .metadataReader with
          | (.error _, _) => 0
          | (.ok _, s) =>
              match s.getSegment c .vectorReader with
              | (.error _, _) => 0
              | (.ok i, s) => s.manager.untracked (s.trackIndex c i).2.manager
  | _ => 0

end Request

namespace System

variable {W : Type} [Backend W] {created : List Record} {s : System W}

theorem counted_deleteSegments (c : CollectionId) (s : System W) :
    Counted 0 1 (Request.refusals (s.deleteSegments c).1) 0 s (s.deleteSegments c).2 := by
  have hlisting := counted_listing c s
  have hdisposes := disposes_deleteSegments c s
  generalize (s.deleteSegments c).1 = answer, (s.deleteSegments c).2 = s' at hdisposes ⊢
  cases hdisposes with
  | refused hrefusal => exact hlisting
  | released hrows hdeployment =>
      exact (hlisting.trans (counted_releaseEach _ _)).trans (counted_forgetAll c _)
  | completed hrows hdeployment hend | broken hrows hdeployment hend =>
      rename_i rows last
      have hdeleted := counted_deleteEach (rows.map (·.id)) (s.listing c)
      rw [hend] at hdeleted
      exact (hlisting.trans hdeleted).trans (counted_forgetAll c last)

theorem counted_hint (hs : s.Coherent created) (c : CollectionId) (operation : Operation) :
    Counted (Request.lookups s (.hint c operation)) 0 0 (Request.closes s (.hint c operation)) s
      (s.hint c operation).2 := by
  have hfirst := counted_getSegment c .metadataReader s
  have hcoherent := hs.getSegment c .metadataReader
  simp only [Request.lookups, Request.closes, System.hint]
  cases s.manager.deployment with
  | distributed workers => exact .refl s
  | inProcess settings =>
      simp only
      generalize s.getSegment c .metadataReader = metadata at hfirst hcoherent ⊢
      obtain ⟨answer, next⟩ := metadata
      cases answer with
      | error fault => exact hfirst
      | ok i =>
          have hsecond := hfirst.trans (counted_getSegment c .vectorReader next)
          have hcoherent' := hcoherent.getSegment c .vectorReader
          simp only
          generalize next.getSegment c .vectorReader = vectors at hsecond hcoherent' ⊢
          obtain ⟨answer, last⟩ := vectors
          cases answer with
          | error fault => exact hsecond
          | ok j =>
              simpa [Except.isOk, Except.toBool] using
                hsecond.trans (counted_trackIndex hcoherent'.manager.wellFormed c j)

theorem counted_reset (order : List SegmentId) (s : System W) :
    Counted 0 0 s.manager.runningInstances 0 s (s.reset order).2 := by
  refine ⟨?_, fun hserves => ⟨hserves, rfl⟩⟩
  constructor
  · rfl
  · rfl
  · exact fun _ => Table.distinct_empty
  · intro hdistinct
    have hempty : (s.reset order).2.manager.runningInstances = 0 := rfl
    have hcounters : (s.reset order).2.manager.counters = s.manager.counters := rfl
    rw [hempty, hcounters]
    omega
  · rfl
  · exact (sameSetup_reset order s).limits
  · exact fun _ => rfl

theorem counted_handle (hs : s.Coherent created) (q : Request) :
    Counted (q.lookups s) (q.deletions s) (q.breaks s + q.drains s) (q.closes s) s
      (s.handle q).2 := by
  cases q with
  | get c k => exact counted_getSegment c k s
  | getNamed c name =>
      simp only [Request.lookups, System.handle, reply, getSegmentNamed]
      cases Capability.ofName? name with
      | none => exact .refl s
      | some k => exact counted_getSegment c k s
  | hint c operation => exact counted_hint hs c operation
  | delete c => exact counted_deleteSegments c s
  | start order => exact .of_same rfl rfl (fun _ => rfl) rfl
  | stop order => exact .of_same rfl rfl (fun _ => rfl) rfl
  | reset order =>
      change Counted 0 0 (0 + s.manager.runningInstances) 0 s (s.reset order).2
      rw [Nat.zero_add]
      exact counted_reset order s

/-! ## Histories -/

def reckoned (count : System W → Request → Nat) (s : System W) : Event W → Nat
  | .request q => count s q
  | _ => 0

/-- What the requests of a history come to, each reckoned in the state that it
meets. -/
def tallied (count : System W → Request → Nat) : List (Event W) → System W → Nat
  | [], _ => 0
  | e :: events, s => s.reckoned count e + tallied count events (s.after e)

theorem tallied_concat (count : System W → Request → Nat) (events : List (Event W)) (e : Event W)
    (s : System W) :
    s.tallied count (events ++ [e]) =
      s.tallied count events + (s.replay events).reckoned count e := by
  induction events generalizing s with
  | nil => simp [tallied]
  | cons first rest ih =>
      rw [List.cons_append, tallied, tallied, ih, Nat.add_assoc]
      rfl

theorem Coherent.counted_after (hs : s.Coherent created) (e : Event W) :
    Manager.Counted (s.reckoned Request.lookups e) (s.reckoned Request.deletions e)
      (s.reckoned Request.breaks e + s.reckoned Request.drains e) (s.reckoned Request.closes e)
      s.manager (s.after e).manager := by
  cases e with
  | request q => exact (counted_handle hs q).toCounted
  | regroup members =>
      refine .of_same (s.manager.counters_withMembers members)
        (s.manager.instances_withMembers members) fun k => ?_
      exact congrArg RecordCache.limit? (s.manager.records_withMembers members k.scope)
  | enter rows => exact .of_same rfl rfl fun _ => rfl
  | withdraw c => exact .of_same rfl rfl fun _ => rfl
  | refuse text => exact .of_same rfl rfl fun _ => rfl
  | elapse change => exact .of_same rfl rfl fun _ => rfl

theorem counted_replay {m : Manager} (hm : m.Fresh) (w : W) {events : List (Event W)}
    (hids : Event.NeverShared events) :
    let start := initial m w
    Manager.Counted (start.tallied Request.lookups events) (start.tallied Request.deletions events)
      (start.tallied Request.breaks events + start.tallied Request.drains events)
      (start.tallied Request.closes events) m (start.replay events).manager := by
  intro start
  induction events using List.reverseRecOn with
  | nil => exact .of_same rfl rfl fun _ => rfl
  | append_singleton events e ih =>
      have hstep := (ih hids.of_append).trans
        ((coherent_replay hm w hids.of_append).counted_after e)
      rw [replay_concat]
      simp only [tallied_concat]
      rwa [Nat.add_add_add_comm] at hstep

theorem reads_replay {m : Manager} (hm : m.Fresh) (w : W) {events : List (Event W)}
    (hids : Event.NeverShared events) (hserving : ∀ text, .refuse (some text) ∉ events) :
    ((initial m w).replay events).catalog.refusal = none ∧
      ((initial m w).replay events).catalog.reads =
        ((initial m w).replay events).manager.counters.fetches := by
  revert hids hserving
  refine replay_induction (P := fun events s => Event.NeverShared events →
    (∀ text, .refuse (some text) ∉ events) →
    s.catalog.refusal = none ∧ s.catalog.reads = s.manager.counters.fetches) ?_ ?_ events
  · intro hids hserving
    refine ⟨rfl, ?_⟩
    rw [show (initial m w).manager.counters = {} from hm.empty.1]
    rfl
  · intro events e ih hids hserving
    simp only [List.mem_append, List.mem_singleton, not_or] at hserving
    obtain ⟨hserves, hreads⟩ := ih hids.of_append fun text => (hserving text).1
    cases e with
    | request q =>
        have hcounted := counted_handle (coherent_replay hm w hids.of_append) q
        obtain ⟨hserves', hreads'⟩ := hcounted.reads hserves
        refine ⟨hserves', ?_⟩
        change (((initial m w).replay events).handle q).2.catalog.reads =
          (((initial m w).replay events).handle q).2.manager.counters.fetches
        omega
    | refuse text =>
        cases text with
        | none => exact ⟨rfl, hreads⟩
        | some text => exact ((hserving text).2 rfl).elim
    | regroup members =>
        refine ⟨hserves, hreads.trans ?_⟩
        exact congrArg Counters.fetches (Manager.counters_withMembers _ members).symm
    | enter rows => exact ⟨hserves, hreads⟩
    | withdraw c => exact ⟨hserves, hreads⟩
    | elapse change => exact ⟨hserves, hreads⟩

theorem refusals_of_remote (hremote : s.manager.deployment.ownProcess = false)
    (c : CollectionId) : Request.refusals (s.deleteSegments c).1 = 0 := by
  have hdisposes := disposes_deleteSegments c s
  generalize (s.deleteSegments c).1 = answer, (s.deleteSegments c).2 = s' at hdisposes ⊢
  cases hdisposes with
  | refused hrefusal => rfl
  | released hrows hdeployment => rfl
  | completed hrows hdeployment hend | broken hrows hdeployment hend =>
      rw [hdeployment] at hremote
      cases hremote

theorem breaks_replay (workers : Workers) (g : Registry) (w : W) {events : List (Event W)}
    (hids : Event.NeverShared events) :
    (initial (.distributed workers g) w).tallied Request.breaks events = 0 := by
  induction events using List.reverseRecOn with
  | nil => rfl
  | append_singleton events e ih =>
      obtain ⟨hremote, -⟩ := ledger_replay (.distributed workers g) w hids.of_append
      rw [tallied_concat, ih hids.of_append, Nat.zero_add]
      cases e with
      | request q =>
          cases q with
          | delete c => exact refusals_of_remote hremote c
          | get c k => rfl
          | getNamed c name => rfl
          | hint c operation => rfl
          | start order => rfl
          | stop order => rfl
          | reset order => rfl
      | enter rows => rfl
      | withdraw c => rfl
      | refuse text => rfl
      | regroup members => rfl
      | elapse change => rfl

/-- In every history, whatever fails in it:

* every lookup is a hit or a miss;
* the manager fetches rows for each miss and for each deletion, and as long as the
  catalog never refuses, it is read just as often;
* every instance that was started is there, was evicted, whether its stop failed
  or not, was deleted, refused to be deleted, or was taken out by a reset;
* every collection that is no longer tracked for lack of room is counted;
* proxies are never evicted, and none refuses to be let go of. -/
theorem statistics_account_for_everything {m : Manager} (hm : m.Fresh) (w : W)
    {events : List (Event W)} (hids : Event.NeverShared events) :
    let start := initial m w
    let s := start.replay events
    let n := s.manager.counters
    n.hits + n.misses = start.tallied Request.lookups events ∧
    n.fetches = n.misses + start.tallied Request.deletions events ∧
    ((∀ text, .refuse (some text) ∉ events) → s.catalog.reads = n.fetches) ∧
    n.started = s.manager.runningInstances + n.memoryEvictions + n.failedEvictions + n.deleted +
      start.tallied Request.breaks events + start.tallied Request.drains events ∧
    n.handleEvictions = start.tallied Request.closes events ∧
    (m.deployment.ownProcess = false →
      n.started = s.manager.runningInstances + n.deleted + start.tallied Request.drains events) := by
  intro start s n
  obtain ⟨hstart, hempty⟩ := hm.empty
  have hcounted : Manager.Counted (start.tallied Request.lookups events)
      (start.tallied Request.deletions events)
      (start.tallied Request.breaks events + start.tallied Request.drains events)
      (start.tallied Request.closes events) m s.manager := counted_replay hm w hids
  obtain ⟨hlookups, hfetches, hbalance, hclosings⟩ := hcounted.of_empty hstart hempty
  have hall : n.started = s.manager.runningInstances + n.memoryEvictions + n.failedEvictions +
      n.deleted + start.tallied Request.breaks events + start.tallied Request.drains events := by
    rw [hbalance]
    simp only [n, Counters.evictions]
    omega
  refine ⟨hlookups, hfetches, fun hserving => (reads_replay hm w hids hserving).2, hall,
    hclosings, ?_⟩
  intro hremote
  have hevictions := hcounted.evictions fun k =>
    (hm.coherent.limits k).trans (Deployment.limit?_of_remote hremote k)
  have hbreaks : start.tallied Request.breaks events = 0 := by
    cases hm with
    | distributed workers g => exact breaks_replay workers g w hids
    | inProcess hsetup =>
        obtain ⟨openIndexes, rfl, -⟩ := Manager.inProcess_eq_ok hsetup
        cases hremote
  rw [hstart] at hevictions
  have hnone : n.memoryEvictions + n.failedEvictions = 0 := hevictions
  omega

def settled : List (Event World) :=
  stubborn ++ [.enter (numberedRows 2), .enter (numberedRows 3),
    .request (.hint (numberedCollection 2).id .add),
    .request (.hint (numberedCollection 3).id .add),
    .request (.delete (numberedCollection 1).id), .request (.reset [])]

def dissolved : List (Event World) := relocated ++ [.request (.reset [])]

theorem settled_statistics :
    (∃ m, m.Fresh ∧ Event.NeverShared settled ∧
      let s := (initial m keeperWorld).replay settled
      let n := s.manager.counters
      n.hits + n.misses = 8 ∧ n.fetches = n.misses + 1 ∧ s.catalog.reads = n.fetches ∧
        n.started = s.manager.runningInstances + n.memoryEvictions + n.failedEvictions +
          n.deleted + 1 + 5 ∧ n.handleEvictions = 1) ∧
    Event.NeverShared dissolved ∧
      let s := (initial (.distributed (soleWorker "first") keeperRegistry) keeperWorld).replay
        dissolved
      s.manager.counters.started = s.manager.runningInstances + s.manager.counters.deleted + 1 := by
  constructor
  · have hids : Event.NeverShared settled := by decide +kernel
    have hserves : ∀ text, Event.refuse (some text) ∉ settled := by
      simp [settled, stubborn, crowded, vectorsWritten]
    have hcounts : ∀ m, Manager.inProcess crowdedSettings keeperRegistry = .ok m →
        let start := initial m keeperWorld
        start.tallied Request.lookups settled = 8 ∧ start.tallied Request.deletions settled = 1 ∧
          start.tallied Request.breaks settled = 1 ∧ start.tallied Request.drains settled = 5 ∧
          start.tallied Request.closes settled = 1 := by
      rintro m ⟨⟩
      decide +kernel
    obtain ⟨m, hm⟩ : ∃ m, Manager.inProcess crowdedSettings keeperRegistry = .ok m := ⟨_, rfl⟩
    obtain ⟨hlookups, hdeletions, hbreaks, hdrains, hcloses⟩ := hcounts m hm
    obtain ⟨hall, hfetches, hreads, hbalance, hclosings, -⟩ :=
      statistics_account_for_everything (.inProcess hm) keeperWorld hids
    rw [hlookups] at hall
    rw [hdeletions] at hfetches
    rw [hbreaks, hdrains] at hbalance
    rw [hcloses] at hclosings
    exact ⟨m, .inProcess hm, hids, hall, hfetches, hreads hserves, hbalance, hclosings⟩
  · have hids : Event.NeverShared dissolved := by decide +kernel
    have hdrains : (initial (.distributed (soleWorker "first") keeperRegistry)
        keeperWorld).tallied Request.drains dissolved = 1 := by decide +kernel
    obtain ⟨-, -, -, -, -, hproxies⟩ := statistics_account_for_everything
      (.distributed (soleWorker "first") keeperRegistry) keeperWorld hids
    have hbalance := hproxies rfl
    rw [hdrains] at hbalance
    exact ⟨hids, hbalance⟩

end System

end SegmentManager
