import SegmentManager.Proofs.System.Lookup
import SegmentManager.Proofs.System.Teardown
import SegmentManager.System.Interleaving

/-!
# What a step of a call does

A step makes one access.  None changes how the manager was set up or the rows of
the catalog; an instance is taken out by few of them only, and so is a record
written to a cache.
-/

namespace SegmentManager

variable {W : Type}

namespace Catalog

@[simp] theorem refusal_read (k : Catalog) (c : CollectionId) (scope : Option Scope) :
    (k.read c scope).2.refusal = k.refusal := by
  unfold read
  split <;> rfl

theorem read_fst_congr {k k' : Catalog} (hrows : k'.rows = k.rows)
    (hrefusal : k'.refusal = k.refusal) (hfilter : k'.filtering = k.filtering)
    (c : CollectionId) (scope : Option Scope) : (k'.read c scope).1 = (k.read c scope).1 := by
  unfold read
  rw [hrows, hrefusal, hfilter]
  cases k.refusal <;> rfl

end Catalog

namespace System

structure Keeps (s s' : System W) : Prop where
  setup : Manager.SameSetup s.manager s'.manager
  rows : s'.catalog.rows = s.catalog.rows
  refusal : s'.catalog.refusal = s.catalog.refusal
  filtering : s'.catalog.filtering = s.catalog.filtering
  wellFormed : s.manager.WellFormed → s'.manager.WellFormed

namespace Keeps

variable {s s' s'' : System W}

theorem refl (s : System W) : Keeps s s := ⟨.refl s.manager, rfl, rfl, rfl, id⟩

theorem trans (h : Keeps s s') (h' : Keeps s' s'') : Keeps s s'' :=
  ⟨h.setup.trans h'.setup, h'.rows.trans h.rows, h'.refusal.trans h.refusal,
    h'.filtering.trans h.filtering, h'.wellFormed ∘ h.wellFormed⟩

theorem of_sameCaches (hcaches : Manager.SameCaches s.manager s'.manager)
    (hcatalog : s'.catalog = s.catalog)
    (hdistinct : s.manager.instances.Distinct → s'.manager.instances.Distinct) : Keeps s s' := by
  refine ⟨hcaches.toSameSetup, ?_, ?_, ?_, ?_⟩
  · rw [hcatalog]
  · rw [hcatalog]
  · rw [hcatalog]
  · intro hwell
    exact hcaches.wellFormed hwell (hdistinct hwell.instances)

theorem read_fst (h : Keeps s s') (c : CollectionId) (scope : Option Scope) :
    (s'.catalog.read c scope).1 = (s.catalog.read c scope).1 :=
  Catalog.read_fst_congr h.rows h.refusal h.filtering c scope

theorem fetch_fst (h : Keeps s s') (c : CollectionId) (scope : Scope) :
    (s'.fetch c scope).1 = (s.fetch c scope).1 := by
  have hread := h.read_fst c (some scope)
  have hselect : ∀ (kinds : Registry) (m : Manager), m.deployment = s.manager.deployment →
      ∀ rows, (kinds.selectKnown rows c scope).bind m.complete =
        (kinds.selectKnown rows c scope).bind s.manager.complete := by
    intro kinds m hdeployment rows
    cases kinds.selectKnown rows c scope with
    | error fault => rfl
    | ok r =>
        change m.complete r = s.manager.complete r
        unfold Manager.complete
        rw [hdeployment]
  unfold fetch readCatalog
  cases hbefore : s.catalog.read c (some scope) with
  | mk answer catalog =>
      cases hafter : s'.catalog.read c (some scope) with
      | mk answer' catalog' =>
          rw [hbefore, hafter] at hread
          simp only at hread
          subst hread
          cases answer' with
          | error fault => rfl
          | ok rows =>
              simp only [Manager.tally, h.setup.kinds]
              exact (hselect _ _ h.setup.deployment rows).trans (hselect _ _ rfl rows).symm

end Keeps

/-! ## Accesses -/

section Accesses

variable (s : System W)

theorem keeps_consult (c : CollectionId) (k : Capability) :
    Keeps s (s.consult c k.scope).2 := by
  refine ⟨sameSetup_consult c k s, rfl, rfl, rfl, ?_⟩
  intro hwell
  have htouch := hwell.withRecords k (RecordCache.wellFormed_touch (hwell.records k) c)
  exact ⟨htouch.instances, htouch.records, htouch.openIndexes⟩

theorem keeps_readCatalog (c : CollectionId) (scope : Option Scope) :
    Keeps s (s.readCatalog c scope).2 :=
  ⟨⟨rfl, rfl, fun _ => rfl⟩, Catalog.rows_read s.catalog c scope,
    Catalog.refusal_read s.catalog c scope, Catalog.filtering_read s.catalog c scope,
    fun hwell => ⟨hwell.instances, hwell.records, hwell.openIndexes⟩⟩

theorem keeps_forget (c : CollectionId) (k : Capability) : Keeps s (s.forget c k.scope) :=
  ⟨.withRecords s.manager k (RecordCache.limit?_without _ c), rfl, rfl, rfl,
    fun hwell => hwell.withRecords k (RecordCache.wellFormed_without (hwell.records k) c)⟩

theorem keeps_untrack (c : CollectionId) : Keeps s (s.untrack c) := by
  refine ⟨⟨rfl, rfl, fun _ => rfl⟩, rfl, rfl, rfl, ?_⟩
  intro hwell
  refine ⟨hwell.instances, hwell.records, ?_⟩
  intro o ho
  obtain ⟨before, hbefore, rfl⟩ := Option.map_eq_some_iff.mp ho
  exact RecencyCache.wellFormed_drop (hwell.openIndexes before hbefore) c

theorem keeps_tracking {o : OpenIndexes} (ho : s.manager.openIndexes = some o) (c : CollectionId)
    (i : Instance) (undersized : Nat) :
    Keeps s { s with manager := { s.manager with
      openIndexes := some { o with tracked := (o.tracked.insert c i 1).2, undersized } } } := by
  refine ⟨⟨rfl, rfl, fun _ => rfl⟩, rfl, rfl, rfl, ?_⟩
  intro hwell
  refine ⟨hwell.instances, hwell.records, ?_⟩
  rintro _ ⟨⟩
  exact RecencyCache.wellFormed_insert (hwell.openIndexes o ho) c i 1

theorem keeps_unregister (segment : SegmentId) : Keeps s (s.unregister segment).2 :=
  .of_sameCaches ⟨⟨rfl, rfl, fun _ => rfl⟩, rfl, rfl, rfl⟩ rfl
    fun hdistinct => Table.distinct_erase hdistinct segment

theorem running?_consult (c : CollectionId) (scope : Scope) (segment : SegmentId) :
    (s.consult c scope).2.manager.running? segment = s.manager.running? segment := by
  unfold Manager.running?
  rw [instances_consult]

theorem running?_forget (c : CollectionId) (scope : Scope) (segment : SegmentId) :
    (s.forget c scope).manager.running? segment = s.manager.running? segment := by
  unfold forget Manager.running?
  rw [Manager.instances_withRecords]

theorem cached?_forget (c d : CollectionId) (k j : Capability) :
    (s.forget c k.scope).manager.cached? j d =
      if j = k ∧ d = c then none else s.manager.cached? j d := by
  refine (Manager.cached?_withRecords s.manager k j _ d).trans ?_
  rw [RecordCache.peek?_without]
  unfold Manager.cached?
  by_cases hj : j = k
  · subst hj
    by_cases hd : d = c <;> simp [hd]
  · simp [hj]

variable [Backend W]

theorem keeps_caching (r : Record) (k : Capability) : Keeps s (s.caching r k.scope) :=
  ⟨.withRecords s.manager k (RecordCache.limit?_insert _ r.collection r _), rfl, rfl, rfl,
    fun hwell => hwell.withRecords k (RecordCache.wellFormed_insert (hwell.records k) _ r _)⟩

theorem running?_caching (r : Record) (scope : Scope) (segment : SegmentId) :
    (s.caching r scope).manager.running? segment = s.manager.running? segment := by
  unfold caching Manager.running?
  rw [Manager.instances_withRecords]

theorem manager_retire (i : Instance) :
    ∃ counters, (s.retire i).manager = { s.manager with counters } := by
  unfold retire perform
  cases s.site.perform .stop i with
  | mk outcome site => cases outcome <;> exact ⟨_, rfl⟩

theorem catalog_retire (i : Instance) : (s.retire i).catalog = s.catalog := by
  unfold retire perform
  cases s.site.perform .stop i with
  | mk outcome site => cases outcome <;> rfl

variable {s}

omit [Backend W] in
theorem cached?_caching [Backend W] (hs : s.manager.WellFormed) {r e : Record}
    {k j : Capability} {d : CollectionId}
    (hcached : (s.caching r k.scope).manager.cached? j d = some e) :
    (j = k ∧ d = r.collection ∧ e = r) ∨ s.manager.cached? j d = some e := by
  have hinsert := RecordCache.peek?_insert (hs.records k) r.collection r (s.footprint r) d
  have hcaching := Manager.cached?_withRecords s.manager k j
    ((s.manager.records k.scope).insert r.collection r (s.footprint r)).2 d
  rw [hinsert] at hcaching
  have hheld := hcaching.symm.trans hcached
  split at hheld
  · rename_i hj
    subst hj
    split at hheld
    · rename_i hd
      exact .inl ⟨rfl, hd, (Option.some.inj hheld).symm⟩
    · split at hheld
      · cases hheld
      · exact .inr hheld
  · exact .inr hheld

namespace Acquires

variable {r : Record} {answer : Except Fault Instance} {s' : System W}

theorem keeps (hacquires : Acquires r s answer s') : Keeps s s' := by
  cases hacquires with
  | running hrunning => exact .refl s
  | failed habsent hlaunch => exact .of_sameCaches (.refl s.manager) rfl id
  | launched habsent hlaunch =>
      exact .of_sameCaches ⟨⟨rfl, rfl, fun _ => rfl⟩, rfl, rfl, rfl⟩ rfl
        fun hdistinct => Table.distinct_insert hdistinct r.id _

theorem cached?_eq (hacquires : Acquires r s answer s') (k : Capability) (c : CollectionId) :
    s'.manager.cached? k c = s.manager.cached? k c := by
  cases hacquires <;> rfl

theorem still_running (hacquires : Acquires r s answer s') {segment : SegmentId} {i : Instance}
    (hrunning : s.manager.running? segment = some i) :
    s'.manager.running? segment = some i := by
  cases hacquires with
  | running hrunning' => exact hrunning
  | failed habsent hlaunch => exact hrunning
  | launched habsent hlaunch =>
      rename_i j site counters
      have hinsert := Table.get?_insert s.manager.instances r.id segment j
      rw [if_neg] at hinsert
      · exact hinsert.trans hrunning
      · rintro rfl
        rw [habsent] at hrunning
        cases hrunning

theorem running_of_ok {i : Instance} (hacquires : Acquires r s (.ok i) s') :
    s'.manager.running? r.id = some i := by
  cases hacquires with
  | running hrunning => exact hrunning
  | launched habsent hlaunch =>
      have hinsert := Table.get?_insert s.manager.instances r.id r.id i
      rwa [if_pos rfl] at hinsert

end Acquires

end Accesses

end System

/-! ## Steps of a call -/

namespace Job

def TakesOut (segment : SegmentId) : Job → Prop
  | lookup _ _ (.unregister r _ _) => r.id = segment
  | remove _ removed _ _ _ => removed = segment
  | _ => False

def Drops (k : Capability) (c : CollectionId) : Job → Prop
  | lookup errand _ (.forget r _) => errand.capability = k ∧ r.collection = c
  | forgetVectors d _ => k = .vectorReader ∧ d = c
  | forgetMetadata d _ => k = .metadataReader ∧ d = c
  | _ => False

variable [Backend W]

inductive Alters (s s' : System W) : Job → Prop
  | nothing {job : Job}
      (hrunning : ∀ segment, s'.manager.running? segment = s.manager.running? segment)
      (hcached : ∀ k c, s'.manager.cached? k c = s.manager.cached? k c) : Alters s s' job
  | acquired {errand : Errand} {c : CollectionId} {r : Record} {cached : Bool}
      {answer : Except Fault Instance} (hacquires : System.Acquires r s answer s') :
      Alters s s' (lookup errand c (.acquire r cached))
  | written {errand : Errand} {c : CollectionId} {r : Record} {i : Instance}
      (hcaching : s' = s.caching r errand.capability.scope) :
      Alters s s' (lookup errand c (.remember r i))
  | dropped {job : Job} {k : Capability} {c : CollectionId} (hjob : job.Drops k c)
      (hforget : s' = s.forget c k.scope) : Alters s s' job
  | takenOut {job : Job} {segment : SegmentId} (hjob : job.TakesOut segment)
      (hrunning : ∀ other, s'.manager.running? other =
        if other = segment then none else s.manager.running? other)
      (hcached : ∀ k c, s'.manager.cached? k c = s.manager.cached? k c) : Alters s s' job

/-- A step keeps the setup and alters the tiers in one of these ways. -/
structure Affects (s s' : System W) (job : Job) : Prop where
  keeps : s.Keeps s'
  alters : Alters s s' job

theorem affects_of_counters {s s' : System W} (job : Job) (hcatalog : s'.catalog = s.catalog)
    {counters : Counters} (hmanager : s'.manager = { s.manager with counters }) :
    Affects s s' job := by
  have hkeeps : s.Keeps s' := by
    apply System.Keeps.of_sameCaches
    · rw [hmanager]
      exact ⟨⟨rfl, rfl, fun _ => rfl⟩, rfl, rfl, rfl⟩
    · exact hcatalog
    · rw [hmanager]
      exact id
  refine ⟨hkeeps, .nothing ?_ ?_⟩
  · intro segment
    rw [hmanager]
    rfl
  · intro k c
    rw [hmanager]
    cases k <;> rfl

theorem affects_refl (s : System W) (job : Job) : Affects s s job :=
  ⟨.refl s, .nothing (fun _ => rfl) fun _ _ => rfl⟩

theorem affects_readCatalog (s : System W) (job : Job) (c : CollectionId)
    (scope : Option Scope) : Affects s (s.readCatalog c scope).2 job :=
  ⟨s.keeps_readCatalog c scope, .nothing (fun _ => rfl) fun k _ => by cases k <;> rfl⟩

theorem affects_untrack (s : System W) (job : Job) (c : CollectionId) :
    Affects s (s.untrack c) job :=
  ⟨s.keeps_untrack c, .nothing (fun _ => rfl) fun k _ => by cases k <;> rfl⟩

theorem affects_takeOut (s : System W) (c : CollectionId) (segment : SegmentId)
    (later all completed : List SegmentId) :
    Affects s (takeOut c segment later all completed s).2
      (remove c segment later all completed) := by
  obtain ⟨counters, hmanager, hcatalog⟩ : ∃ counters,
      (takeOut c segment later all completed s).2.manager =
        { (s.unregister segment).2.manager with counters } ∧
      (takeOut c segment later all completed s).2.catalog = s.catalog := by
    unfold takeOut
    cases hfound : s.unregister segment with
    | mk found s' =>
        have hcatalog : s'.catalog = s.catalog := congrArg (·.2.catalog) hfound.symm
        cases found with
        | none => exact ⟨_, rfl, hcatalog⟩
        | some i =>
            simp only
            split
            · exact ⟨_, rfl, hcatalog⟩
            · simp only [System.perform]
              cases s'.site.perform .delete i with
              | mk outcome site => cases outcome <;> exact ⟨_, rfl, hcatalog⟩
  have hrest := affects_of_counters (s := (s.unregister segment).2)
    (remove c segment later all completed) hcatalog hmanager
  refine ⟨(s.keeps_unregister segment).trans hrest.keeps, .takenOut rfl ?_ ?_⟩
  · intro other
    rw [hmanager]
    exact System.running?_unregister segment other s
  · intro k d
    rw [hmanager]
    cases k <;> rfl

theorem affects_lookup (s : System W) (errand : Errand) (c : CollectionId) (stage : Lookup) :
    Affects s (stage.step c errand.capability s).2 (lookup errand c stage) := by
  cases stage with
  | consult =>
      have hstep : (Lookup.consult.step c errand.capability s).2 =
          (s.consult c errand.capability.scope).2 := by
        simp only [Lookup.step]
        split <;> simp_all
      rw [hstep]
      exact ⟨s.keeps_consult c errand.capability, .nothing
        (s.running?_consult c errand.capability.scope)
        fun k d => System.cached?_consult c d errand.capability k s⟩
  | fetch =>
      have hstep : (Lookup.fetch.step c errand.capability s).2 =
          (s.readCatalog c (some errand.capability.scope)).2 := by
        rw [← System.fetch_snd]
        simp only [Lookup.step]
        split <;> simp_all
      rw [hstep]
      exact affects_readCatalog s _ c _
  | acquire r cached =>
      have hstep : ((Lookup.acquire r cached).step c errand.capability s).2 = (s.acquire r).2 := by
        simp only [Lookup.step]
        split <;> simp_all
      have hacquires := System.acquires_acquire r s
      rw [hstep]
      exact ⟨hacquires.keeps, .acquired hacquires⟩
  | forget r fault =>
      exact ⟨s.keeps_forget r.collection errand.capability, .dropped ⟨rfl, rfl⟩ rfl⟩
  | remember r i => exact ⟨s.keeps_caching r errand.capability, .written rfl⟩
  | untrack d r gone i => exact affects_untrack s _ d
  | unregister r gone i =>
      have hstep : ((Lookup.unregister r gone i).step c errand.capability s).2 =
          (s.unregister r.id).2 := by
        simp only [Lookup.step]
        split <;> simp_all
      rw [hstep]
      exact ⟨s.keeps_unregister r.id, .takenOut rfl
        (fun other => System.running?_unregister r.id other s) fun k d => by cases k <;> rfl⟩
  | retire evicted gone i =>
      obtain ⟨counters, hmanager⟩ := s.manager_retire evicted
      exact affects_of_counters _ (s.catalog_retire evicted) hmanager

theorem affects_step (job : Job) (s : System W) : Affects s (job.step s).2 job := by
  cases job with
  | lookup errand c stage => exact affects_lookup s errand c stage
  | hint c =>
      simp only [step]
      cases s.manager.deployment <;> exact affects_refl s _
  | openIndex c i =>
      simp only [step, System.perform]
      split
      · cases s.site.perform .openIndex i with
        | mk outcome site => cases outcome <;> exact affects_of_counters _ rfl rfl
      · exact affects_refl s _
  | track c i =>
      simp only [step]
      cases ho : s.manager.openIndexes with
      | none => exact affects_refl s _
      | some o =>
          exact ⟨s.keeps_tracking ho c i _, .nothing (fun _ => rfl) fun k _ => by cases k <;> rfl⟩
  | closeIndexes targets closed =>
      cases targets with
      | nil => exact affects_of_counters _ rfl rfl
      | cons i targets =>
          simp only [step]
          split <;> exact affects_of_counters _ rfl rfl
  | list c =>
      have hread := affects_readCatalog s (list c) c none
      simp only [step]
      cases hrows : s.readCatalog c none with
      | mk rows s' =>
          rw [hrows] at hread
          cases rows <;> exact hread
  | remove c segment later all completed => exact affects_takeOut s c segment later all completed
  | forgetVectors c answer => exact ⟨s.keeps_forget c .vectorReader, .dropped ⟨rfl, rfl⟩ rfl⟩
  | forgetMetadata c answer => exact ⟨s.keeps_forget c .metadataReader, .dropped ⟨rfl, rfl⟩ rfl⟩
  | untrack c answer => exact affects_untrack s _ c
  | returned answer => exact affects_refl s _

end Job

end SegmentManager
