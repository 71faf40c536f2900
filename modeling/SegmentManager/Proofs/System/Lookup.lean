import SegmentManager.Proofs.System.Steps

/-!
# How a lookup goes

A lookup is served from the tiers, or loads a record and remembers it.  Loading
changes instances and counters only; remembering changes one cache of records
and tears down what stands behind the records that it evicts.
-/

namespace SegmentManager.System

variable {W : Type} [Backend W]

/-! ## Loading -/

/-- What a lookup does that finds no record in its cache: it fetches one and
acquires the instance, and caches nothing yet. -/
def load (c : CollectionId) (k : Capability) (s : System W) :
    Except Fault (Record × Instance) × System W :=
  match (s.consult c k.scope).2.fetch c k.scope with
  | (.error fault, s) => (.error fault, s)
  | (.ok r, s) =>
      match s.acquire r with
      | (.error fault, s) => (.error fault, s)
      | (.ok i, s) => (.ok (r, i), s)

def fetching (c : CollectionId) (k : Capability) (s : System W) : System W :=
  ((s.consult c k.scope).2.readCatalog c (some k.scope)).2

inductive Loads (c : CollectionId) (k : Capability) (s : System W) :
    Except Fault (Record × Instance) → System W → Prop
  | refused (fault : Fault) : Loads c k s (.error fault) (s.fetching c k)
  | running {r : Record} {i : Instance} (hadmits : s.manager.Admits s.catalog.rows k c r)
      (hrunning : s.manager.running? r.id = some i) :
      Loads c k s (.ok (r, i)) (s.fetching c k)
  | failed {r : Record} {fault : Fault} {site : Site W}
      (hadmits : s.manager.Admits s.catalog.rows k c r)
      (habsent : s.manager.running? r.id = none)
      (hlaunch : launch (s.fetching c k).manager r s.site = (.error fault, site)) :
      Loads c k s (.error fault) { s.fetching c k with site }
  | launched {r : Record} {i : Instance} {site : Site W} {counters : Counters}
      (hadmits : s.manager.Admits s.catalog.rows k c r) (habsent : s.manager.running? r.id = none)
      (hlaunch : launch (s.fetching c k).manager r s.site = (.ok i, site)) :
      Loads c k s (.ok (r, i)) { s.fetching c k with
        manager := { (s.fetching c k).manager with
          instances := s.manager.instances.insert r.id i, counters }
        site }

section Fetching

variable {c : CollectionId} {k : Capability} {s : System W}

omit [Backend W] in
theorem sameCaches_fetching (habsent : s.manager.cached? k c = none) :
    Manager.SameCaches s.manager (s.fetching c k).manager := by
  unfold fetching
  rw [consult_of_absent habsent]
  exact ⟨⟨rfl, rfl, fun _ => rfl⟩, rfl, rfl, rfl⟩

omit [Backend W] in
@[simp] theorem instances_fetching : (s.fetching c k).manager.instances = s.manager.instances :=
  instances_consult c k.scope s

omit [Backend W] in
theorem running?_fetching (segment : SegmentId) :
    (s.fetching c k).manager.running? segment = s.manager.running? segment := by
  unfold Manager.running?
  rw [instances_fetching]

omit [Backend W] in
@[simp] theorem rows_fetching : (s.fetching c k).catalog.rows = s.catalog.rows :=
  Catalog.rows_read s.catalog c (some k.scope)

omit [Backend W] in
@[simp] theorem filtering_fetching :
    (s.fetching c k).catalog.filtering = s.catalog.filtering :=
  Catalog.filtering_read s.catalog c (some k.scope)

end Fetching

omit [Backend W] in
theorem admits_of_fetch {c : CollectionId} {k : Capability} {s s' : System W} {r : Record}
    (hfilter : s.catalog.filtering = true) (hfetch : s.fetch c k.scope = (.ok r, s')) :
    s.manager.Admits s.catalog.rows k c r := by
  obtain ⟨row, hrow, hcollection, hscope, hknown, hcomplete⟩ := fetch_eq_ok hfilter hfetch
  have hserves := Manager.serves_of_complete hcomplete
  exact ⟨⟨row, hrow, hserves⟩, hserves.collection_eq.trans hcollection,
    hserves.scope_eq.trans hscope, hserves.kind_eq ▸ hknown⟩

theorem loads_load (c : CollectionId) (k : Capability) {s : System W}
    (hfilter : s.catalog.filtering = true) :
    Loads c k s (s.load c k).1 (s.load c k).2 := by
  unfold load
  have hnext := fetch_snd c k.scope (s.consult c k.scope).2
  cases hfetch : (s.consult c k.scope).2.fetch c k.scope with
  | mk answer next =>
      rw [hfetch] at hnext
      obtain rfl : next = s.fetching c k := hnext
      cases answer with
      | error fault => exact .refused fault
      | ok r =>
          have hadmits : s.manager.Admits s.catalog.rows k c r :=
            (admits_of_fetch (by rw [catalog_consult, hfilter]) hfetch).congr
              (sameSetup_consult c k s).symm
          cases hrunning : s.manager.running? r.id with
          | some i =>
              have hstill : (s.fetching c k).manager.running? r.id = some i := by
                rw [running?_fetching, hrunning]
              simp only [acquire_of_running hstill]
              exact .running hadmits hrunning
          | none =>
              have hstill : (s.fetching c k).manager.running? r.id = none := by
                rw [running?_fetching, hrunning]
              simp only [acquire_of_absent hstill, instances_fetching]
              cases hlaunch : launch (s.fetching c k).manager r (s.fetching c k).site with
              | mk outcome site =>
                  cases outcome with
                  | error fault => exact .failed hadmits hrunning hlaunch
                  | ok i => exact .launched hadmits hrunning hlaunch

theorem Loads.running_of {c : CollectionId} {k : Capability} {s s' : System W}
    {answer : Except Fault (Record × Instance)}
    (hload : Loads c k s answer s') {segment : SegmentId} {j : Instance}
    (hj : s'.manager.running? segment = some j) :
    s.manager.running? segment = some j ∨
      s.manager.running? segment = none ∧ ∃ r, answer = .ok (r, j) ∧ segment = r.id := by
  cases hload with
  | refused fault => exact .inl ((running?_fetching segment).symm.trans hj)
  | running hadmits hrunning => exact .inl ((running?_fetching segment).symm.trans hj)
  | failed hadmits habsent hlaunch => exact .inl ((running?_fetching segment).symm.trans hj)
  | launched hadmits habsent hlaunch =>
      rename_i r i site counters
      have hinsert := Table.get?_insert s.manager.instances r.id segment i
      have hfound : (s.manager.instances.insert r.id i).get? segment = some j := hj
      rw [hfound] at hinsert
      split at hinsert
      · rename_i hsegment
        obtain rfl := Option.some.inj hinsert
        exact .inr ⟨hsegment ▸ habsent, r, rfl, hsegment⟩
      · exact .inl hinsert.symm

theorem Loads.admits {c : CollectionId} {k : Capability} {s s' : System W} {r : Record}
    {i : Instance} (hload : Loads c k s (.ok (r, i)) s') :
    s.manager.Admits s.catalog.rows k c r ∧ s'.catalog.rows = s.catalog.rows := by
  cases hload with
  | running hadmits hrunning => exact ⟨hadmits, rows_fetching⟩
  | launched hadmits habsent hlaunch => exact ⟨hadmits, rows_fetching⟩

/-! ## Looking up -/

/-- The ways in which a lookup ends in a system where what is cached runs. -/
inductive Looks (c : CollectionId) (k : Capability) (s : System W) :
    Except Fault Instance → System W → Prop
  | cached {r : Record} {i : Instance} (hcached : s.manager.cached? k c = some r)
      (hrunning : s.manager.running? r.id = some i) :
      Looks c k s (.ok i) (s.consult c k.scope).2
  | failed {fault : Fault} {s' : System W} (habsent : s.manager.cached? k c = none)
      (hload : Loads c k s (.error fault) s') : Looks c k s (.error fault) s'
  | loaded {r : Record} {i : Instance} {s' : System W} (habsent : s.manager.cached? k c = none)
      (hload : Loads c k s (.ok (r, i)) s') : Looks c k s (.ok i) (s'.remember r k.scope)

theorem getSegment_of_cached {c : CollectionId} {k : Capability} {s : System W} {r : Record}
    {i : Instance} (hcached : s.manager.cached? k c = some r)
    (hrunning : s.manager.running? r.id = some i) :
    s.getSegment c k = (.ok i, (s.consult c k.scope).2) := by
  have hfound := consult_fst c k s
  have hinstances := instances_consult c k.scope s
  cases hconsult : s.consult c k.scope with
  | mk found next =>
      rw [hconsult] at hfound hinstances
      simp only at hfound hinstances
      have hstill : next.manager.running? r.id = some i := by
        unfold Manager.running?
        rw [hinstances]
        exact hrunning
      simp only [getSegment, hconsult, hfound, hcached, acquire_of_running hstill]

theorem getSegment_of_hit {c : CollectionId} {k : Capability} {s : System W} {r : Record}
    (hcached : s.manager.cached? k c = some r) :
    s.getSegment c k =
      match (s.consult c k.scope).2.acquire r with
      | (.ok i, s) => (.ok i, s)
      | (.error fault, s) => (.error fault, s.forget r.collection k.scope) := by
  have hfound := (consult_fst c k s).trans hcached
  simp only [getSegment]
  cases hconsult : s.consult c k.scope with
  | mk found next =>
      rw [hconsult] at hfound
      obtain rfl : found = some r := hfound
      rfl

theorem getSegment_of_absent {c : CollectionId} {k : Capability} {s : System W}
    (habsent : s.manager.cached? k c = none) :
    s.getSegment c k =
      match s.load c k with
      | (.error fault, s) => (.error fault, s)
      | (.ok (r, i), s) => (.ok i, s.remember r k.scope) := by
  simp only [getSegment, load, consult_of_absent habsent]
  generalize fetch c k.scope _ = fetched
  obtain ⟨answer, next⟩ := fetched
  cases answer with
  | error fault => rfl
  | ok r =>
      simp only
      cases next.acquire r with
      | mk outcome last => cases outcome <;> rfl

theorem looks_getSegment (c : CollectionId) (k : Capability) {s : System W}
    (hfilter : s.catalog.filtering = true)
    (hruns : ∀ r, s.manager.cached? k c = some r → ∃ i, s.manager.running? r.id = some i) :
    Looks c k s (s.getSegment c k).1 (s.getSegment c k).2 := by
  cases hcached : s.manager.cached? k c with
  | some r =>
      obtain ⟨i, hrunning⟩ := hruns r hcached
      rw [getSegment_of_cached hcached hrunning]
      exact .cached hcached hrunning
  | none =>
      have hload := loads_load c k hfilter
      rw [getSegment_of_absent hcached]
      cases hend : s.load c k with
      | mk answer next =>
          rw [hend] at hload
          cases answer with
          | error fault => exact .failed hcached hload
          | ok loaded => exact .loaded hcached hload

/-! ## Remembering -/

def evictAll (gone : List (CollectionId × Record)) (s : System W) : System W :=
  gone.foldl (fun s e => s.evict e.1 e.2) s

def displaced (r : Record) (scope : Scope) (s : System W) : List (CollectionId × Record) :=
  (s.manager.records scope).evicted r.collection r (s.footprint r)

def caching (r : Record) (scope : Scope) (s : System W) : System W :=
  let cache := ((s.manager.records scope).insert r.collection r (s.footprint r)).2
  { s with manager := s.manager.withRecords scope cache }

theorem remember_eq (r : Record) (scope : Scope) (s : System W) :
    s.remember r scope = (s.caching r scope).evictAll (s.displaced r scope) := rfl

section EvictAll

variable (gone : List (CollectionId × Record)) (s : System W)

@[simp] theorem evictAll_nil : s.evictAll [] = s := rfl

@[simp] theorem evictAll_cons (e : CollectionId × Record) :
    s.evictAll (e :: gone) = (s.evict e.1 e.2).evictAll gone := rfl

theorem catalog_evictAll : (s.evictAll gone).catalog = s.catalog := by
  induction gone generalizing s with
  | nil => rfl
  | cons e rest ih => rw [evictAll_cons, ih, catalog_evict]

theorem running?_evictAll (segment : SegmentId) :
    (s.evictAll gone).manager.running? segment =
      if segment ∈ gone.map (·.2.id) then none else s.manager.running? segment := by
  induction gone generalizing s with
  | nil => simp
  | cons e rest ih =>
      rw [evictAll_cons, ih, running?_evict]
      simp only [List.map_cons, List.mem_cons]
      grind

theorem tracked?_evictAll (c : CollectionId) :
    (s.evictAll gone).manager.tracked? c =
      if c ∈ gone.map (·.1) then none else s.manager.tracked? c := by
  induction gone generalizing s with
  | nil => simp
  | cons e rest ih =>
      obtain ⟨counters, hmanager⟩ := manager_evict e.1 e.2 s
      have hstep : (s.evict e.1 e.2).manager.tracked? c =
          if c = e.1 then none else s.manager.tracked? c := by
        rw [hmanager]
        unfold Manager.tracked?
        cases s.manager.openIndexes with
        | none => simp
        | some o => exact RecencyCache.peek?_drop o.tracked e.1 c
      rw [evictAll_cons, ih, hstep]
      simp only [List.map_cons, List.mem_cons]
      grind

theorem records_evictAll (scope : Scope) :
    (s.evictAll gone).manager.records scope = s.manager.records scope := by
  induction gone generalizing s with
  | nil => rfl
  | cons e rest ih =>
      obtain ⟨counters, hmanager⟩ := manager_evict e.1 e.2 s
      rw [evictAll_cons, ih, hmanager]
      cases scope <;> rfl

theorem sameSetup_evictAll : Manager.SameSetup s.manager (s.evictAll gone).manager := by
  induction gone generalizing s with
  | nil => exact .refl s.manager
  | cons e rest ih =>
      obtain ⟨counters, hmanager⟩ := manager_evict e.1 e.2 s
      have hrest := ih (s.evict e.1 e.2)
      rw [hmanager] at hrest
      exact ⟨hrest.deployment, hrest.kinds, hrest.limits⟩

variable {s} in
theorem wellFormed_evictAll (hs : s.manager.WellFormed) : (s.evictAll gone).manager.WellFormed := by
  induction gone generalizing s with
  | nil => exact hs
  | cons e rest ih =>
      obtain ⟨counters, hmanager⟩ := manager_evict e.1 e.2 s
      apply ih
      rw [hmanager]
      refine ⟨Table.distinct_erase hs.instances e.2.id, hs.records, ?_⟩
      intro o ho
      obtain ⟨before, hbefore, rfl⟩ := Option.map_eq_some_iff.mp ho
      exact RecencyCache.wellFormed_drop (hs.openIndexes before hbefore) e.1

end EvictAll

section Remember

variable (r : Record) (k : Capability) (s : System W)

theorem catalog_remember : (s.remember r k.scope).catalog = s.catalog := by
  rw [remember_eq, catalog_evictAll]
  rfl

theorem sameSetup_remember :
    Manager.SameSetup s.manager (s.remember r k.scope).manager := by
  have hsetup := sameSetup_evictAll (s.displaced r k.scope) (s.caching r k.scope)
  have hcaching : Manager.SameSetup s.manager (s.caching r k.scope).manager :=
    .withRecords s.manager k (RecordCache.limit?_insert _ r.collection r (s.footprint r))
  exact hcaching.trans hsetup

theorem running?_remember (segment : SegmentId) :
    (s.remember r k.scope).manager.running? segment =
      if segment ∈ (s.displaced r k.scope).map (·.2.id) then none
      else s.manager.running? segment := by
  rw [remember_eq, running?_evictAll]
  simp only [caching, Manager.running?, Manager.instances_withRecords]

variable {r k s} in
theorem running?_of_remember {segment : SegmentId} {i : Instance}
    (hrunning : (s.remember r k.scope).manager.running? segment = some i) :
    s.manager.running? segment = some i ∧
      segment ∉ (s.displaced r k.scope).map (·.2.id) := by
  rw [running?_remember] at hrunning
  split at hrunning
  · cases hrunning
  · rename_i hstays
    exact ⟨hrunning, hstays⟩

theorem tracked?_remember (c : CollectionId) :
    (s.remember r k.scope).manager.tracked? c =
      if c ∈ (s.displaced r k.scope).map (·.1) then none else s.manager.tracked? c := by
  rw [remember_eq, tracked?_evictAll]
  simp only [caching, Manager.tracked?, Manager.openIndexes_withRecords]

variable {s}

theorem cached?_remember (hs : s.manager.WellFormed) (j : Capability) (c : CollectionId) :
    (s.remember r k.scope).manager.cached? j c =
      if j = k then
        if c = r.collection then some r
        else if c ∈ (s.displaced r k.scope).map (·.1) then none else s.manager.cached? k c
      else s.manager.cached? j c := by
  have hinsert := RecordCache.peek?_insert (hs.records k) r.collection r (s.footprint r) c
  unfold Manager.cached?
  rw [remember_eq, records_evictAll]
  exact (Manager.cached?_withRecords s.manager k j _ c).trans (by rw [hinsert]; rfl)

theorem mem_displaced (hs : s.manager.WellFormed) {e : CollectionId × Record}
    (hmem : e ∈ s.displaced r k.scope) :
    e.1 ≠ r.collection ∧ s.manager.cached? k e.1 = some e.2 :=
  RecordCache.peek?_of_mem_evicted (hs.records k) hmem

theorem wellFormed_remember (hs : s.manager.WellFormed) :
    (s.remember r k.scope).manager.WellFormed :=
  wellFormed_evictAll _
    (hs.withRecords k (RecordCache.wellFormed_insert (hs.records k) r.collection r _))

end Remember

/-! ## Tracking -/

inductive Tracks (c : CollectionId) (i : Instance) (s : System W) :
    Except Fault Unit → System W → Prop
  | skipped : Tracks c i s (.ok ()) s
  | refused {fault : Fault} (hpersistent : i.views.persistentIndex = true)
      (hperform : (s.site.perform .openIndex i).1 = .error fault) :
      Tracks c i s (.error fault) (s.perform .openIndex i).2
  | tracked {o : OpenIndexes} {undersized : Nat} {counters : Counters}
      (hbefore : s.manager.openIndexes = some o) (hpersistent : i.views.persistentIndex = true)
      (hperform : (s.site.perform .openIndex i).1 = .ok ()) :
      Tracks c i s (.ok ()) { s with
        manager := { s.manager with
          openIndexes := some { o with tracked := (o.tracked.insert c i 1).2, undersized }
          counters }
        site := OpenIndexes.closeAll ((o.tracked.insert c i 1).1.map (·.2))
          (s.site.perform .openIndex i).2 }

theorem tracks_trackIndex (c : CollectionId) (i : Instance) (s : System W) :
    Tracks c i s (s.trackIndex c i).1 (s.trackIndex c i).2 := by
  unfold trackIndex
  cases hbefore : s.manager.openIndexes with
  | none => exact .skipped
  | some o =>
      simp only
      by_cases hpersistent : i.views.persistentIndex = true
      · rw [if_pos hpersistent]
        unfold OpenIndexes.track
        rw [if_pos hpersistent]
        cases hperform : s.site.perform .openIndex i with
        | mk outcome site =>
            cases outcome with
            | error fault =>
                have hsame : s.manager = { s.manager with openIndexes := some o } := by
                  rw [← hbefore]
                have hrefused : Tracks c i s (.error fault) (s.perform .openIndex i).2 :=
                  .refused hpersistent (by rw [hperform])
                unfold perform at hrefused
                rw [hperform] at hrefused
                simp only [← hsame]
                exact hrefused
            | ok done =>
                have hsite : site = (s.site.perform .openIndex i).2 := by rw [hperform]
                subst hsite
                exact .tracked hbefore hpersistent (by rw [hperform])
      · rw [if_neg hpersistent]
        exact .skipped

inductive Warms (c : CollectionId) (s : System W) : Except Fault Unit → System W → Prop
  | remote {workers : Workers} (hdeployment : s.manager.deployment = .distributed workers) :
      Warms c s (.ok ()) s
  | first {settings : Settings} {fault : Fault} {s₁ : System W}
      (hdeployment : s.manager.deployment = .inProcess settings)
      (hfirst : s.getSegment c .metadataReader = (.error fault, s₁)) :
      Warms c s (.error fault) s₁
  | second {settings : Settings} {i : Instance} {fault : Fault} {s₁ s₂ : System W}
      (hdeployment : s.manager.deployment = .inProcess settings)
      (hfirst : s.getSegment c .metadataReader = (.ok i, s₁))
      (hsecond : s₁.getSegment c .vectorReader = (.error fault, s₂)) :
      Warms c s (.error fault) s₂
  | both {settings : Settings} {i j : Instance} {s₁ s₂ : System W}
      (hdeployment : s.manager.deployment = .inProcess settings)
      (hfirst : s.getSegment c .metadataReader = (.ok i, s₁))
      (hsecond : s₁.getSegment c .vectorReader = (.ok j, s₂)) :
      Warms c s (s₂.trackIndex c j).1 (s₂.trackIndex c j).2

theorem warms_hint (c : CollectionId) (operation : Operation) (s : System W) :
    Warms c s (s.hint c operation).1 (s.hint c operation).2 := by
  unfold System.hint
  cases hdeployment : s.manager.deployment with
  | distributed workers => exact .remote hdeployment
  | inProcess settings =>
      simp only
      cases hfirst : s.getSegment c .metadataReader with
      | mk answer s₁ =>
          cases answer with
          | error fault => exact .first hdeployment hfirst
          | ok i =>
              simp only
              cases hsecond : s₁.getSegment c .vectorReader with
              | mk answer s₂ =>
                  cases answer with
                  | error fault => exact .second hdeployment hfirst hsecond
                  | ok j => exact .both hdeployment hfirst hsecond

inductive Hints (c : CollectionId) (s : System W) : Except Fault Unit → System W → Prop
  | remote {workers : Workers} (hdeployment : s.manager.deployment = .distributed workers) :
      Hints c s (.ok ()) s
  | first {fault : Fault} {s₁ : System W}
      (hfirst : Looks c .metadataReader s (.error fault) s₁) : Hints c s (.error fault) s₁
  | second {i : Instance} {fault : Fault} {s₁ s₂ : System W}
      (hfirst : Looks c .metadataReader s (.ok i) s₁)
      (hsecond : Looks c .vectorReader s₁ (.error fault) s₂) : Hints c s (.error fault) s₂
  | both {i j : Instance} {answer : Except Fault Unit} {s₁ s₂ s₃ : System W}
      (hfirst : Looks c .metadataReader s (.ok i) s₁)
      (hsecond : Looks c .vectorReader s₁ (.ok j) s₂) (hlast : Tracks c j s₂ answer s₃) :
      Hints c s answer s₃

theorem Looks.running_of {c : CollectionId} {k : Capability} {s s' : System W}
    {answer : Except Fault Instance} (hlook : Looks c k s answer s') {segment : SegmentId}
    {j : Instance} (hj : s'.manager.running? segment = some j) :
    s.manager.running? segment = some j ∨ s.manager.running? segment = none := by
  cases hlook with
  | cached hcached hrunning =>
      unfold Manager.running? at hj
      rw [instances_consult] at hj
      exact .inl hj
  | failed habsent hload => exact (hload.running_of hj).imp id And.left
  | loaded habsent hload =>
      exact (hload.running_of (running?_of_remember hj).1).imp id And.left

theorem Tracks.instances {c : CollectionId} {i : Instance} {s s' : System W}
    {answer : Except Fault Unit} (htracks : Tracks c i s answer s') :
    s'.manager.instances = s.manager.instances := by
  cases htracks <;> rfl

/-! ## Setups -/

section SameSetup

variable {c : CollectionId} {k : Capability} {i : Instance} {s s' : System W}

omit [Backend W] in
theorem sameSetup_fetching : Manager.SameSetup s.manager (s.fetching c k).manager :=
  have hsetup := sameSetup_consult c k s
  ⟨hsetup.deployment, hsetup.kinds, hsetup.limits⟩

theorem Loads.sameSetup {answer : Except Fault (Record × Instance)}
    (hload : Loads c k s answer s') : Manager.SameSetup s.manager s'.manager := by
  cases hload with
  | refused fault => exact sameSetup_fetching
  | running hadmits hrunning => exact sameSetup_fetching
  | failed hadmits habsent hlaunch => exact sameSetup_fetching
  | launched hadmits habsent hlaunch =>
      have hsetup : Manager.SameSetup s.manager (s.fetching c k).manager := sameSetup_fetching
      exact ⟨hsetup.deployment, hsetup.kinds, hsetup.limits⟩

theorem Looks.sameSetup {answer : Except Fault Instance} (hlook : Looks c k s answer s') :
    Manager.SameSetup s.manager s'.manager := by
  cases hlook with
  | cached hcached hrunning => exact sameSetup_consult c k s
  | failed habsent hload => exact hload.sameSetup
  | loaded habsent hload => exact hload.sameSetup.trans (sameSetup_remember _ k _)

theorem Tracks.sameSetup {answer : Except Fault Unit} (htracks : Tracks c i s answer s') :
    Manager.SameSetup s.manager s'.manager := by
  cases htracks <;> exact ⟨rfl, rfl, fun _ => rfl⟩

theorem Hints.sameSetup {answer : Except Fault Unit} (hhints : Hints c s answer s') :
    Manager.SameSetup s.manager s'.manager := by
  cases hhints with
  | remote hdeployment => exact .refl s.manager
  | first hfirst => exact hfirst.sameSetup
  | second hfirst hsecond => exact hfirst.sameSetup.trans hsecond.sameSetup
  | both hfirst hsecond hlast =>
      exact (hfirst.sameSetup.trans hsecond.sameSetup).trans hlast.sameSetup

end SameSetup

end SegmentManager.System
