import SegmentManager.Proofs.System.Credit
import SegmentManager.Proofs.System.Since

/-!
# Resetting gives back a fresh manager

A reset stops what runs, each instance once, and leaves a manager that differs from
one just set up in nothing but what it has counted.  Since nothing depends on that,
everything from then on goes as with the manager just set up, down to the records
that are evicted and the indexes that are closed.
-/

namespace SegmentManager

open Simulation

/-! ## Setting up again -/

namespace Deployment

def setUp (d : Deployment) (g : Registry) : Except Fault Manager :=
  match d with
  | inProcess settings => Manager.inProcess settings g
  | distributed workers => .ok (.distributed workers g)

def regrouped (d : Deployment) (members : List String) : Deployment :=
  match d with
  | inProcess settings => inProcess settings
  | distributed workers => distributed { workers with members }

theorem regrouped_regrouped (d : Deployment) (members others : List String) :
    (d.regrouped members).regrouped others = d.regrouped others := by
  cases d <;> rfl

theorem exists_regrouped_eq (d : Deployment) : ∃ members, d.regrouped members = d := by
  cases d with
  | inProcess settings => exact ⟨[], rfl⟩
  | distributed workers => exact ⟨workers.members, rfl⟩

end Deployment

namespace OpenIndexes

def renewed (o : OpenIndexes) : OpenIndexes := { o.clear with undersized := 0 }

theorem renewed_without (o : OpenIndexes) (c : CollectionId) :
    (o.without c).renewed = o.renewed := by
  have hcapacity : (o.tracked.drop c).capacity = o.tracked.capacity := o.tracked.capacity_drop c
  simp only [renewed, clear, without, pop, RecencyCache.remove, RecencyCache.clear, hcapacity]

end OpenIndexes

namespace RecordCache

theorem clear_touch (cache : RecordCache) (c : CollectionId) :
    (cache.touch c).2.clear = cache.clear := by
  cases cache with
  | unbounded records => rfl
  | bounded records =>
      have hcapacity := records.capacity_touch c
      simp only [touch, clear, RecencyCache.clear, hcapacity]

theorem clear_insert (cache : RecordCache) (c : CollectionId) (r : Record) (size : Nat) :
    (cache.insert c r size).2.clear = cache.clear := by
  cases cache <;> rfl

theorem clear_without (cache : RecordCache) (c : CollectionId) :
    (cache.without c).clear = cache.clear := by
  cases cache with
  | unbounded records => rfl
  | bounded records =>
      have hcapacity := records.capacity_drop c
      simp only [without, remove, RecencyCache.remove, clear, RecencyCache.clear, hcapacity]

end RecordCache

namespace Manager

def renewed (m : Manager) : Manager :=
  { m with
    instances := .empty
    vectorRecords := m.vectorRecords.clear
    metadataRecords := m.metadataRecords.clear
    openIndexes := m.openIndexes.map (·.renewed)
    counters := {} }

def undersized (m : Manager) : Nat := (m.openIndexes.map (·.undersized)).getD 0

theorem renewed_renewed (m : Manager) : m.renewed.renewed = m.renewed := by
  have hclear : ∀ cache : RecordCache, cache.clear.clear = cache.clear := by
    rintro (records | records) <;> rfl
  simp only [renewed, hclear]
  cases m.openIndexes <;> rfl

theorem renewed_credited (m : Manager) (extra : Counters) (n : Nat) :
    (m.credited extra n).renewed = m.renewed := by
  simp only [renewed, credited]
  cases m.openIndexes <;> rfl

theorem credited_renewed (m : Manager) :
    m.renewed.credited m.counters m.undersized =
      { m with
        instances := .empty
        vectorRecords := m.vectorRecords.clear
        metadataRecords := m.metadataRecords.clear
        openIndexes := m.openIndexes.map (·.clear) } := by
  simp only [renewed, credited, Counters.zero_add, undersized]
  cases m.openIndexes with
  | none => rfl
  | some o => simp [OpenIndexes.renewed, OpenIndexes.credited, OpenIndexes.clear]

theorem renewed_withRecords (m : Manager) (scope : Scope) {cache : RecordCache}
    (hclear : cache.clear = (m.records scope).clear) :
    (m.withRecords scope cache).renewed = m.renewed := by
  cases scope <;> simp only [withRecords, renewed, hclear] <;> rfl

theorem renewed_withMembers (m : Manager) (members : List String) :
    (m.withMembers members).renewed = m.renewed.withMembers members := by
  cases hdeployment : m.deployment with
  | inProcess settings =>
      have hrenewed : m.renewed.deployment = .inProcess settings := hdeployment
      rw [withMembers_of_inProcess hdeployment, withMembers_of_inProcess hrenewed]
  | distributed workers => simp [withMembers, renewed, hdeployment]

theorem deployment_withMembers (m : Manager) (members : List String) :
    (m.withMembers members).deployment = m.deployment.regrouped members := by
  cases hdeployment : m.deployment with
  | inProcess settings =>
      rw [withMembers_of_inProcess hdeployment, hdeployment]
      rfl
  | distributed workers => simp [withMembers, hdeployment, Deployment.regrouped]

theorem fresh_of_setUp {d : Deployment} {g : Registry} {m : Manager} (hm : d.setUp g = .ok m) :
    m.Fresh := by
  cases d with
  | inProcess settings => exact .inProcess hm
  | distributed workers =>
      obtain rfl := Except.ok.inj hm
      exact .distributed workers g

/-- A manager can be set up as this one was, and would be this one without all that it
holds. -/
def Renewable (g : Registry) (m : Manager) : Prop := m.deployment.setUp g = .ok m.renewed

theorem renewable_of_setUp {d : Deployment} {g : Registry} {m : Manager}
    (hm : d.setUp g = .ok m) : m.deployment = d ∧ m.Renewable g := by
  cases d with
  | distributed workers =>
      obtain rfl : m = .distributed workers g := (Except.ok.inj hm).symm
      exact ⟨rfl, rfl⟩
  | inProcess settings =>
      obtain ⟨openIndexes, rfl, -, hindexes⟩ := inProcess_eq_ok hm
      refine ⟨rfl, hm.trans (congrArg Except.ok ?_)⟩
      have hrenewed : openIndexes.map (·.renewed) = openIndexes := by
        cases hopen : openIndexes with
        | none => rfl
        | some o =>
            obtain ⟨rfl, -⟩ := OpenIndexes.ofLimits_eq_ok (hindexes o hopen)
            rfl
      simp only [renewed, hrenewed]
      split <;> rfl

theorem Renewable.withMembers {g : Registry} {m : Manager} (hm : m.Renewable g)
    (members : List String) : (m.withMembers members).Renewable g := by
  cases hdeployment : m.deployment with
  | inProcess settings => rwa [withMembers_of_inProcess hdeployment]
  | distributed workers =>
      unfold Renewable at hm ⊢
      rw [hdeployment] at hm
      rw [renewed_withMembers, ← Except.ok.inj hm, deployment_withMembers, hdeployment]
      rfl

end Manager

namespace Site

variable {W : Type} [Backend W]

def outcomes (action : Action) : List Instance → Site W → List (Instance × Except Fault Unit)
  | [], _ => []
  | i :: rest, site =>
      (i, (site.perform action i).1) :: outcomes action rest (site.perform action i).2

theorem map_fst_outcomes (action : Action) (targets : List Instance) (site : Site W) :
    (outcomes action targets site).map (·.1) = targets := by
  induction targets generalizing site with
  | nil => rfl
  | cons i rest ih => simp [outcomes, ih]

theorem asks_eq_outcomes (action : Action) (targets : List Instance) (site : Site W) :
    asks action targets site =
      (outcomes action targets site).map fun o => .act action o.1 o.2.isOk := by
  induction targets generalizing site with
  | nil => rfl
  | cons i rest ih => simp [asks, outcomes, ih]

theorem performAll_eq_ok_iff (action : Action) (targets : List Instance) (site : Site W) :
    (site.performAll action targets).1 = .ok () ↔
      ∀ o ∈ outcomes action targets site, o.2 = .ok () := by
  induction targets generalizing site with
  | nil => simp [outcomes]
  | cons i rest ih => simp [performAll_cons_ok_iff, outcomes, ih]

theorem mem_outcomes_of_performAll {action : Action} {targets : List Instance} {site : Site W}
    {fault : Fault} (hfault : (site.performAll action targets).1 = .error fault) :
    ∃ i, (i, .error fault) ∈ outcomes action targets site := by
  induction targets generalizing site with
  | nil => cases hfault
  | cons i rest ih =>
      rw [performAll_cons] at hfault
      cases hfirst : (site.perform action i).1 with
      | error first =>
          rw [hfirst] at hfault
          have hsame : first = fault := Except.error.inj hfault
          exact ⟨i, by simp [outcomes, hfirst, hsame]⟩
      | ok done =>
          rw [hfirst] at hfault
          obtain ⟨j, hj⟩ := ih hfault
          exact ⟨j, List.mem_cons_of_mem _ hj⟩

end Site

namespace System

variable {W : Type} [Backend W] {g : Registry} {s : System W}

/-! ## Nothing else is changed by a step -/

section Renewed

variable (c : CollectionId) (r : Record) (scope : Scope) (s : System W)

omit [Backend W] in
theorem renewed_consult : (s.consult c scope).2.manager.renewed = s.manager.renewed :=
  s.manager.renewed_withRecords scope (RecordCache.clear_touch _ c)

omit [Backend W] in
theorem renewed_fetch : (s.fetch c scope).2.manager.renewed = s.manager.renewed := by
  rw [fetch_snd]
  rfl

omit [Backend W] in
theorem renewed_forget : (s.forget c scope).manager.renewed = s.manager.renewed :=
  s.manager.renewed_withRecords scope (RecordCache.clear_without _ c)

theorem renewed_acquire : (s.acquire r).2.manager.renewed = s.manager.renewed := by
  have hacquires := acquires_acquire r s
  generalize (s.acquire r).1 = answer, (s.acquire r).2 = s' at hacquires ⊢
  cases hacquires <;> rfl

omit [Backend W] in
theorem renewed_map_without (indexes : Option OpenIndexes) :
    (indexes.map (·.without c)).map (·.renewed) = indexes.map (·.renewed) := by
  cases indexes with
  | none => rfl
  | some o => exact congrArg some (o.renewed_without c)

theorem renewed_evict : (s.evict c r).manager.renewed = s.manager.renewed := by
  obtain ⟨counters, hmanager⟩ := manager_evict c r s
  rw [hmanager]
  simp only [Manager.renewed, renewed_map_without]

theorem renewed_evictAll (gone : List (CollectionId × Record)) :
    (s.evictAll gone).manager.renewed = s.manager.renewed := by
  induction gone generalizing s with
  | nil => rfl
  | cons e rest ih => rw [evictAll_cons, ih, renewed_evict]

theorem renewed_remember : (s.remember r scope).manager.renewed = s.manager.renewed := by
  rw [remember_eq, renewed_evictAll]
  exact s.manager.renewed_withRecords scope (RecordCache.clear_insert _ _ r _)

theorem renewed_getSegment (k : Capability) :
    (s.getSegment c k).2.manager.renewed = s.manager.renewed := by
  have hconsult := renewed_consult c k.scope s
  simp only [getSegment]
  generalize s.consult c k.scope = consulted at hconsult ⊢
  obtain ⟨found, s₁⟩ := consulted
  rw [← hconsult]
  cases found with
  | some r =>
      have hacquire := renewed_acquire r s₁
      simp only
      generalize s₁.acquire r = acquired at hacquire ⊢
      obtain ⟨answer, s₂⟩ := acquired
      rw [← hacquire]
      cases answer with
      | ok i => rfl
      | error fault => exact renewed_forget r.collection k.scope s₂
  | none =>
      have hfetch := renewed_fetch c k.scope s₁
      simp only
      generalize s₁.fetch c k.scope = fetched at hfetch ⊢
      obtain ⟨answer, s₂⟩ := fetched
      rw [← hfetch]
      cases answer with
      | error fault => rfl
      | ok r =>
          have hacquire := renewed_acquire r s₂
          simp only
          generalize s₂.acquire r = acquired at hacquire ⊢
          obtain ⟨answer, s₃⟩ := acquired
          rw [← hacquire]
          cases answer with
          | ok i => exact renewed_remember r k.scope s₃
          | error fault => rfl

theorem renewed_trackIndex (i : Instance) :
    (s.trackIndex c i).2.manager.renewed = s.manager.renewed := by
  have htracks := tracks_trackIndex c i s
  generalize (s.trackIndex c i).1 = answer, (s.trackIndex c i).2 = s' at htracks ⊢
  cases htracks with
  | skipped => rfl
  | refused hpersistent hperform => rfl
  | tracked hbefore hpersistent hperform =>
      simp only [Manager.renewed, hbefore]
      rfl

theorem renewed_hint (operation : Operation) :
    (s.hint c operation).2.manager.renewed = s.manager.renewed := by
  have hwarms := warms_hint c operation s
  generalize (s.hint c operation).1 = answer, (s.hint c operation).2 = s' at hwarms ⊢
  have hlook := renewed_getSegment c s .metadataReader
  cases hwarms with
  | remote hdeployment => rfl
  | first hdeployment hfirst => rwa [hfirst] at hlook
  | second hdeployment hfirst hsecond =>
      rename_i s₁
      have hlook' := renewed_getSegment c s₁ .vectorReader
      rw [hfirst] at hlook
      rw [hsecond] at hlook'
      exact hlook'.trans hlook
  | both hdeployment hfirst hsecond =>
      rename_i j s₁ s₂
      have hlook' := renewed_getSegment c s₁ .vectorReader
      rw [hfirst] at hlook
      rw [hsecond] at hlook'
      exact ((renewed_trackIndex c s₂ j).trans hlook').trans hlook

variable {s} in
theorem Walks.renewed {action : Action} {visited : List SegmentId} {s' : System W}
    (h : Walks action visited s s') : s'.manager.renewed = s.manager.renewed := by
  obtain ⟨asked, counted, hdown, -⟩ := h
  have hcaches := hdown.caches
  simp only [Manager.renewed, hcaches.deployment, hcaches.kinds, hcaches.vectorRecords,
    hcaches.metadataRecords, hcaches.openIndexes]

theorem renewed_deleteEach (segments : List SegmentId) :
    (deleteEach segments s).2.manager.renewed = s.manager.renewed := by
  have hwalks := walks_deleteEach segments s
  generalize deleteEach segments s = deleted at hwalks ⊢
  obtain ⟨⟨completed, failure⟩, next⟩ := deleted
  cases failure with
  | none => exact Walks.renewed hwalks
  | some broken =>
      obtain ⟨before, after, -, hwalks⟩ := hwalks
      exact hwalks.renewed

omit [Backend W] in
theorem renewed_forgetAll : (s.forgetAll c).manager.renewed = s.manager.renewed := by
  have huntrack : ∀ s : System W, (s.untrack c).manager.renewed = s.manager.renewed := by
    intro s
    simp only [untrack, Manager.renewed, renewed_map_without]
  unfold forgetAll
  rw [huntrack, renewed_forget, renewed_forget]

theorem renewed_deleteSegments :
    (s.deleteSegments c).2.manager.renewed = s.manager.renewed := by
  have hlisting : (s.listing c).manager.renewed = s.manager.renewed := rfl
  have hdisposes := disposes_deleteSegments c s
  generalize (s.deleteSegments c).1 = answer, (s.deleteSegments c).2 = s' at hdisposes ⊢
  rw [← hlisting]
  cases hdisposes with
  | refused hrefusal => rfl
  | released hrows hdeployment => rw [renewed_forgetAll, (walks_releaseEach _ _).renewed]
  | completed hrows hdeployment hend | broken hrows hdeployment hend =>
      rename_i rows last
      have hdeleted := renewed_deleteEach (s.listing c) (rows.map (·.id))
      rw [hend] at hdeleted
      rw [renewed_forgetAll, ← hdeleted]

end Renewed

/-! ## Histories -/

theorem manager_reset (order : List SegmentId) (s : System W) :
    (s.reset order).2.manager =
      s.manager.renewed.credited s.manager.counters s.manager.undersized :=
  s.manager.credited_renewed.symm

theorem renewed_handle (q : Request) (s : System W) :
    (s.handle q).2.manager.renewed = s.manager.renewed := by
  cases q with
  | get c k => exact renewed_getSegment c s k
  | getNamed c name =>
      change (s.getSegmentNamed c name).2.manager.renewed = _
      unfold getSegmentNamed
      cases Capability.ofName? name with
      | none => rfl
      | some k => exact renewed_getSegment c s k
  | hint c operation => exact renewed_hint c s operation
  | delete c => exact renewed_deleteSegments c s
  | start order | stop order => rfl
  | reset order =>
      change (s.reset order).2.manager.renewed = s.manager.renewed
      rw [manager_reset, Manager.renewed_credited, Manager.renewed_renewed]

theorem deployment_handle (q : Request) (s : System W) :
    (s.handle q).2.manager.deployment = s.manager.deployment := by
  have hrenewed : (s.handle q).2.manager.renewed.deployment = s.manager.renewed.deployment := by
    rw [renewed_handle]
  exact hrenewed

/-- Whatever happens, a manager of this kind could be set up now, and only members come
and go. -/
theorem renewable_after {d : Deployment} (e : Event W)
    (hs : s.manager.Renewable g ∧ ∃ members, s.manager.deployment = d.regrouped members) :
    (s.after e).manager.Renewable g ∧
      ∃ members, (s.after e).manager.deployment = d.regrouped members := by
  obtain ⟨hrenewable, members, hdeployment⟩ := hs
  cases e with
  | request q =>
      change (s.handle q).2.manager.Renewable g ∧
        ∃ members, (s.handle q).2.manager.deployment = _
      unfold Manager.Renewable
      rw [deployment_handle, renewed_handle]
      exact ⟨hrenewable, members, hdeployment⟩
  | regroup others =>
      refine ⟨hrenewable.withMembers others, others, ?_⟩
      exact (s.manager.deployment_withMembers others).trans
        ((congrArg (·.regrouped others) hdeployment).trans (d.regrouped_regrouped members others))
  | enter | withdraw | refuse | elapse => exact ⟨hrenewable, members, hdeployment⟩

theorem renewable_replay {d : Deployment} {m : Manager} (hm : d.setUp g = .ok m) (w : W)
    (events : List (Event W)) :
    let s := (initial m w).replay events
    s.manager.Renewable g ∧ ∃ members, s.manager.deployment = d.regrouped members := by
  obtain ⟨hdeployment, hrenewable⟩ := Manager.renewable_of_setUp hm
  obtain ⟨members, hmembers⟩ := d.exists_regrouped_eq
  refine replay_induction (P := fun _ s => s.manager.Renewable g ∧
    ∃ members, s.manager.deployment = d.regrouped members) ?_ ?_ events
  · exact ⟨hrenewable, members, hdeployment.trans hmembers.symm⟩
  · exact fun _ e hs => renewable_after e hs

/-- After any history a reset stops each registered instance once, in whatever order and
whatever fails, and calls nobody else.  It succeeds if all of them stop, and reports the failure of one of
them if not.  Then nothing is registered, cached or tracked any more.  From then on
everything goes as with a manager that is set up in the same way on the same catalog
and site: requests are answered alike at every point, the same calls are made, all of
them on instances made since, and both managers are the same but for what the first
had counted before. -/
theorem reset_gives_back_a_fresh_manager {d : Deployment} {g : Registry} {m : Manager}
    (hm : d.setUp g = .ok m) (w : W) (events : List (Event W)) (order : List SegmentId) :
    let s := (initial m w).replay events
    let running := s.manager.instances.visited order
    let stops := Site.outcomes .stop running s.site
    let s' := (s.reset order).2
    (running.Nodup ∧ ∀ i, i ∈ running ↔ ∃ segment, s.manager.running? segment = some i) ∧
    (stops.map (·.1) = running ∧
      s'.site.journal = (stops.map fun o => Call.act .stop o.1 o.2.isOk).reverse ++ s.site.journal) ∧
    (((s.reset order).1 = .ok () ↔ ∀ o ∈ stops, o.2 = .ok ()) ∧
      ∀ fault, (s.reset order).1 = .error fault → ∃ i, (i, .error fault) ∈ stops) ∧
    (s'.manager.instances = .empty ∧ s'.manager.vectorRecords.collections = [] ∧
      s'.manager.metadataRecords.collections = [] ∧
      ∀ o, s'.manager.openIndexes = some o → o.collections = []) ∧
    ∃ members m', s.manager.deployment = d.regrouped members ∧
      (d.regrouped members).setUp g = .ok m' ∧
      ∀ later : List (Event W),
        let fresh : System W := ⟨m', s'.catalog, s'.site⟩
        (∀ q, ((s'.replay later).handle q).1 = ((fresh.replay later).handle q).1) ∧
        s'.replay later =
          (fresh.replay later).credited s.manager.counters s.manager.undersized ∧
        ∃ made, (s'.replay later).site.journal = made ++ s'.site.journal ∧
          ∀ action i ok, Call.act action i ok ∈ made → s'.site.built ≤ i.serial := by
  intro s running stops s'
  have hsince : Since 0 [] s := (since_initial (Manager.fresh_of_setUp hm) w).replay events
  obtain ⟨hrenewable, members, hdeployment⟩ := renewable_replay hm w events
  have hfresh : s' = credited s.manager.counters s.manager.undersized
      ⟨s.manager.renewed, s'.catalog, s'.site⟩ :=
    congrArg (fun m => (⟨m, s'.catalog, s'.site⟩ : System W)) (manager_reset order s)
  refine ⟨⟨hsince.nodup_visited order, fun i => hsince.mem_visited_iff order⟩,
    ⟨Site.map_fst_outcomes .stop running s.site, ?_⟩,
    ⟨Site.performAll_eq_ok_iff .stop running s.site, fun fault => Site.mem_outcomes_of_performAll⟩,
    ⟨rfl, ?_, ?_, ?_⟩, members, s.manager.renewed, hdeployment, ?_, ?_⟩
  · rw [← Site.asks_eq_outcomes]
    exact Site.journal_performAll .stop running s.site
  · change s.manager.vectorRecords.clear.collections = []
    cases s.manager.vectorRecords <;> rfl
  · change s.manager.metadataRecords.clear.collections = []
    cases s.manager.metadataRecords <;> rfl
  · intro o ho
    obtain ⟨before, -, rfl⟩ := Option.map_eq_some_iff.mp ho
    rfl
  · rw [← hdeployment]
    exact hrenewable
  · intro later fresh
    have hreplay : s'.replay later =
        (fresh.replay later).credited s.manager.counters s.manager.undersized := by
      rw [hfresh, replay_credited]
    refine ⟨?_, hreplay, ?_⟩
    · intro q
      rw [hreplay, handle_credited]
    · have hempty : Since s'.site.built s'.site.journal s' := by
        refine .of_empty rfl ?_
        intro o ho
        obtain ⟨before, -, rfl⟩ := Option.map_eq_some_iff.mp ho
        rfl
      exact (hempty.replay later).calls

def wornOut : List (Event World) :=
  crowded ++ [.elapse fun w => w.fail ⟨.act .stop, some (numberedSegment 1 .vector)⟩]

def usedAgain : List (Event World) :=
  [.request (.hint (numberedCollection 0).id .add), .request (.hint (numberedCollection 1).id .add)]

def lastFirst : List SegmentId := [numberedSegment 1 .vector]

/-- Were the memory budget not cleared, the second use would evict twice. -/
theorem worn_out_manager_is_renewed :
    ∃ m, (Deployment.inProcess crowdedSettings).setUp keeperRegistry = .ok m ∧
      let s := (initial m keeperWorld).replay wornOut
      let s' := (s.reset lastFirst).2
      let fresh : System World := ⟨m, s'.catalog, s'.site⟩
      s.manager.runningInstances = 3 ∧ s.manager.counters.memoryEvictions = 1 ∧
      (s.reset lastFirst).1 ≠ .ok () ∧
      (fresh.replay usedAgain).manager.counters.memoryEvictions = 1 ∧
      (s'.replay usedAgain).manager.counters =
        (fresh.replay usedAgain).manager.counters + s.manager.counters := by
  have hran : ∀ m, (Deployment.inProcess crowdedSettings).setUp keeperRegistry = .ok m →
      let s := (initial m keeperWorld).replay wornOut
      let s' := (s.reset lastFirst).2
      s.manager.runningInstances = 3 ∧ s.manager.counters.memoryEvictions = 1 ∧
      (s.reset lastFirst).1 ≠ .ok () ∧
      ((⟨m, s'.catalog, s'.site⟩ : System World).replay usedAgain).manager.counters.memoryEvictions =
        1 := by
    rintro m ⟨⟩
    decide +kernel
  obtain ⟨m, hm⟩ : ∃ m, (Deployment.inProcess crowdedSettings).setUp keeperRegistry = .ok m :=
    ⟨_, rfl⟩
  obtain ⟨hrunning, hevictions, hfails, hlater⟩ := hran m hm
  obtain ⟨-, -, -, -, members, m', -, hm', hsame⟩ :=
    reset_gives_back_a_fresh_manager hm keeperWorld wornOut lastFirst
  obtain rfl : m = m' := Except.ok.inj (hm.symm.trans hm')
  obtain ⟨-, hreplay, -⟩ := hsame usedAgain
  refine ⟨m, hm, hrunning, hevictions, hfails, hlater, ?_⟩
  simp only [hreplay]
  rfl

end System

end SegmentManager
