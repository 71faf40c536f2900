import SegmentManager.Proofs.System.Accesses
import SegmentManager.Proofs.System.Alterations
import SegmentManager.Proofs.System.Coherence

/-!
# Rows of unknown kinds

A catalog may hold rows of kinds that a manager does not know.  They are never
selected, nothing runs for them, and a deletion passes them over.  With such rows
left out of the catalog a manager does the same, except that a deletion does not
name them.
-/

namespace SegmentManager

open Simulation

namespace Registry

def vetted (g : Registry) (rows : List Record) : List Record := rows.filter fun r => g.knows r.kind

def strangers (g : Registry) (rows : List Record) : List SegmentId :=
  (rows.filter fun r => !g.knows r.kind).map (·.id)

theorem ids_vetted (g : Registry) {created rows : List Record}
    (hids : (created.map (·.id)).Nodup) (hrows : ∀ row ∈ rows, row ∈ created) :
    (g.vetted rows).map (·.id) =
      (rows.map (·.id)).filter fun segment => segment ∉ g.strangers created := by
  rw [List.filter_map]
  refine congrArg (List.map _) (List.filter_congr ?_)
  intro row hrow
  have hstranger : row.id ∈ g.strangers created ↔ g.knows row.kind = false := by
    constructor
    · intro hmem
      obtain ⟨other, hother, hid⟩ := List.mem_map.mp hmem
      obtain ⟨hcreated, hunknown⟩ := List.mem_filter.mp hother
      rw [← List.inj_on_of_nodup_map hids hcreated (hrows row hrow) hid]
      simpa using hunknown
    · intro hunknown
      exact List.mem_map.mpr ⟨row, List.mem_filter.mpr ⟨hrows row hrow, by simp [hunknown]⟩, rfl⟩
  by_cases hknown : g.knows row.kind = true <;> simp [hstranger, hknown]

theorem selectKnown_vetted (g : Registry) (rows : List Record) (c : CollectionId)
    (scope : Scope) : g.selectKnown (g.vetted rows) c scope = g.selectKnown rows c scope := by
  have hfind : (g.vetted rows).find? (fun r => r.scope = scope ∧ g.knows r.kind) =
      rows.find? fun r => r.scope = scope ∧ g.knows r.kind := by
    unfold vetted
    rw [List.find?_filter]
    congr 1
    funext r
    by_cases hknown : g.knows r.kind = true <;> simp [hknown]
  unfold selectKnown
  rw [hfind]

end Registry

def Catalog.vetted (g : Registry) (k : Catalog) : Catalog := { k with rows := g.vetted k.rows }

theorem Catalog.read_vetted (g : Registry) (k : Catalog) (c : CollectionId)
    (scope : Option Scope) : (k.vetted g).read c scope =
      ((k.read c scope).1.map g.vetted, (k.read c scope).2.vetted g) := by
  unfold read vetted
  cases hrefusal : k.refusal with
  | some text => simp only [hrefusal, Except.map]
  | none =>
      cases hfilter : k.filtering with
      | false => simp [Except.map]
      | true =>
          simp only [if_true, Except.map, Registry.vetted, List.filter_filter, Bool.and_comm]

def Reply.without (segments : List SegmentId) : Reply → Reply
  | deleted named => deleted (named.filter (· ∉ segments))
  | r => r

namespace Event

variable {W : Type}

def vetted (g : Registry) : Event W → Event W
  | enter rows => enter (g.vetted rows)
  | e => e

end Event

namespace System

variable {W : Type}

def vetted (g : Registry) (s : System W) : System W := { s with catalog := s.catalog.vetted g }

theorem unnoticed_vetted (g : Registry) : Unnoticed (vetted g : System W → System W) where
  kinds _ := rfl
  root _ := rfl
  instances _ := rfl
  openIndexes _ := rfl
  counters _ := rfl
  site _ := rfl
  refit _ _ _ _ _ := rfl

variable {g : Registry} {s s' : System W} {c : CollectionId} {k : Capability}

/-! ## Lookups -/

theorem readCatalog_vetted (g : Registry) (c : CollectionId) (scope : Option Scope)
    (s : System W) : (s.vetted g).readCatalog c scope =
      ((s.readCatalog c scope).1.map g.vetted, (s.readCatalog c scope).2.vetted g) := by
  have hread : (s.vetted g).catalog.read c scope = _ := s.catalog.read_vetted g c scope
  simp only [readCatalog, hread]
  rfl

theorem fetch_vetted (hkinds : s.manager.kinds = g) (c : CollectionId) (scope : Scope) :
    (s.vetted g).fetch c scope =
      ((s.fetch c scope).1, (s.fetch c scope).2.vetted g) := by
  have hknown : (s.readCatalog c (some scope)).2.manager.kinds = g := hkinds
  unfold fetch
  rw [readCatalog_vetted]
  cases hread : s.readCatalog c (some scope) with
  | mk answer next =>
      rw [hread] at hknown
      cases answer with
      | error fault => rfl
      | ok rows =>
          have hselect := g.selectKnown_vetted rows c scope
          rw [← hknown] at hselect
          simp only [Except.map]
          change (Except.bind (next.manager.kinds.selectKnown _ c scope) _, _) = _
          rw [← hknown, hselect]
          rfl

variable [Backend W]

theorem load_vetted (hkinds : s.manager.kinds = g) (c : CollectionId) (k : Capability) :
    (s.vetted g).load c k = ((s.load c k).1, (s.load c k).2.vetted g) := by
  have hconsult : ((s.vetted g).consult c k.scope).2 = (s.consult c k.scope).2.vetted g := rfl
  have hfetch := fetch_vetted ((kinds_consult c k.scope s).trans hkinds) c k.scope
  simp only [load, hconsult, hfetch]
  cases (s.consult c k.scope).2.fetch c k.scope with
  | mk answer next =>
      cases answer with
      | error fault => rfl
      | ok r =>
          simp only [(unnoticed_vetted g).commutes.acquire]
          cases next.acquire r with
          | mk outcome last => cases outcome <;> rfl

theorem remember_vetted (g : Registry) (r : Record) (scope : Scope) (s : System W) :
    (s.vetted g).remember r scope = (s.remember r scope).vetted g := by
  have hbytes := (unnoticed_vetted g).commutes.footprint s r
  have hdisplaced : (s.vetted g).displaced r scope = s.displaced r scope := by
    unfold displaced
    rw [hbytes]
    rfl
  have hcaching : (s.vetted g).caching r scope = (s.caching r scope).vetted g := by
    unfold caching
    rw [hbytes]
    rfl
  rw [remember_eq, hdisplaced, hcaching, (unnoticed_vetted g).commutes.evictAll, ← remember_eq]

theorem getSegment_vetted (hkinds : s.manager.kinds = g) (c : CollectionId) (k : Capability) :
    (s.vetted g).getSegment c k = ((s.getSegment c k).1, (s.getSegment c k).2.vetted g) := by
  cases hcached : s.manager.cached? k c with
  | some r =>
      have hcached' : (s.vetted g).manager.cached? k c = some r := hcached
      have hconsult : ((s.vetted g).consult c k.scope).2 =
        (s.consult c k.scope).2.vetted g := rfl
      rw [getSegment_of_hit hcached, getSegment_of_hit hcached', hconsult,
        (unnoticed_vetted g).commutes.acquire]
      cases (s.consult c k.scope).2.acquire r with
      | mk outcome next => cases outcome <;> rfl
  | none =>
      have hcached' : (s.vetted g).manager.cached? k c = none := hcached
      rw [getSegment_of_absent hcached, getSegment_of_absent hcached', load_vetted hkinds]
      cases s.load c k with
      | mk answer next =>
          cases answer with
          | error fault => rfl
          | ok loaded => exact congrArg (Prod.mk _) (remember_vetted g loaded.1 k.scope next)

theorem getSegmentNamed_vetted (hkinds : s.manager.kinds = g) (c : CollectionId)
    (name : String) : (s.vetted g).getSegmentNamed c name =
      ((s.getSegmentNamed c name).1, (s.getSegmentNamed c name).2.vetted g) := by
  unfold getSegmentNamed
  cases Capability.ofName? name with
  | none => rfl
  | some k => exact getSegment_vetted hkinds c k

theorem hint_vetted {created : List Record} (hs : s.Coherent created)
    (hkinds : s.manager.kinds = g) (c : CollectionId) (operation : Operation) :
    (s.vetted g).hint c operation =
      ((s.hint c operation).1, (s.hint c operation).2.vetted g) := by
  have hdeployment : (s.vetted g).manager.deployment = s.manager.deployment := rfl
  have hfirst := (hs.looks_getSegment c .metadataReader).sameSetup
  unfold hint
  rw [hdeployment]
  cases s.manager.deployment with
  | distributed workers => rfl
  | inProcess settings =>
      simp only [getSegment_vetted hkinds]
      cases hmetadata : s.getSegment c .metadataReader with
      | mk answer next =>
          rw [hmetadata] at hfirst
          cases answer with
          | error fault => rfl
          | ok i =>
              simp only [getSegment_vetted (hfirst.kinds.trans hkinds)]
              cases next.getSegment c .vectorReader with
              | mk answer last =>
                  cases answer with
                  | error fault => rfl
                  | ok j => exact (unnoticed_vetted g).trackIndex last c j

/-! ## What runs is known -/

structure OnlyKnown (g : Registry) (s : System W) : Prop where
  kinds : s.manager.kinds = g
  running : ∀ segment i, s.manager.running? segment = some i → g.knows i.record.kind = true
  built : ∀ r ok, .build r ok ∈ s.site.journal → g.knows r.kind = true

theorem built_of_launch {m : Manager} {r row : Record} {site : Site W} {ok : Bool}
    (hbuilt : .build row ok ∈ (launch m r site).2.journal) :
    .build row ok ∈ site.journal ∨ row = r := by
  rcases launch_cases m r site with ⟨i, next, hend, -, -, -, hjournal⟩ |
    ⟨fault, i, next, hend, -, -, -, hjournal⟩ | ⟨fault, next, hend, -, hjournal | hjournal⟩
  all_goals
    rw [hend] at hbuilt
    simp only [hjournal, List.mem_cons, Call.build.injEq, reduceCtorEq, false_or] at hbuilt
  · exact hbuilt.symm.imp_right And.left
  · exact hbuilt.symm.imp_right And.left
  · exact .inl hbuilt
  · exact hbuilt.symm.imp_right And.left

theorem built_of_performAll {action : Action} {targets : List Instance} {site : Site W}
    {row : Record} {ok : Bool}
    (hbuilt : .build row ok ∈ (site.performAll action targets).2.journal) :
    .build row ok ∈ site.journal := by
  induction targets generalizing site with
  | nil => exact hbuilt
  | cons i rest ih =>
      rw [Site.performAll_cons_snd] at hbuilt
      have hfirst := ih hbuilt
      rw [Site.journal_perform] at hfirst
      rcases List.mem_cons.mp hfirst with heq | hbefore
      · cases heq
      · exact hbefore

namespace OnlyKnown

variable {created : List Record}

theorem asked (h : s.OnlyKnown g) (hkinds : s'.manager.kinds = s.manager.kinds)
    (hrunning : ∀ segment i, s'.manager.running? segment = some i →
      s.manager.running? segment = some i)
    {action : Action} {targets : List Instance}
    (hsite : s'.site = (s.site.performAll action targets).2) : s'.OnlyKnown g := by
  refine ⟨hkinds.trans h.kinds, fun segment i hi => h.running segment i (hrunning segment i hi), ?_⟩
  intro r ok hbuilt
  rw [hsite] at hbuilt
  exact h.built r ok (built_of_performAll hbuilt)

theorem unasked (h : s.OnlyKnown g) (hkinds : s'.manager.kinds = s.manager.kinds)
    (hrunning : ∀ segment i, s'.manager.running? segment = some i →
      s.manager.running? segment = some i)
    (hsite : s'.site = s.site) : s'.OnlyKnown g :=
  h.asked hkinds hrunning (show s'.site = (s.site.performAll .start []).2 from hsite)

theorem launched (h : s.OnlyKnown g) {m : Manager} {r : Record} (hr : g.knows r.kind = true)
    {outcome : Except Fault Instance} {site : Site W}
    (hlaunch : launch m r s.site = (outcome, site)) :
    ∀ row ok, .build row ok ∈ site.journal → g.knows row.kind = true := by
  intro row ok hbuilt
  have hsite : site = (launch m r s.site).2 := (congrArg Prod.snd hlaunch).symm
  rw [hsite] at hbuilt
  rcases built_of_launch hbuilt with hbefore | rfl
  · exact h.built row ok hbefore
  · exact hr

theorem loads (h : s.OnlyKnown g) {answer : Except Fault (Record × Instance)}
    (hload : Loads c k s answer s') : s'.OnlyKnown g := by
  have hkinds := hload.sameSetup.kinds.trans h.kinds
  have hfetching : ∀ segment i, (s.fetching c k).manager.running? segment = some i →
      g.knows i.record.kind = true := by
    intro segment i hi
    rw [running?_fetching] at hi
    exact h.running segment i hi
  cases hload with
  | refused fault => exact ⟨hkinds, hfetching, h.built⟩
  | running hadmits hrunning => exact ⟨hkinds, hfetching, h.built⟩
  | failed hadmits habsent hlaunch =>
      have hknown := hadmits.known
      rw [h.kinds] at hknown
      exact ⟨hkinds, hfetching, h.launched hknown hlaunch⟩
  | launched hadmits habsent hlaunch =>
      rename_i r i site counters
      have hknown := hadmits.known
      rw [h.kinds] at hknown
      refine ⟨hkinds, ?_, h.launched hknown hlaunch⟩
      intro segment j hj
      have hinsert := Table.get?_insert s.manager.instances r.id segment i
      have hfound : (s.manager.instances.insert r.id i).get? segment = some j := hj
      rw [hfound] at hinsert
      split at hinsert
      · obtain rfl := Option.some.inj hinsert
        rwa [launch_record hlaunch]
      · exact h.running segment j hinsert.symm

theorem evictAll (h : s.OnlyKnown g) (gone : List (CollectionId × Record)) :
    (s.evictAll gone).OnlyKnown g := by
  induction gone generalizing s with
  | nil => exact h
  | cons e rest ih =>
      apply ih
      obtain ⟨counters, hmanager⟩ := manager_evict e.1 e.2 s
      refine h.asked (by rw [hmanager]) ?_ (site_evict e.1 e.2 s)
      intro segment i hi
      rw [running?_evict] at hi
      split at hi
      · cases hi
      · exact hi

theorem remember (h : s.OnlyKnown g) (r : Record) (k : Capability) :
    (s.remember r k.scope).OnlyKnown g := by
  have hcaching : (s.caching r k.scope).OnlyKnown g := by
    refine h.unasked (Manager.kinds_withRecords s.manager k.scope _) ?_ rfl
    intro segment i hi
    rwa [running?_caching] at hi
  rw [remember_eq]
  exact hcaching.evictAll _

theorem looks (h : s.OnlyKnown g) {answer : Except Fault Instance}
    (hlook : Looks c k s answer s') : s'.OnlyKnown g := by
  cases hlook with
  | cached hcached hrunning =>
      refine h.unasked (kinds_consult c k.scope s) ?_ rfl
      intro segment i hi
      rwa [running?_consult] at hi
  | failed habsent hload => exact h.loads hload
  | loaded habsent hload => exact (h.loads hload).remember _ k

theorem tracks (h : s.OnlyKnown g) {i : Instance} {answer : Except Fault Unit}
    (htracks : Tracks c i s answer s') : s'.OnlyKnown g := by
  have hopened : (s.perform .openIndex i).2.OnlyKnown g :=
    h.asked rfl (fun _ _ => id) (show _ = (s.site.performAll .openIndex [i]).2 from rfl)
  cases htracks with
  | skipped => exact h
  | refused hpersistent hperform => exact hopened
  | tracked hbefore hpersistent hperform =>
      exact hopened.asked rfl (fun _ _ => id) (Site.closeAll_eq _ _)

theorem hints (h : s.OnlyKnown g) {answer : Except Fault Unit} (hhints : Hints c s answer s') :
    s'.OnlyKnown g := by
  cases hhints with
  | remote hdeployment => exact h
  | first hfirst => exact h.looks hfirst
  | second hfirst hsecond => exact (h.looks hfirst).looks hsecond
  | both hfirst hsecond hlast => exact ((h.looks hfirst).looks hsecond).tracks hlast

theorem takenDown (h : s.OnlyKnown g) {action : Action} {visited : List SegmentId}
    {targets : List Instance} {counted : Nat}
    (hdown : TakenDown action visited targets counted (s.listing c) s') :
    (s'.forgetAll c).OnlyKnown g := by
  refine h.asked hdown.caches.kinds ?_ hdown.site
  intro segment i hi
  have hleft := hdown.running segment
  rw [show s'.manager.running? segment = some i from hi] at hleft
  split at hleft
  · cases hleft
  · exact hleft.symm

theorem clears (h : s.OnlyKnown g) {answer : Except Fault (List SegmentId)}
    (hclears : Clears c s answer s') : s'.OnlyKnown g := by
  cases hclears with
  | refused hrefusal => exact ⟨h.kinds, h.running, h.built⟩
  | released hdeployment hdown => exact h.takenDown hdown
  | deleted hdeployment hdeletes =>
      cases hdeletes with
      | complete hok hdown => exact h.takenDown hdown
      | broken hsplit hrunning hok hfails hdown => exact h.takenDown hdown

theorem handle (h : s.OnlyKnown g) (hs : s.Coherent created) (q : Request) :
    (s.handle q).2.OnlyKnown g := by
  cases q with
  | get c k => exact h.looks (hs.looks_getSegment c k)
  | getNamed c name =>
      change (s.getSegmentNamed c name).2.OnlyKnown g
      unfold System.getSegmentNamed
      cases Capability.ofName? name with
      | none => exact h
      | some k => exact h.looks (hs.looks_getSegment c k)
  | hint c operation => exact h.hints (hs.hints_hint c operation)
  | delete c => exact h.clears (hs.clears_deleteSegments c)
  | start order => exact h.asked rfl (fun _ _ => id) rfl
  | stop order => exact h.asked rfl (fun _ _ => id) rfl
  | reset order => exact h.asked rfl (by rintro segment i ⟨⟩) rfl

theorem after (h : s.OnlyKnown g) (hs : s.Coherent created) (e : Event W) :
    (s.after e).OnlyKnown g := by
  cases e with
  | request q => exact h.handle hs q
  | regroup members =>
      refine h.unasked (s.manager.kinds_withMembers members) ?_ rfl
      intro segment i hi
      exact (s.manager.running?_withMembers members segment).symm.trans hi
  | enter rows => exact ⟨h.kinds, h.running, h.built⟩
  | withdraw c => exact ⟨h.kinds, h.running, h.built⟩
  | refuse text => exact ⟨h.kinds, h.running, h.built⟩
  | elapse change => exact ⟨h.kinds, h.running, h.built⟩

end OnlyKnown

/-! ## Deletions -/

def Narrows (s s' : System W) : Prop :=
  ∀ segment, s.manager.running? segment = none → s'.manager.running? segment = none

omit [Backend W] in
theorem narrows_unregister (segment : SegmentId) (s : System W) :
    s.Narrows (s.unregister segment).2 := by
  intro other hnone
  rw [running?_unregister]
  split
  · rfl
  · exact hnone

section Passing

variable {keep : SegmentId → Bool} {segments : List SegmentId}

omit [Backend W] in
/-- A walk over segments that passes over those that do not run may as well leave
them out. -/
theorem visit_filter {α : Type} {visit : List SegmentId → System W → α}
    (hskip : ∀ segment rest s, s.manager.running? segment = none →
      visit (segment :: rest) s = visit rest s)
    (hcongr : ∀ segment rest rest' s,
      (∀ next, s.Narrows next → visit rest' next = visit rest next) →
      visit (segment :: rest') s = visit (segment :: rest) s)
    (habsent : ∀ segment ∈ segments, keep segment = false →
      s.manager.running? segment = none) :
    visit (segments.filter keep) s = visit segments s := by
  induction segments generalizing s with
  | nil => rfl
  | cons segment rest ih =>
      have hrest : ∀ next, s.Narrows next → visit (rest.filter keep) next = visit rest next :=
        fun next hnext => ih fun other hother hdropped =>
          hnext other (habsent other (List.mem_cons_of_mem _ hother) hdropped)
      cases hkeep : keep segment with
      | false =>
          have hnone := habsent segment List.mem_cons_self hkeep
          rw [List.filter_cons_of_neg (by simp [hkeep]), hskip segment rest s hnone]
          exact hrest s fun _ => id
      | true =>
          rw [List.filter_cons_of_pos hkeep]
          exact hcongr segment rest (rest.filter keep) s hrest

theorem deleteEach_filter (habsent : ∀ segment ∈ segments, keep segment = false →
    s.manager.running? segment = none) :
    deleteEach (segments.filter keep) s = deleteEach segments s := by
  apply visit_filter ?_ ?_ habsent
  · intro segment rest s hnone
    conv => lhs; unfold deleteEach
    rw [unregister_of_absent hnone]
  · intro segment rest rest' s hrest
    have htaken := hrest _ (narrows_unregister segment s)
    have hnarrows := narrows_unregister segment s
    unfold deleteEach
    generalize s.unregister segment = taken at htaken hnarrows ⊢
    obtain ⟨found, next⟩ := taken
    cases found with
    | none => exact htaken
    | some i =>
        have hdeleted := hrest (next.perform .delete i).2.countDeleted hnarrows
        simp only
        generalize next.perform .delete i = asked at hdeleted ⊢
        obtain ⟨outcome, last⟩ := asked
        cases outcome with
        | error fault => rfl
        | ok done => simp only [hdeleted]

theorem releaseEach_filter (habsent : ∀ segment ∈ segments, keep segment = false →
    s.manager.running? segment = none) :
    releaseEach (segments.filter keep) s = releaseEach segments s := by
  apply visit_filter ?_ ?_ habsent
  · intro segment rest s hnone
    conv => lhs; unfold releaseEach
    rw [unregister_of_absent hnone]
  · intro segment rest rest' s hrest
    have htaken := hrest _ (narrows_unregister segment s)
    have hnarrows := narrows_unregister segment s
    unfold releaseEach
    generalize s.unregister segment = taken at htaken hnarrows ⊢
    obtain ⟨found, next⟩ := taken
    cases found with
    | none => exact htaken
    | some i => exact hrest (next.perform .stop i).2.countDeleted hnarrows

end Passing

omit [Backend W] in
theorem OnlyKnown.absent {created : List Record} (h : s.OnlyKnown g) (hs : s.Coherent created)
    {row : Record} (hrow : row ∈ created) (hunknown : g.knows row.kind = false) :
    s.manager.running? row.id = none := by
  cases hrunning : s.manager.running? row.id with
  | none => rfl
  | some i =>
      obtain ⟨hid, origin, horigin, hserves⟩ := hs.manager.running row.id i hrunning
      have hsame : origin = row := by
        apply List.inj_on_of_nodup_map hs.distinct horigin hrow
        rw [← hserves.id_eq, hid]
      have hknown := h.running row.id i hrunning
      rw [hserves.kind_eq, hsame, hunknown] at hknown
      cases hknown

theorem deleteSegments_vetted {created : List Record} (h : s.OnlyKnown g)
    (hs : s.Coherent created) (c : CollectionId) :
    (s.vetted g).deleteSegments c =
      ((s.deleteSegments c).1.map (·.filter (· ∉ g.strangers created)),
        (s.deleteSegments c).2.vetted g) := by
  have hlisted : ∀ rows, (s.readCatalog c none).1 = .ok rows → ∀ row ∈ rows, row ∈ created :=
    fun rows hread row hrow =>
      hs.recorded.subset (Catalog.mem_of_read hs.filtering hread hrow).1
  have habsent : ∀ segment ∈ g.strangers created,
      (s.readCatalog c none).2.manager.running? segment = none := by
    intro segment hsegment
    obtain ⟨row, hrow, rfl⟩ := List.mem_map.mp hsegment
    obtain ⟨hcreated, hunknown⟩ := List.mem_filter.mp hrow
    exact h.absent hs hcreated (by simpa using hunknown)
  unfold deleteSegments
  rw [readCatalog_vetted]
  generalize s.readCatalog c none = listed at hlisted habsent ⊢
  obtain ⟨answer, next⟩ := listed
  cases answer with
  | error fault => rfl
  | ok rows =>
      -- What is left out of the list does not run, and the walk passes over it.
      have hids := g.ids_vetted hs.distinct (hlisted rows rfl)
      have hpassed : ∀ segment ∈ rows.map (·.id),
          decide (segment ∉ g.strangers created) = false →
          next.manager.running? segment = none := by
        intro segment _ hdropped
        exact habsent segment (by simpa using hdropped)
      have hdeployment : (next.vetted g).manager.deployment = next.manager.deployment := rfl
      simp only [Except.map, hids, hdeployment]
      cases next.manager.deployment with
      | distributed workers =>
          simp only
          rw [(unnoticed_vetted g).commutes.releaseEach, releaseEach_filter hpassed]
          rfl
      | inProcess settings =>
          simp only
          rw [(unnoticed_vetted g).commutes.deleteEach, deleteEach_filter hpassed]
          cases deleteEach (rows.map (·.id)) next with
          | mk outcome last =>
              obtain ⟨completed, failure⟩ := outcome
              cases failure <;> rfl

/-! ## Histories -/

theorem handle_vetted {created : List Record} (h : s.OnlyKnown g) (hs : s.Coherent created)
    (q : Request) :
    (s.vetted g).handle q =
      ((s.handle q).1.map (Reply.without (g.strangers created)), (s.handle q).2.vetted g) := by
  have hreply : ∀ {α : Type} {form : α → Reply} {outcome outcome' : Except Fault α × System W},
      (∀ a, (form a).without (g.strangers created) = form a) →
      outcome' = (outcome.1, outcome.2.vetted g) →
      reply form outcome' =
        ((reply form outcome).1.map (Reply.without (g.strangers created)),
          (reply form outcome).2.vetted g) := by
    rintro α form ⟨answer, next⟩ outcome' hform rfl
    cases answer with
    | error fault => rfl
    | ok a => exact Prod.ext (congrArg Except.ok (hform a).symm) rfl
  cases q with
  | get c k => exact hreply (fun _ => rfl) (getSegment_vetted h.kinds c k)
  | getNamed c name => exact hreply (fun _ => rfl) (getSegmentNamed_vetted h.kinds c name)
  | hint c operation => exact hreply (fun _ => rfl) (hint_vetted hs h.kinds c operation)
  | delete c =>
      have hhandle : ∀ s : System W, s.handle (.delete c) = reply .deleted (s.deleteSegments c) :=
        fun _ => rfl
      rw [hhandle, hhandle, deleteSegments_vetted h hs]
      cases s.deleteSegments c with
      | mk answer next => cases answer <;> rfl
  | start order => exact hreply (fun _ => rfl) ((unnoticed_vetted g).commutes.performAll s .start _)
  | stop order => exact hreply (fun _ => rfl) ((unnoticed_vetted g).commutes.performAll s .stop _)
  | reset order => exact hreply (fun _ => rfl) rfl

theorem without_handle {q : Request} (hq : ∀ c, q ≠ .delete c) (segments : List SegmentId)
    (s : System W) : (s.handle q).1.map (Reply.without segments) = (s.handle q).1 := by
  have hform : ∀ {α : Type} {form : α → Reply} (answer : Except Fault α),
      (∀ a, (form a).without segments = form a) →
      (answer.map form).map (Reply.without segments) = answer.map form := by
    intro α form answer hnone
    cases answer with
    | error fault => rfl
    | ok a => exact congrArg Except.ok (hnone a)
  cases q with
  | get c k => exact hform (s.getSegment c k).1 fun _ => rfl
  | getNamed c name => exact hform (s.getSegmentNamed c name).1 fun _ => rfl
  | hint c operation => exact hform (s.hint c operation).1 fun _ => rfl
  | delete c => exact (hq c rfl).elim
  | start order => exact hform (s.startAll order).1 fun _ => rfl
  | stop order => exact hform (s.stopAll order).1 fun _ => rfl
  | reset order => exact hform (s.reset order).1 fun _ => rfl

theorem after_vetted {created : List Record} (h : s.OnlyKnown g) (hs : s.Coherent created)
    (e : Event W) : (s.vetted g).after (e.vetted g) = (s.after e).vetted g := by
  cases e with
  | request q => exact congrArg Prod.snd (handle_vetted h hs q)
  | enter rows =>
      have hrows : g.vetted s.catalog.rows ++ g.vetted rows = g.vetted (s.catalog.rows ++ rows) :=
        (List.filter_append ..).symm
      exact congrArg (fun rows => { s with catalog := { s.catalog with rows } }) hrows
  | withdraw c =>
      have hrows : (g.vetted s.catalog.rows).filter (fun r => r.collection ≠ c) =
          g.vetted (s.catalog.rows.filter fun r => r.collection ≠ c) := by
        unfold Registry.vetted
        simp only [List.filter_filter, Bool.and_comm]
      exact congrArg (fun rows => { s with catalog := { s.catalog with rows } }) hrows
  | refuse text => rfl
  | regroup members => rfl
  | elapse change => rfl

omit [Backend W] in
theorem Coherent.mono {rows created : List Record} (hs : s.Coherent rows)
    (hsub : rows.Sublist created) (hids : (created.map (·.id)).Nodup) : s.Coherent created :=
  ⟨hs.manager.mono fun _ hrow => hsub.subset hrow, hs.filtering, hs.recorded.trans hsub, hids⟩

omit [Backend W] in
theorem onlyKnown_initial {m : Manager} (hm : m.Fresh) (w : W) :
    (initial m w).OnlyKnown m.kinds := by
  refine ⟨rfl, ?_, ?_⟩
  · intro segment i hi
    cases hm with
    | distributed workers g => cases hi
    | inProcess hsetup =>
        obtain ⟨openIndexes, rfl, -⟩ := Manager.inProcess_eq_ok hsetup
        cases hi
  · rintro r ok ⟨⟩

theorem onlyKnown_replay {m : Manager} (hm : m.Fresh) (w : W) {events : List (Event W)}
    (hids : Event.NeverShared events) :
    ((initial m w).replay events).OnlyKnown m.kinds ∧
      (initial m w).replay (events.map (·.vetted m.kinds)) =
        ((initial m w).replay events).vetted m.kinds := by
  revert hids
  refine replay_induction (P := fun events s => Event.NeverShared events →
    s.OnlyKnown m.kinds ∧
      (initial m w).replay (events.map (·.vetted m.kinds)) = s.vetted m.kinds) ?_ ?_ events
  · intro hids
    exact ⟨onlyKnown_initial hm w, rfl⟩
  · intro events e ih hids
    have hcoherent := coherent_replay hm w hids.of_append
    obtain ⟨hknown, hvetted⟩ := ih hids.of_append
    refine ⟨hknown.after hcoherent e, ?_⟩
    rw [List.map_append, List.map_singleton, replay_concat, hvetted]
    exact after_vetted hknown hcoherent e

/-- Rows of kinds that a manager does not know might as well not be there.  With
them left out of a history it makes the same calls, counts the same and answers
every request alike, but does not name them when their collection is deleted.
Nothing is ever built for them.  In which order a call on all instances visits them is
part of the history: it may be any, another one for each call, and decides which of
several failures is reported.  So whatever may come of the one history may come of the
other. -/
theorem unknown_rows_go_unseen {m : Manager} (hm : m.Fresh) (w : W) {events : List (Event W)}
    (hids : Event.NeverShared events) :
    let s := (initial m w).replay events
    let s' := (initial m w).replay (events.map (·.vetted m.kinds))
    s'.site = s.site ∧ s'.manager = s.manager ∧
    (∀ r ok, .build r ok ∈ s.site.journal → m.kinds.knows r.kind = true) ∧
    ∀ before q after, events = before ++ .request q :: after →
      let answer := (((initial m w).replay before).handle q).1
      let answer' := (((initial m w).replay (before.map (·.vetted m.kinds))).handle q).1
      answer' = answer.map (Reply.without (m.kinds.strangers (Event.created events))) ∧
        ((∀ c, q ≠ .delete c) → answer' = answer) := by
  obtain ⟨hknown, hvetted⟩ := onlyKnown_replay hm w hids
  refine ⟨congrArg (·.site) hvetted, congrArg (·.manager) hvetted, hknown.built, ?_⟩
  rintro before q after rfl
  obtain ⟨hknown, hvetted⟩ := onlyKnown_replay hm w hids.of_append
  have hsub : (Event.created before).Sublist (Event.created (before ++ .request q :: after)) := by
    rw [Event.created_append]
    exact List.sublist_append_left _ _
  have hcoherent := (coherent_replay hm w hids.of_append).mono hsub hids
  rw [hvetted, handle_vetted hknown hcoherent]
  exact ⟨rfl, fun hq => without_handle hq _ _⟩

/-- Rows of a collection of kinds that no manager in its own process knows, ahead
of those that it serves. -/
def inheritedRows : List (Event World) :=
  [.enter [⟨numberedSegment 0 .record, .other "legacy", .vector, (numberedCollection 0).id, none⟩,
      ⟨numberedSegment 1 .vector, .hnswRemote, .vector, (numberedCollection 0).id, none⟩],
    .enter (numberedRows 0)]

def refusingStops : List (Event World) :=
  [.request (.hint (numberedCollection 0).id .add),
    .elapse fun w => (w.fail ⟨.act .stop, some (numberedSegment 0 .vector)⟩).fail
      ⟨.act .stop, some (numberedSegment 0 .metadata)⟩]

def inherited : List (Event World) :=
  inheritedRows ++ refusingStops ++ [.request (.stop [numberedSegment 0 .vector]),
    .request (.stop [numberedSegment 0 .metadata]),
    .request (.delete (numberedCollection 0).id)]

def refusedStop (segment : SegmentId) : Except Fault Reply :=
  .error (.stopFailed segment "injected stop failure")

theorem inherited_rows_go_unseen :
    ∃ m : Manager, m.Fresh ∧ Event.NeverShared inherited ∧
      (((initial m keeperWorld).replay ((inherited.take 4).map (·.vetted m.kinds))).handle
        (.stop [numberedSegment 0 .vector])).1 = refusedStop (numberedSegment 0 .vector) ∧
      (((initial m keeperWorld).replay ((inherited.take 5).map (·.vetted m.kinds))).handle
        (.stop [numberedSegment 0 .metadata])).1 = refusedStop (numberedSegment 0 .metadata) ∧
      (((initial m keeperWorld).replay inherited.dropLast).handle
        (.delete (numberedCollection 0).id)).1 =
        .ok (.deleted [numberedSegment 0 .record, numberedSegment 1 .vector,
          numberedSegment 0 .vector, numberedSegment 0 .metadata]) ∧
      (((initial m keeperWorld).replay (inherited.dropLast.map (·.vetted m.kinds))).handle
        (.delete (numberedCollection 0).id)).1 =
        .ok (.deleted [numberedSegment 0 .vector, numberedSegment 0 .metadata]) := by
  have hids : Event.NeverShared inherited := by decide +kernel
  have hran : ∀ m, Manager.inProcess spaciousSettings keeperRegistry = .ok m →
      (((initial m keeperWorld).replay (inherited.take 4)).handle
        (.stop [numberedSegment 0 .vector])).1 = refusedStop (numberedSegment 0 .vector) ∧
      (((initial m keeperWorld).replay (inherited.take 5)).handle
        (.stop [numberedSegment 0 .metadata])).1 = refusedStop (numberedSegment 0 .metadata) ∧
      (((initial m keeperWorld).replay inherited.dropLast).handle
        (.delete (numberedCollection 0).id)).1 =
        .ok (.deleted [numberedSegment 0 .record, numberedSegment 1 .vector,
          numberedSegment 0 .vector, numberedSegment 0 .metadata]) ∧
      m.kinds.strangers (Event.created inherited) =
        [numberedSegment 0 .record, numberedSegment 1 .vector] := by
    rintro m ⟨⟩
    decide +kernel
  obtain ⟨m, hm⟩ : ∃ m, Manager.inProcess spaciousSettings keeperRegistry = .ok m := ⟨_, rfl⟩
  obtain ⟨hvectors, hmetadata, hanswer, hstrangers⟩ := hran m hm
  obtain ⟨-, -, -, hanswers⟩ := unknown_rows_go_unseen (.inProcess hm) keeperWorld hids
  obtain ⟨-, hfirst⟩ := hanswers (inherited.take 4) _ (inherited.drop 5) rfl
  obtain ⟨-, hsecond⟩ := hanswers (inherited.take 5) _ (inherited.drop 6) rfl
  refine ⟨m, .inProcess hm, hids, (hfirst (by simp)).trans hvectors,
    (hsecond (by simp)).trans hmetadata, hanswer, ?_⟩
  obtain ⟨hnamed, -⟩ := hanswers inherited.dropLast _ [] rfl
  rw [hnamed, hanswer, hstrangers]
  decide

end System

end SegmentManager
