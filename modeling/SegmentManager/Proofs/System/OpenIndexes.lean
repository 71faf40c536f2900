import SegmentManager.Proofs.Cache.OpenIndexes
import SegmentManager.Proofs.System.MemoryBudget

/-!
# Whose index is open

The journal tells whose index is open: a hint opens it, and closing it, stopping
the instance or deleting it releases it.  An index is opened in one place only
but let go in many.  As long as none of the calls that release an index fails,
every open index is that of the instance tracked for its collection.
-/

namespace SegmentManager

/-- What a successful call tells of an index: it is open, or it is not. -/
def Action.leavesOpen? : Action → Option Bool
  | .openIndex => some true
  | .closeIndex | .stop | .delete => some false
  | .start => none

def Action.Releases (action : Action) : Prop := action.leavesOpen? = some false

def Call.tellsOpen? (n : Nat) : Call → Option Bool
  | .act action i true => if i.serial = n then action.leavesOpen? else none
  | _ => none

namespace Site

variable {W : Type}

/-- Whether the last call that tells of the index of the instance with a serial
number left it open. -/
def indexOpen (site : Site W) (n : Nat) : Bool :=
  (site.journal.findSome? (Call.tellsOpen? n)).getD false

def NeverStuck (site : Site W) : Prop :=
  ∀ action i, action.Releases → Call.act action i false ∉ site.journal

variable {site site' : Site W} {n : Nat}

theorem NeverStuck.of_append {calls : List Call} (h : site'.NeverStuck)
    (hjournal : site'.journal = calls ++ site.journal) : site.NeverStuck := by
  intro action i haction hmem
  apply h action i haction
  rw [hjournal]
  exact List.mem_append_right _ hmem

theorem indexOpen_of_journal {call : Call} (hjournal : site'.journal = call :: site.journal) :
    site'.indexOpen n = (call.tellsOpen? n).getD (site.indexOpen n) := by
  unfold indexOpen
  rw [hjournal, List.findSome?_cons]
  cases call.tellsOpen? n <;> rfl

theorem indexOpen_congr (hjournal : site'.journal = site.journal) :
    site'.indexOpen n = site.indexOpen n := by
  unfold indexOpen
  rw [hjournal]

variable [Backend W]

theorem indexOpen_perform (action : Action) (i : Instance) :
    (site.perform action i).2.indexOpen n =
      if (site.perform action i).1.isOk = true ∧ i.serial = n then
        action.leavesOpen?.getD (site.indexOpen n)
      else site.indexOpen n := by
  rw [indexOpen_of_journal (journal_perform action i site)]
  cases (site.perform action i).1.isOk with
  | false => simp [Call.tellsOpen?]
  | true =>
      by_cases hi : i.serial = n
      · simp [Call.tellsOpen?, hi]
      · simp [Call.tellsOpen?, hi]

theorem indexOpen_performAll_start (targets : List Instance) (site : Site W) (n : Nat) :
    (site.performAll .start targets).2.indexOpen n = site.indexOpen n := by
  induction targets generalizing site with
  | nil => rfl
  | cons i rest ih =>
      rw [performAll_cons_snd, ih, indexOpen_perform]
      split <;> rfl

/-- Of instances that are all asked to release their indexes none is left open. -/
theorem open_of_performAll {action : Action} (haction : action.Releases)
    {targets : List Instance} (hnever : (site.performAll action targets).2.NeverStuck)
    (hopen : (site.performAll action targets).2.indexOpen n = true) :
    site.indexOpen n = true ∧ ∀ i ∈ targets, i.serial ≠ n := by
  induction targets generalizing site with
  | nil => exact ⟨hopen, by simp⟩
  | cons i rest ih =>
      rw [performAll_cons_snd] at hnever hopen
      obtain ⟨hfirst, hrest⟩ := ih hnever hopen
      have hok : (site.perform action i).1.isOk = true := by
        by_contra hfails
        rw [Bool.not_eq_true] at hfails
        have hjournal := journal_performAll action rest (site.perform action i).2
        apply hnever action i haction
        rw [hjournal, journal_perform, hfails]
        simp
      have hne : i.serial ≠ n := by
        intro hi
        rw [indexOpen_perform, if_pos ⟨hok, hi⟩, haction, Option.getD_some] at hfirst
        cases hfirst
      rw [indexOpen_perform, if_neg (fun h => hne h.2)] at hfirst
      refine ⟨hfirst, ?_⟩
      intro j hj
      rcases List.mem_cons.mp hj with rfl | hlater
      · exact hne
      · exact hrest j hlater

theorem indexOpen_launch (m : Manager) (r : Record) (site : Site W) (n : Nat) :
    (System.launch m r site).2.indexOpen n = site.indexOpen n := by
  have hstarted : ∀ (site' : Site W) (i : Instance) (ok : Bool),
      site'.journal = .act .start i ok :: .build r true :: site.journal →
      site'.indexOpen n = site.indexOpen n := by
    intro site' i ok hjournal
    have hstart : Call.tellsOpen? n (.act .start i ok) = none := by
      cases ok with
      | true => simp [Call.tellsOpen?, Action.leavesOpen?]
      | false => rfl
    have hbuild : Call.tellsOpen? n (.build r true) = none := rfl
    unfold indexOpen
    rw [hjournal, List.findSome?_cons, hstart, List.findSome?_cons, hbuild]
  rcases System.launch_cases m r site with ⟨i, site', hend, -, -, -, hjournal⟩ |
    ⟨fault, i, site', hend, -, -, -, hjournal⟩ | ⟨fault, site', hend, -, hjournal⟩
  · rw [hend]
    exact hstarted site' i true hjournal
  · rw [hend]
    exact hstarted site' i false hjournal
  · rw [hend]
    rcases hjournal with hsame | hfailed
    · exact indexOpen_congr hsame
    · exact indexOpen_of_journal hfailed

end Site

def Manager.Tracking (budget : Nat) (m : Manager) : Prop :=
  ∃ o, m.openIndexes = some o ∧ o.WellFormed ∧ o.budget = budget

namespace System

variable {W : Type}

/-- Every open index is that of the instance tracked for its collection. -/
structure Opened (budget : Nat) (s : System W) : Prop where
  tracking : s.manager.Tracking budget
  tracked : ∀ n, s.site.indexOpen n = true →
    ∃ i, i.serial = n ∧ s.manager.tracked? i.record.collection = some i

variable {budget : Nat} {created : List Record} {log : List (CollectionId × Nat)}
  {s s' : System W} {settings : Settings} {c : CollectionId} {k : Capability}

theorem Opened.congr (hs : s.Opened budget)
    (hindexes : s'.manager.openIndexes = s.manager.openIndexes)
    (hopen : ∀ n, s'.site.indexOpen n = s.site.indexOpen n) : s'.Opened budget := by
  refine ⟨?_, ?_⟩
  · obtain ⟨o, ho, hwell, hbudget⟩ := hs.tracking
    exact ⟨o, hindexes.trans ho, hwell, hbudget⟩
  · intro n hn
    rw [hopen] at hn
    obtain ⟨i, hi, htracked⟩ := hs.tracked n hn
    unfold Manager.tracked? at htracked ⊢
    rw [hindexes]
    exact ⟨i, hi, htracked⟩

theorem Coherent.tracked_runs (hs : s.Coherent created) {i : Instance}
    (htracked : s.manager.tracked? c = some i) :
    s.manager.running? i.record.id = some i :=
  hs.running_of_serving (hs.manager.tracked c i htracked)

variable [Backend W]

/-! ## Lookups -/

omit [Backend W] in
theorem Opened.consult (hs : s.Opened budget) (c : CollectionId) (k : Capability) :
    (s.consult c k.scope).2.Opened budget :=
  hs.congr (openIndexes_consult c k.scope s) fun _ => rfl

theorem Opened.loads (hs : s.Opened budget) (hcoherent : s.Coherent created)
    (habsent : s.manager.cached? k c = none) {answer : Except Fault (Record × Instance)}
    (hload : Loads c k s answer s') : s'.Opened budget := by
  refine hs.congr (hcoherent.loads habsent hload).2.1.openIndexes ?_
  intro n
  have hlaunched : ∀ {m : Manager} {r : Record} {outcome : Except Fault Instance} {site : Site W},
      launch m r s.site = (outcome, site) → site.indexOpen n = s.site.indexOpen n := by
    intro m r outcome site hlaunch
    have hopen := Site.indexOpen_launch m r s.site n
    rwa [hlaunch] at hopen
  cases hload with
  | refused fault => rfl
  | running hadmits hrunning => rfl
  | failed hadmits hnone hlaunch => exact hlaunched hlaunch
  | launched hadmits hnone hlaunch => exact hlaunched hlaunch

omit [Backend W] in
theorem tracking_without {m m' : Manager} (hm : m.Tracking budget) {c : CollectionId}
    (hindexes : m'.openIndexes = m.openIndexes.map (·.without c)) : m'.Tracking budget := by
  obtain ⟨o, ho, hwell, hbudget⟩ := hm
  rw [ho, Option.map_some] at hindexes
  exact ⟨o.without c, hindexes, hwell.without c, hbudget⟩

theorem tracking_evictAll (gone : List (CollectionId × Record))
    (hs : s.manager.Tracking budget) : (s.evictAll gone).manager.Tracking budget := by
  induction gone generalizing s with
  | nil => exact hs
  | cons e rest ih =>
      obtain ⟨counters, hmanager⟩ := manager_evict e.1 e.2 s
      apply ih
      apply tracking_without hs
      rw [hmanager]

theorem Opened.remember (hs : s.Opened budget) (hcoherent : s.Coherent created)
    (hdeployment : s.manager.deployment = .inProcess settings) (r : Record) (k : Capability)
    (hnever : (s.remember r k.scope).site.NeverStuck) :
    (s.remember r k.scope).Opened budget := by
  refine ⟨?_, ?_⟩
  · rw [remember_eq]
    apply tracking_evictAll
    obtain ⟨o, ho, hwell⟩ := hs.tracking
    exact ⟨o, (Manager.openIndexes_withRecords _ _ _).trans ho, hwell⟩
  · intro n hn
    rw [remember_eq, site_evictAll (hcoherent.nodup_displaced r k)] at hn hnever
    have hcaching : (s.caching r k.scope).targets ((s.displaced r k.scope).map (·.2.id)) =
        s.targets ((s.displaced r k.scope).map (·.2.id)) := by
      apply targets_congr
      intro segment hsegment
      unfold Manager.running? System.caching
      rw [Manager.instances_withRecords]
    rw [hcaching] at hn hnever
    obtain ⟨hbefore, hspared⟩ := Site.open_of_performAll (show Action.stop.Releases from rfl) hnever hn
    obtain ⟨i, hi, htracked⟩ := hs.tracked n hbefore
    refine ⟨i, hi, ?_⟩
    rw [tracked?_remember, if_neg]
    · exact htracked
    intro hmem
    obtain ⟨e, he, hcollection⟩ := List.mem_map.mp hmem
    cases k with
    | metadataReader =>
        have hlimit : (s.manager.records Capability.metadataReader.scope).limit? = none := by
          rw [hcoherent.manager.limits, hdeployment]
          rfl
        rw [displaced, RecordCache.evicted_of_unlimited hlimit] at he
        cases he
    | vectorReader =>
        obtain ⟨-, hcached⟩ := mem_displaced r .vectorReader hcoherent.manager.wellFormed he
        obtain ⟨r', hcached', hrunning⟩ := hcoherent.manager.tracked _ i htracked
        rw [hcollection, hcached'] at hcached
        obtain rfl := Option.some.inj hcached
        apply hspared i _ hi
        exact List.mem_filterMap.mpr ⟨e.2.id, List.mem_map_of_mem he, hrunning⟩

theorem Opened.looks (hs : s.Opened budget) (hcoherent : s.Coherent created)
    (hdeployment : s.manager.deployment = .inProcess settings)
    {answer : Except Fault Instance} (hlook : Looks c k s answer s')
    (hnever : s'.site.NeverStuck) : s'.Opened budget := by
  cases hlook with
  | cached hcached hrunning => exact hs.consult c k
  | failed habsent hload => exact hs.loads hcoherent habsent hload
  | loaded habsent hload =>
      exact (hs.loads hcoherent habsent hload).remember (hcoherent.loads habsent hload).1
        (hload.sameSetup.deployment.trans hdeployment) _ k hnever

/-! ## Hints -/

omit [Backend W] in
theorem serving_unique {m : Manager} {i j : Instance} (hi : m.Serving k c i)
    (hj : m.Serving k c j) : i = j := by
  obtain ⟨r, hr, hrunning⟩ := hi
  obtain ⟨r', hr', hrunning'⟩ := hj
  rw [hr] at hr'
  obtain rfl := Option.some.inj hr'
  rw [hrunning] at hrunning'
  exact Option.some.inj hrunning'

omit [Backend W] in
theorem Coherent.collection_of_serving (hs : s.Coherent created)
    (hdeployment : s.manager.deployment = .inProcess settings) {i : Instance}
    (hserving : s.manager.Serving k c i) : i.record.collection = c := by
  obtain ⟨r, hcached, hrunning⟩ := hserving
  have hadmits := (hs.manager.cached k c r hcached).1
  rw [hs.record_of_running hdeployment hadmits hrunning]
  exact hadmits.collection

theorem Opened.tracks (hs : s.Opened budget) (hcoherent : s.Coherent created)
    (hdeployment : s.manager.deployment = .inProcess settings) {i : Instance}
    (hserving : s.manager.Serving .vectorReader c i) {answer : Except Fault Unit}
    (htracks : Tracks c i s answer s') (hnever : s'.site.NeverStuck) : s'.Opened budget := by
  obtain ⟨o, ho, hwell, hbudget⟩ := hs.tracking
  cases htracks with
  | skipped => exact hs
  | refused hpersistent hperform =>
      refine hs.congr rfl fun n => ?_
      change (s.site.perform .openIndex i).2.indexOpen n = _
      rw [Site.indexOpen_perform, hperform]
      exact if_neg (by simp [Except.isOk, Except.toBool])
  | tracked hbefore hpersistent hperform =>
      rename_i o' undersized counters
      obtain rfl : o' = o := Option.some.inj (hbefore.symm.trans ho)
      have hfound : ∀ d, s.manager.tracked? d = o'.tracked.peek? d := by
        intro d
        unfold Manager.tracked?
        rw [ho]
        rfl
      have hevicted : ∀ j ∈ (o'.tracked.insert c i 1).1.map (·.2),
          j.views.persistentIndex = true := by
        intro j hj
        obtain ⟨x, hx, rfl⟩ := List.mem_map.mp hj
        obtain ⟨e, he, -, hvalue⟩ := (RecencyCache.peek?_eq_some_iff hwell.tracked.distinct).mp
          (RecencyCache.peek?_of_mem_evicted hwell.tracked.distinct hx).2
        rw [← hvalue]
        exact hwell.persistent e he
      refine ⟨⟨_, rfl, hwell.insert c hpersistent undersized, hbudget⟩, ?_⟩
      intro n hn
      have hall := List.filter_eq_self.mpr hevicted
      rw [Site.closeAll_eq, hall] at hn hnever
      obtain ⟨hopen, hspared⟩ :=
        Site.open_of_performAll (show Action.closeIndex.Releases from rfl) hnever hn
      have hinsert := RecencyCache.peek?_insert hwell.tracked c i 1
      rw [Site.indexOpen_perform, hperform] at hopen
      by_cases hi : i.serial = n
      · have hitself := hinsert i.record.collection
        rw [if_pos (hcoherent.collection_of_serving hdeployment hserving)] at hitself
        exact ⟨i, hi, hitself⟩
      · rw [if_neg (fun h => hi h.2)] at hopen
        obtain ⟨j, hj, htracked⟩ := hs.tracked n hopen
        have hother : j.record.collection ≠ c := by
          intro hc
          rw [hc] at htracked
          have hsame := serving_unique hserving (hcoherent.manager.tracked c j htracked)
          exact hi (hsame ▸ hj)
        have hkept : j.record.collection ∉ (o'.tracked.insert c i 1).1.map (·.1) := by
          intro hmem
          obtain ⟨e, he, hkey⟩ := List.mem_map.mp hmem
          have hvalue := (RecencyCache.peek?_of_mem_evicted hwell.tracked.distinct he).2
          rw [hkey, ← hfound, htracked] at hvalue
          exact hspared e.2 (List.mem_map_of_mem he) (Option.some.inj hvalue ▸ hj)
        refine ⟨j, hj, ?_⟩
        have hstill := hinsert j.record.collection
        rw [if_neg hother, if_neg hkept, ← hfound, htracked] at hstill
        exact hstill

theorem Opened.hints (hs : s.Opened budget) (hcoherent : s.Coherent created)
    (hdeployment : s.manager.deployment = .inProcess settings) {answer : Except Fault Unit}
    (hhints : Hints c s answer s') (hnever : s'.site.NeverStuck) : s'.Opened budget := by
  have hq : (Request.get c .vectorReader).LooksUp := trivial
  cases hhints with
  | remote hremote =>
      rw [hdeployment] at hremote
      cases hremote
  | first hfirst => exact hs.looks hcoherent hdeployment hfirst hnever
  | second hfirst hsecond =>
      obtain ⟨hcoherent₁, -⟩ := hcoherent.looks hfirst
      have hdeployment₁ := hfirst.sameSetup.deployment.trans hdeployment
      obtain ⟨calls, hjournal, -⟩ := hcoherent₁.accounts_looks rfl hq hsecond
      exact (hs.looks hcoherent hdeployment hfirst (hnever.of_append hjournal)).looks
        hcoherent₁ hdeployment₁ hsecond hnever
  | both hfirst hsecond hlast =>
      obtain ⟨hcoherent₁, -⟩ := hcoherent.looks hfirst
      have hdeployment₁ := hfirst.sameSetup.deployment.trans hdeployment
      obtain ⟨calls, hjournal, -⟩ := hcoherent₁.accounts_looks rfl hq hsecond
      obtain ⟨hcoherent₂, hserving⟩ := hcoherent₁.looks hsecond
      have hdeployment₂ := hsecond.sameSetup.deployment.trans hdeployment₁
      have haccounts : Accounts true (.hint c .add) _ s' :=
        hcoherent₂.accounts_tracks (hserving _ rfl) hlast c .add
      obtain ⟨later, hjournal', -⟩ := haccounts
      have hnever₂ := hnever.of_append hjournal'
      exact ((hs.looks hcoherent hdeployment hfirst (hnever₂.of_append hjournal)).looks
        hcoherent₁ hdeployment₁ hsecond hnever₂).tracks hcoherent₂ hdeployment₂
        (hserving _ rfl) hlast hnever

/-! ## Taking down -/

/-- When all rows of a collection are visited, no index of it is left open. -/
theorem Opened.forgetAll (hs : s.Opened budget) (hcoherent : s.Coherent created)
    (hbudgeted : s.Budgeted log) {action : Action} (haction : action.Releases) {counted : Nat}
    (hdown : TakenDown action ((s.catalog.rowsOf c).map (·.id))
      (s.targets ((s.catalog.rowsOf c).map (·.id))) counted (s.listing c) s')
    (hnever : s'.site.NeverStuck) : (s'.forgetAll c).Opened budget := by
  have hindexes : s'.manager.openIndexes = s.manager.openIndexes := hdown.caches.openIndexes
  refine ⟨?_, ?_⟩
  · apply tracking_without hs.tracking
    rw [← hindexes]
    rfl
  · intro n hn
    have hsite : s'.site = (s.site.performAll action
        (s.targets ((s.catalog.rowsOf c).map (·.id)))).2 := hdown.site
    change s'.site.indexOpen n = true at hn
    rw [hsite] at hn hnever
    obtain ⟨hopen, hspared⟩ := Site.open_of_performAll haction hnever hn
    obtain ⟨i, hi, htracked⟩ := hs.tracked n hopen
    have hrunning := hcoherent.tracked_runs htracked
    have hother : i.record.collection ≠ c := by
      intro hc
      have hrow : i.record ∈ s.catalog.rowsOf c :=
        List.mem_filter.mpr ⟨hbudgeted.recorded _ i hrunning, by simpa using hc⟩
      apply hspared i _ hi
      exact List.mem_filterMap.mpr ⟨i.record.id, List.mem_map_of_mem hrow, hrunning⟩
    refine ⟨i, hi, ?_⟩
    rw [tracked?_forgetAll, if_neg hother]
    exact (hdown.caches.tracked? _).trans htracked

theorem Opened.clears (hs : s.Opened budget) (hcoherent : s.Coherent created)
    (hbudgeted : s.Budgeted log) (hdeployment : s.manager.deployment = .inProcess settings)
    {answer : Except Fault (List SegmentId)} (hclears : Clears c s answer s')
    (hnever : s'.site.NeverStuck) : s'.Opened budget := by
  cases hclears with
  | refused hrefusal => exact hs.congr rfl fun _ => rfl
  | released hdistributed hdown =>
      rw [hdeployment] at hdistributed
      cases hdistributed
  | deleted hsame hdeletes =>
      cases hdeletes with
      | complete hok hdown =>
          exact hs.forgetAll hcoherent hbudgeted (show Action.delete.Releases from rfl) hdown hnever
      | broken hsplit hrunning hok hfails hdown =>
          rename_i s₁ before after failed i cause
          have hfailed : Call.act .delete i false ∈ (s₁.forgetAll c).site.journal := by
            change _ ∈ s₁.site.journal
            rw [hdown.site, Site.journal_performAll_concat hok hfails]
            simp
          exact (hnever .delete i rfl hfailed).elim

theorem Opened.reset (hs : s.Opened budget) (hcoherent : s.Coherent created)
    {order : List SegmentId} (hnever : (s.reset order).2.site.NeverStuck) :
    (s.reset order).2.Opened budget := by
  refine ⟨?_, ?_⟩
  · obtain ⟨o, ho, hwell, hbudget⟩ := hs.tracking
    exact ⟨o.clear, congrArg (Option.map OpenIndexes.clear) ho, hwell.clear, hbudget⟩
  · intro n hn
    obtain ⟨hopen, hspared⟩ :=
      Site.open_of_performAll (show Action.stop.Releases from rfl) hnever hn
    obtain ⟨i, hi, htracked⟩ := hs.tracked n hopen
    have hvisited := (hcoherent.mem_visited_iff order).mpr (hcoherent.tracked_runs htracked)
    exact (hspared i hvisited hi).elim

theorem Opened.stopAll (hs : s.Opened budget) {order : List SegmentId}
    (hnever : (s.stopAll order).2.site.NeverStuck) : (s.stopAll order).2.Opened budget := by
  refine ⟨hs.tracking, ?_⟩
  intro n hn
  exact hs.tracked n
    (Site.open_of_performAll (show Action.stop.Releases from rfl) hnever hn).1

/-! ## Histories -/

theorem Opened.handle (hs : s.Opened budget) (hcoherent : s.Coherent created)
    (hbudgeted : s.Budgeted log) (hdeployment : s.manager.deployment = .inProcess settings)
    (q : Request) (hnever : (s.handle q).2.site.NeverStuck) : (s.handle q).2.Opened budget := by
  cases q with
  | get c k => exact hs.looks hcoherent hdeployment (hcoherent.looks_getSegment c k) hnever
  | getNamed c name =>
      change (s.getSegmentNamed c name).2.Opened budget
      change (s.getSegmentNamed c name).2.site.NeverStuck at hnever
      unfold System.getSegmentNamed at hnever ⊢
      cases hname : Capability.ofName? name with
      | none => exact hs
      | some k =>
          rw [hname] at hnever
          exact hs.looks hcoherent hdeployment (hcoherent.looks_getSegment c k) hnever
  | hint c operation =>
      exact hs.hints hcoherent hdeployment (hcoherent.hints_hint c operation) hnever
  | delete c =>
      exact hs.clears hcoherent hbudgeted hdeployment (hcoherent.clears_deleteSegments c) hnever
  | start order => exact hs.congr rfl fun n => Site.indexOpen_performAll_start _ _ n
  | stop order => exact hs.stopAll hnever
  | reset order => exact hs.reset hcoherent hnever

theorem Opened.after (hs : s.Opened budget) (hcoherent : s.Coherent created)
    (hbudgeted : s.Budgeted log) (hdeployment : s.manager.deployment = .inProcess settings)
    (e : Event W) (hnever : (s.after e).site.NeverStuck) : (s.after e).Opened budget := by
  cases e with
  | request q => exact hs.handle hcoherent hbudgeted hdeployment q hnever
  | enter rows => exact hs.congr rfl fun _ => rfl
  | withdraw c => exact hs.congr rfl fun _ => rfl
  | refuse text => exact hs.congr rfl fun _ => rfl
  | regroup members =>
      exact hs.congr (s.manager.openIndexes_withMembers members) fun _ => rfl
  | elapse change => exact hs.congr rfl fun _ => rfl

theorem tracking_inProcess {g : Registry} {m : Manager}
    (hm : Manager.inProcess settings g = .ok m) (hpersistent : settings.isPersistent = true) :
    m.Tracking (settings.handleLimit / Manager.handlesPerIndex settings m.kinds) := by
  obtain ⟨openIndexes, rfl, hsome, hlimits⟩ := Manager.inProcess_eq_ok hm
  obtain ⟨o, rfl⟩ := Option.ne_none_iff_exists'.mp (hsome hpersistent)
  have hwell := OpenIndexes.wellFormed_ofLimits (hlimits o rfl)
  obtain ⟨rfl, -, -⟩ := OpenIndexes.ofLimits_eq_ok (hlimits o rfl)
  exact ⟨_, rfl, hwell, rfl⟩

/-- Rows are withdrawn only after their collection was deleted.  Then, as long as
no call fails that releases an index, whatever else fails, the open indexes are
those of tracked instances after every history. -/
theorem opened_replay {g : Registry} {m : Manager} (hm : Manager.inProcess settings g = .ok m)
    (hpersistent : settings.isPersistent = true) (w : W) {events : List (Event W)}
    (hids : Event.NeverShared events) (htidy : (initial m w).Tidy events)
    (hnever : ((initial m w).replay events).site.NeverStuck) :
    ((initial m w).replay events).Opened
      (settings.handleLimit / Manager.handlesPerIndex settings m.kinds) := by
  revert hids htidy hnever
  induction events using List.reverseRecOn with
  | nil =>
      intro hids htidy hnever
      refine ⟨tracking_inProcess hm hpersistent, ?_⟩
      rintro n ⟨⟩
  | append_singleton events e ih =>
      intro hids htidy hnever
      have hcoherent := coherent_replay (.inProcess hm) w hids.of_append
      have hdeployment := deployment_replay hm w hids.of_append
      rw [replay_concat] at hnever ⊢
      have hbefore := hnever.of_append (hcoherent.ledger_noted rfl e).1
      have hbudgeted := budgeted_replay hm w hids.of_append htidy.of_append
        fun i => hbefore .delete i rfl
      exact (ih hids.of_append htidy.of_append hbefore).after hcoherent hbudgeted hdeployment e
        hnever

end System

end SegmentManager
