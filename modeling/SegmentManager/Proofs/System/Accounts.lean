import SegmentManager.Proofs.System.Coherence
import SegmentManager.Proofs.System.Ledger

/-!
# Which calls the operations make

Every operation accounts for its calls: they fit into a ledger that leads from
the instances that ran before to those that run afterwards.
-/

namespace SegmentManager.System

variable {W : Type}

def roster (s : System W) : Roster := ⟨s.manager.running?, none, s.site.built⟩

/-- The calls between two systems, made for a request, are a ledger. -/
def Accounts (own : Bool) (q : Request) (s s' : System W) : Prop :=
  ∃ calls : List Call, s'.site.journal = calls.reverse ++ s.site.journal ∧
    Ledger own s.roster (calls.map (q, ·)) s'.roster

variable [Backend W] {own : Bool} {q : Request} {s s' s'' : System W}

/-! ## Asking several instances -/

theorem ledger_passes {action : Action} (hpasses : q.Passes action) {t : Roster}
    (hidle : t.made = none) {targets : List Instance}
    (hruns : ∀ i ∈ targets, t.running i.record.id = some i) (site : Site W) :
    Ledger own t ((Site.asks action targets site).map (q, ·)) t := by
  induction targets generalizing site with
  | nil => exact .nil
  | cons i rest ih =>
      have hfirst := hruns i (List.mem_cons_self ..)
      have hrest := ih (fun j hj => hruns j (List.mem_cons_of_mem i hj))
        (site.perform action i).2
      exact (Ledger.single (.passed hidle hfirst hpasses)).append hrest

theorem ledger_ends {action : Action} (hends : q.Ends own action) {t t' : Roster}
    (hidle : t.made = none) (hidle' : t'.made = none) (hbuilt : t'.built = t.built)
    {targets : List Instance} (hruns : ∀ i ∈ targets, t.running i.record.id = some i)
    (hnodup : (targets.map (·.record.id)).Nodup)
    (hgone : ∀ segment, t'.running segment =
      if segment ∈ targets.map (·.record.id) then none else t.running segment)
    (site : Site W) : Ledger own t ((Site.asks action targets site).map (q, ·)) t' := by
  induction targets generalizing t site with
  | nil =>
      obtain ⟨running, made, built⟩ := t
      obtain ⟨running', made', built'⟩ := t'
      simp only at hidle hidle' hbuilt hgone
      subst hidle hidle' hbuilt
      obtain rfl : running' = running := by
        funext segment
        simpa using hgone segment
      exact .nil
  | cons i rest ih =>
      have hfirst := hruns i (List.mem_cons_self ..)
      obtain ⟨hnotMem, hrest⟩ := List.nodup_cons.mp hnodup
      have hleave : Ledger own (t.leave i.record.id)
          ((Site.asks action rest (site.perform action i).2).map (q, ·)) t' := by
        refine ih (t := t.leave i.record.id) hidle hbuilt ?_ hrest ?_ _
        · intro j hj
          have hne : j.record.id ≠ i.record.id := by
            intro heq
            exact hnotMem (List.mem_map.mpr ⟨j, hj, heq⟩)
          simp only [Roster.leave, if_neg hne]
          exact hruns j (List.mem_cons_of_mem i hj)
        · intro segment
          rw [hgone]
          simp only [Roster.leave, List.map_cons, List.mem_cons]
          grind
      exact (Ledger.single (.ended hidle hfirst hends)).append hleave

namespace Accounts

omit [Backend W] in
theorem trans (h : Accounts own q s s') (h' : Accounts own q s' s'') : Accounts own q s s'' := by
  obtain ⟨calls, hjournal, hledger⟩ := h
  obtain ⟨later, hjournal', hledger'⟩ := h'
  refine ⟨calls ++ later, ?_, ?_⟩
  · rw [hjournal', hjournal, List.reverse_append, List.append_assoc]
  · rw [List.map_append]
    exact hledger.append hledger'

omit [Backend W] in
theorem of_same (hjournal : s'.site.journal = s.site.journal) (hroster : s'.roster = s.roster) :
    Accounts own q s s' := by
  refine ⟨[], hjournal, ?_⟩
  rw [hroster]
  exact .nil

omit [Backend W] in
theorem roster_eq (hrunning : ∀ segment, s'.manager.running? segment = s.manager.running? segment)
    (hbuilt : s'.site.built = s.site.built) : s'.roster = s.roster := by
  unfold roster
  rw [hbuilt, funext hrunning]

theorem passes {action : Action} (hpasses : q.Passes action) {targets : List Instance}
    (hruns : ∀ i ∈ targets, s.manager.running? i.record.id = some i)
    (hsite : s'.site = (s.site.performAll action targets).2)
    (hrunning : ∀ segment, s'.manager.running? segment = s.manager.running? segment) :
    Accounts own q s s' := by
  have hroster : s'.roster = s.roster := by
    apply roster_eq hrunning
    rw [hsite, Site.built_performAll]
  refine ⟨Site.asks action targets s.site, ?_, ?_⟩
  · rw [hsite, Site.journal_performAll]
  · rw [hroster]
    exact ledger_passes hpasses rfl hruns s.site

theorem ends {action : Action} (hends : q.Ends own action) {targets : List Instance}
    (hruns : ∀ i ∈ targets, s.manager.running? i.record.id = some i)
    (hnodup : (targets.map (·.record.id)).Nodup)
    (hsite : s'.site = (s.site.performAll action targets).2)
    (hgone : ∀ segment, s'.manager.running? segment =
      if segment ∈ targets.map (·.record.id) then none else s.manager.running? segment) :
    Accounts own q s s' := by
  refine ⟨Site.asks action targets s.site, ?_, ?_⟩
  · rw [hsite, Site.journal_performAll]
  · apply ledger_ends hends rfl rfl _ hruns hnodup hgone
    change s'.site.built = s.site.built
    rw [hsite, Site.built_performAll]

end Accounts

/-! ## Launching -/

theorem Accounts.failed (hq : q.LooksUp) {m : Manager} {r : Record} {fault : Fault}
    {site : Site W} (habsent : s.manager.running? r.id = none)
    (hlaunch : launch m r s.site = (.error fault, site)) (hsite : s'.site = site)
    (hrunning : ∀ segment, s'.manager.running? segment = s.manager.running? segment) :
    Accounts own q s s' := by
  have hroster : ∀ built, s'.site.built = built →
      s'.roster = ⟨s.manager.running?, none, built⟩ := by
    rintro built rfl
    unfold roster
    rw [funext hrunning]
  subst hsite
  rcases launch_cases m r s.site with ⟨i, next, hend, -⟩ |
    ⟨fault', i, next, hend, hrecord, hserial, hbuilt, hjournal⟩ |
    ⟨fault', next, hend, hbuilt, hjournal⟩
  · rw [hend] at hlaunch
    cases hlaunch
  · rw [hend] at hlaunch
    obtain ⟨-, rfl⟩ := Prod.mk.inj hlaunch
    subst hrecord
    refine ⟨[.build i.record true, .act .start i false], hjournal, ?_⟩
    rw [hroster _ hbuilt]
    have hbuild : Books own s.roster (q, .build i.record true) _ :=
      .built hq rfl habsent hserial
    exact (Ledger.single hbuild).snoc (.unstarted rfl)
  · rw [hend] at hlaunch
    obtain ⟨-, rfl⟩ := Prod.mk.inj hlaunch
    rcases hjournal with hsame | hone
    · exact of_same hsame (hroster _ hbuilt)
    · refine ⟨[.build r false], hone, ?_⟩
      rw [hroster _ hbuilt]
      exact .single (.unbuilt hq rfl habsent)

theorem Accounts.launched (hq : q.LooksUp) {m : Manager} {r : Record} {i : Instance}
    {site : Site W} (habsent : s.manager.running? r.id = none)
    (hlaunch : launch m r s.site = (.ok i, site)) (hsite : s'.site = site)
    (hrunning : ∀ segment, s'.manager.running? segment =
      if segment = r.id then some i else s.manager.running? segment) :
    Accounts own q s s' := by
  subst hsite
  rcases launch_cases m r s.site with ⟨j, next, hend, hrecord, hserial, hbuilt, hjournal⟩ |
    ⟨fault, j, next, hend, -⟩ | ⟨fault, next, hend, -⟩
  · rw [hend] at hlaunch
    obtain ⟨hi, rfl⟩ := Prod.mk.inj hlaunch
    cases hi
    subst hrecord
    refine ⟨[.build i.record true, .act .start i true], hjournal, ?_⟩
    have hroster : s'.roster = Roster.enter
        { s.roster with made := some (q, i), built := s.site.built + 1 } i := by
      unfold roster Roster.enter
      rw [hbuilt, funext hrunning]
    rw [hroster]
    have hbuild : Books own s.roster (q, .build i.record true) _ :=
      .built hq rfl habsent hserial
    exact (Ledger.single hbuild).snoc (.started rfl)
  · rw [hend] at hlaunch
    cases hlaunch
  · rw [hend] at hlaunch
    cases hlaunch

theorem Loads.accounts {c : CollectionId} {k : Capability} (hq : q.LooksUp)
    {answer : Except Fault (Record × Instance)} (hload : Loads c k s answer s') :
    Accounts own q s s' := by
  have hfetching : ∀ segment,
      (s.fetching c k).manager.running? segment = s.manager.running? segment :=
    running?_fetching
  cases hload with
  | refused fault => exact .of_same rfl (Accounts.roster_eq hfetching rfl)
  | running hadmits hrunning => exact .of_same rfl (Accounts.roster_eq hfetching rfl)
  | failed hadmits habsent hlaunch => exact .failed hq habsent hlaunch rfl hfetching
  | launched hadmits habsent hlaunch =>
      apply Accounts.launched hq habsent hlaunch rfl
      intro segment
      exact Table.get?_insert s.manager.instances _ segment _

/-! ## Taking down -/

variable {created : List Record}

omit [Backend W] in
theorem Coherent.running_of_mem_targets (hs : s.Coherent created) {segments : List SegmentId}
    {i : Instance} (hi : i ∈ s.targets segments) :
    s.manager.running? i.record.id = some i := by
  obtain ⟨segment, -, hrunning⟩ := List.mem_filterMap.mp hi
  rw [(hs.manager.running segment i hrunning).1]
  exact hrunning

omit [Backend W] in
theorem Coherent.ids_targets (hs : s.Coherent created) (segments : List SegmentId) :
    (s.targets segments).map (·.record.id) = segments.filter s.manager.isRunning := by
  induction segments with
  | nil => rfl
  | cons segment rest ih =>
      rw [targets_cons, List.map_append, ih, List.filter_cons, isRunning_eq]
      cases hrunning : s.manager.running? segment with
      | none => rfl
      | some i =>
          have hid := (hs.manager.running segment i hrunning).1
          simp [hid]

theorem Coherent.accounts_takenDown (hs : s.Coherent created) {action : Action}
    (hends : q.Ends own action) {visited : List SegmentId} (hnodup : visited.Nodup)
    (hsite : s'.site = (s.site.performAll action (s.targets visited)).2)
    (hgone : ∀ segment, s'.manager.running? segment =
      if segment ∈ visited then none else s.manager.running? segment) :
    Accounts own q s s' := by
  apply Accounts.ends hends (fun i hi => hs.running_of_mem_targets hi) _ hsite
  · intro segment
    rw [hgone, hs.ids_targets]
    simp only [List.mem_filter, isRunning_eq]
    cases s.manager.running? segment <;> simp
  · rw [hs.ids_targets]
    exact hnodup.filter _

theorem site_evictAll {gone : List (CollectionId × Record)}
    (hnodup : (gone.map (·.2.id)).Nodup) (s : System W) :
    (s.evictAll gone).site =
      (s.site.performAll .stop (s.targets (gone.map (·.2.id)))).2 := by
  induction gone generalizing s with
  | nil => rfl
  | cons e rest ih =>
      obtain ⟨hnotMem, hrest⟩ := List.nodup_cons.mp hnodup
      have hlater : (s.evict e.1 e.2).targets (rest.map (·.2.id)) =
          s.targets (rest.map (·.2.id)) := by
        apply targets_congr
        intro segment hsegment
        rw [running?_evict, if_neg]
        rintro rfl
        exact hnotMem hsegment
      rw [evictAll_cons, ih hrest, site_evict, hlater, List.map_cons, targets_cons,
        Site.performAll_append_snd]

theorem Coherent.nodup_displaced (hs : s.Coherent created) (r : Record) (k : Capability) :
    ((s.displaced r k.scope).map (·.2.id)).Nodup := by
  have hplaces := RecordCache.nodup_evicted (hs.manager.wellFormed.records k) r.collection r
    (s.footprint r)
  have hpairs : (s.displaced r k.scope).Pairwise (fun e e' => e.1 ≠ e'.1) :=
    List.pairwise_map.mp hplaces
  apply List.pairwise_map.mpr
  apply hpairs.imp_of_mem
  intro e e' he he' hne hid
  have hcached := (mem_displaced r k hs.manager.wellFormed he).2
  have hcached' := (mem_displaced r k hs.manager.wellFormed he').2
  exact hne (hs.manager.place_eq hs.distinct hcached hcached' hid).2

theorem Coherent.accounts_remember (hs : s.Coherent created)
    (hown : s.manager.deployment.ownProcess = own) (hq : q.LooksUp) (r : Record)
    (k : Capability) : Accounts own q s (s.remember r k.scope) := by
  have hcaching : ∀ segment,
      (s.caching r k.scope).manager.running? segment = s.manager.running? segment := by
    intro segment
    unfold Manager.running? caching
    simp only [Manager.instances_withRecords]
  cases own with
  | true =>
      apply hs.accounts_takenDown (.evicted hq) (hs.nodup_displaced r k)
      · rw [remember_eq, site_evictAll (hs.nodup_displaced r k)]
        rw [targets_congr fun segment _ => hcaching segment]
        rfl
      · exact running?_remember r k s
  | false =>
      -- Proxies are cached without a limit, so nothing is ever displaced.
      have hnone := hs.displaced_of_unlimited (Deployment.limit?_of_remote hown k) r
      rw [remember_eq, hnone, evictAll_nil]
      exact .of_same rfl (Accounts.roster_eq hcaching rfl)

/-! ## Whole requests -/

theorem Coherent.accounts_looks (hs : s.Coherent created)
    (hown : s.manager.deployment.ownProcess = own) (hq : q.LooksUp) {c : CollectionId}
    {k : Capability} {answer : Except Fault Instance} (hlook : Looks c k s answer s') :
    Accounts own q s s' := by
  cases hlook with
  | cached hcached hrunning =>
      refine .of_same rfl (Accounts.roster_eq ?_ rfl)
      intro segment
      unfold Manager.running?
      rw [instances_consult]
  | failed habsent hload => exact hload.accounts hq
  | loaded habsent hload =>
      obtain ⟨hloaded, -, -⟩ := hs.loads habsent hload
      have hown' := hload.sameSetup.deployment
      exact (hload.accounts hq).trans
        (hloaded.accounts_remember ((congrArg _ hown').trans hown) hq _ k)

theorem Coherent.accounts_tracks (hs : s.Coherent created) {c : CollectionId} {i : Instance}
    (hserving : s.manager.Serving .vectorReader c i) {answer : Except Fault Unit}
    (htracks : Tracks c i s answer s') (d : CollectionId) (operation : Operation) :
    Accounts own (.hint d operation) s s' := by
  have hopened : ∀ s₁ : System W, s₁.site = (s.perform .openIndex i).2.site →
      (∀ segment, s₁.manager.running? segment = s.manager.running? segment) →
      Accounts own (.hint d operation) s s₁ := by
    intro s₁ hsite hrunning
    have hruns' : ∀ j ∈ [i], s.manager.running? j.record.id = some j := by
      intro j hj
      rw [List.mem_singleton.mp hj]
      exact hs.running_of_serving hserving
    exact .passes (.openIndex d operation) hruns' hsite hrunning
  cases htracks with
  | skipped => exact .of_same rfl rfl
  | refused hpersistent hperform => exact hopened _ rfl fun segment => rfl
  | tracked hbefore hpersistent hperform =>
      rename_i o undersized counters
      apply (hopened (s.perform .openIndex i).2 rfl fun segment => rfl).trans
      refine .passes (.closeIndex d operation) ?_ (Site.closeAll_eq _ _) fun segment => rfl
      intro j hj
      obtain ⟨e, he, rfl⟩ := List.mem_map.mp (List.mem_filter.mp hj).1
      have hopen := hs.manager.wellFormed.openIndexes o hbefore
      have hfound := (RecencyCache.peek?_of_mem_evicted hopen.distinct he).2
      have htracked : s.manager.tracked? e.1 = some e.2 := by
        unfold Manager.tracked?
        rw [hbefore]
        exact hfound
      exact hs.running_of_serving (hs.manager.tracked e.1 e.2 htracked)

theorem Coherent.accounts_hints (hs : s.Coherent created)
    (hown : s.manager.deployment.ownProcess = own) {c : CollectionId}
    {answer : Except Fault Unit} (hhints : Hints c s answer s') (operation : Operation) :
    Accounts own (.hint c operation) s s' := by
  have hq : (Request.hint c operation).LooksUp := trivial
  cases hhints with
  | remote hdeployment => exact .of_same rfl rfl
  | first hfirst => exact hs.accounts_looks hown hq hfirst
  | second hfirst hsecond =>
      have hown' := (congrArg _ hfirst.sameSetup.deployment).trans hown
      exact (hs.accounts_looks hown hq hfirst).trans
        ((hs.looks hfirst).1.accounts_looks hown' hq hsecond)
  | both hfirst hsecond hlast =>
      have hown' := (congrArg _ hfirst.sameSetup.deployment).trans hown
      obtain ⟨hlooked, hserving⟩ := (hs.looks hfirst).1.looks hsecond
      exact ((hs.accounts_looks hown hq hfirst).trans
        ((hs.looks hfirst).1.accounts_looks hown' hq hsecond)).trans
          (hlooked.accounts_tracks (hserving _ rfl) hlast c operation)

theorem Coherent.accounts_clears (hs : s.Coherent created)
    (hown : s.manager.deployment.ownProcess = own) {c : CollectionId}
    {answer : Except Fault (List SegmentId)} (hclears : Clears c s answer s') :
    Accounts own (.delete c) s s' := by
  have hnodup := hs.nodup_rowsOf c
  cases hclears with
  | refused hrefusal => exact .of_same rfl rfl
  | released hdeployment hdown =>
      rw [hdeployment] at hown
      subst hown
      exact hs.accounts_takenDown (.released c) hnodup hdown.site hdown.running
  | deleted hdeployment hdeletes =>
      rw [hdeployment] at hown
      subst hown
      cases hdeletes with
      | complete hok hdown =>
          exact hs.accounts_takenDown (.deleted c) hnodup hdown.site hdown.running
      | broken hsplit hrunning hok hfails hdown =>
          rename_i before after failed i cause
          have hfailed : s.manager.running? failed = some i := hrunning
          have hasked : s.targets (before ++ [failed]) = s.targets before ++ [i] := by
            rw [targets_append, targets_cons_of_running hfailed]
            rfl
          rw [hsplit, List.append_cons, List.nodup_append] at hnodup
          apply hs.accounts_takenDown (.deleted c) hnodup.1
          · rw [hasked]
            exact hdown.site
          · exact hdown.running

theorem Coherent.accounts_performAll (hs : s.Coherent created) {action : Action}
    (hpasses : q.Passes action) (order : List SegmentId) :
    Accounts own q s (s.performAll action (s.manager.instances.visited order)).2 :=
  .passes hpasses (fun _ hi => (hs.mem_visited_iff order).mp hi) rfl fun _ => rfl

theorem Coherent.accounts_reset (hs : s.Coherent created) (order : List SegmentId) :
    Accounts own (.reset order) s (s.reset order).2 := by
  have hids := hs.ids_visited order
  refine .ends (.reset order) (fun i hi => (hs.mem_visited_iff order).mp hi) ?_ rfl ?_
  · rw [hids.nodup_iff]
    exact hs.manager.wellFormed.instances
  · intro segment
    have hnone : (s.reset order).2.manager.running? segment = none := rfl
    rw [hnone]
    simp only [hids.mem_iff]
    split
    · rfl
    · rename_i hkey
      rw [← Table.contains_iff] at hkey
      exact (Option.not_isSome_iff_eq_none.mp hkey).symm

theorem Coherent.accounts_handle (hs : s.Coherent created)
    (hown : s.manager.deployment.ownProcess = own) (q : Request) :
    Accounts own q s (s.handle q).2 := by
  cases q with
  | get c k => exact hs.accounts_looks hown trivial (hs.looks_getSegment c k)
  | getNamed c name =>
      have hnamed : Accounts own (.getNamed c name) s (s.getSegmentNamed c name).2 := by
        unfold System.getSegmentNamed
        cases Capability.ofName? name with
        | none => exact .of_same rfl rfl
        | some k => exact hs.accounts_looks hown trivial (hs.looks_getSegment c k)
      exact hnamed
  | hint c operation => exact hs.accounts_hints hown (hs.hints_hint c operation) operation
  | delete c => exact hs.accounts_clears hown (hs.clears_deleteSegments c)
  | start order => exact hs.accounts_performAll (.start order) order
  | stop order => exact hs.accounts_performAll (.stop order) order
  | reset order => exact hs.accounts_reset order

end SegmentManager.System
