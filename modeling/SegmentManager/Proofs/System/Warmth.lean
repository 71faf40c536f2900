import SegmentManager.Proofs.System.Hinted
import SegmentManager.Proofs.System.Statistics

/-!
# What a hint warms and what it cools

A hint leaves both segments of its collection served from the caches and the index of
the vectors open.  It may do so at the cost of others, in two ways that do not mix: for
want of memory instances are stopped and forgotten, and for want of handles one index
is closed, whose instance runs on and is found again.
-/

namespace SegmentManager

open Manager

/-- Both segments of a collection are served from the caches.  If the vectors have an
index, it is open, and the collection is the latest one that is tracked. -/
structure System.Warm {W : Type} (c : CollectionId) (s : System W) : Prop where
  served : ∀ k, ∃ i, s.manager.Serving k c i
  opened : ∀ i, s.manager.Serving .vectorReader c i → i.views.persistentIndex = true →
    s.site.indexOpen i.serial = true ∧ s.manager.tracked? c = some i ∧
      s.manager.collections.getLast? = some c

namespace System

variable {W : Type} [Backend W] {created : List Record} {s s' : System W} {c d : CollectionId}
  {k : Capability} {i j : Instance} {settings : Settings} {budget : Nat}
  {hints : List CollectionId} {calls : List Noted} {operation : Operation}

/-- The collections that a hint stops tracking for want of handles, after both
segments were looked up. -/
def givenUp (c : CollectionId) (operation : Operation) (s : System W) : List CollectionId :=
  (s.lookedUp c).manager.collections.filter
    (· ∉ (s.hint c operation).2.manager.collections)

/-- What becomes of a collection whose index a hint closes for want of handles.  It was
the one hinted longest ago.  Its instance `j` is asked to close the index and nothing
else, runs on and stays cached, as whatever else served the collection does; it is found
again without a call or a fetch, and the next hint that succeeds opens its index again. -/
structure Cooled (hints : List CollectionId) (c : CollectionId) (operation : Operation)
    (d : CollectionId) (j : Instance) (s s' : System W) : Prop where
  tracked : s.manager.tracked? d = some j
  oldest : ∀ e ∈ s.manager.collections, e ≠ d → HintedSince hints d e
  closed : ∃ ok, callsOn j (s.noted (.request (.hint c operation))) =
      [⟨.hint c operation, .closeIndex, ok⟩] ∧
    (ok = true → s'.site.indexOpen j.serial = false)
  served : s'.manager.Serving .vectorReader d j
  serving : ∀ k i, s.manager.Serving k d i → s'.manager.Serving k d i
  found : ∃ s'', s'.getSegment d .vectorReader = (.ok j, s'') ∧ s''.site = s'.site ∧
    s''.catalog = s'.catalog ∧ s''.manager.counters.fetches = s'.manager.counters.fetches
  reopened : ∀ operation', (s'.hint d operation').1 = .ok () →
    (s'.hint d operation').2.site.indexOpen j.serial = true

/-! ## The calls of a hint -/

theorem Coherent.accounts_lookedUp (hs : s.Coherent created)
    (hdeployment : s.manager.deployment = .inProcess settings) (c : CollectionId) :
    Accounts true (.get c .vectorReader) s (s.lookedUp c) := by
  have hfirst := hs.looks_getSegment c .metadataReader
  have hs₁ := hs.getSegment c .metadataReader
  have hown : ∀ {s' : System W}, Manager.SameSetup s.manager s'.manager →
      s'.manager.deployment.ownProcess = true := by
    intro s' hsetup
    rw [hsetup.deployment, hdeployment]
    rfl
  have hq : (Request.get c .vectorReader).LooksUp := trivial
  exact (hs.accounts_looks (hown (.refl _)) hq hfirst).trans
    (hs₁.accounts_looks (hown hfirst.sameSetup) hq (hs₁.looks_getSegment c .vectorReader))

theorem Coherent.deployment_lookedUp (hs : s.Coherent created)
    (hdeployment : s.manager.deployment = .inProcess settings) (c : CollectionId) :
    (s.lookedUp c).manager.deployment = .inProcess settings := by
  have hfirst := (hs.looks_getSegment c .metadataReader).sameSetup
  have hsecond := ((hs.getSegment c .metadataReader).looks_getSegment c .vectorReader).sameSetup
  exact (hfirst.trans hsecond).deployment.trans hdeployment

omit [Backend W] in
theorem eq_of_running_serial (hbooked : Booked true calls s.roster)
    (hi : s.manager.running? i.record.id = some i) (hj : s.manager.running? j.record.id = some j)
    (hserial : i.serial = j.serial) : i = j :=
  hbooked.same i j ((hbooked.running_iff i).mp hi).ne_nil ((hbooked.running_iff j).mp hj).ne_nil
    hserial

omit [Backend W] in
/-- Lookups leave instances alone that run before and afterwards. -/
theorem untouched_of_accounts (hledger : Ledger true .empty calls s.roster)
    (haccounts : Accounts true (.get c k) s s') :
    ∃ later : List Call, s'.site.journal = later.reverse ++ s.site.journal ∧
      Booked true (calls ++ later.map (Request.get c k, ·)) s'.roster ∧
      ∀ j, s.manager.running? j.record.id = some j → s'.manager.running? j.record.id = some j →
        ∀ action ok, Call.act action j ok ∉ later := by
  obtain ⟨later, hjournal, hlater⟩ := haccounts
  have hbooked := Booked.of_ledger hledger
  have hbooked' := Booked.of_ledger (hledger.append hlater)
  refine ⟨later, hjournal, hbooked', ?_⟩
  intro j hbefore hafter action ok hmem
  have hlive := (hbooked.running_iff j).mp hbefore
  have hlive' := (hbooked'.running_iff j).mp hafter
  rw [callsOn_append] at hlive'
  have hcalled : (⟨.get c k, action, ok⟩ : Asked) ∈ callsOn j (later.map (Request.get c k, ·)) :=
    mem_callsOn_iff.mpr (List.mem_map_of_mem hmem)
  -- no call of a lookup is one that an instance gets while it runs
  cases hlive.passes_of_append hlive' _ hcalled

omit [Backend W] in
theorem callsOn_eq_nil {later : List Call} (q : Request)
    (hnone : ∀ action ok, Call.act action j ok ∉ later) : callsOn j (later.map (q, ·)) = [] := by
  apply List.eq_nil_iff_forall_not_mem.mpr
  intro a ha
  obtain ⟨call, hcall, heq⟩ := List.mem_map.mp (mem_callsOn_iff.mp ha)
  obtain ⟨-, rfl⟩ := Prod.mk.inj heq
  exact hnone a.action a.ok hcall

/-! ## What is served -/

omit [Backend W] in
theorem Coherent.eq_of_serving (hs : s.Coherent created)
    (hdeployment : s.manager.deployment = .inProcess settings)
    (hi : s.manager.Serving k d i) (hi' : s.manager.Serving k c i) : d = c :=
  (hs.collection_of_serving hdeployment hi).symm.trans (hs.collection_of_serving hdeployment hi')

theorem Tracks.unchanged {answer : Except Fault Unit} (htracks : Tracks c i s answer s') :
    (∀ k d, s'.manager.cached? k d = s.manager.cached? k d) ∧
      ∀ segment, s'.manager.running? segment = s.manager.running? segment := by
  cases htracks with
  | skipped => exact ⟨fun _ _ => rfl, fun _ => rfl⟩
  | refused hpersistent hperform => exact ⟨fun _ _ => rfl, fun _ => rfl⟩
  | tracked hbefore hpersistent hperform =>
      refine ⟨?_, fun _ => rfl⟩
      intro k d
      cases k <;> rfl

theorem Coherent.unchanged_hint (hs : s.Coherent created)
    (hdeployment : s.manager.deployment = .inProcess settings)
    (hok : (s.hint c operation).1 = .ok ()) :
    (∀ k d, (s.hint c operation).2.manager.cached? k d = (s.lookedUp c).manager.cached? k d) ∧
      ∀ segment, (s.hint c operation).2.manager.running? segment =
        (s.lookedUp c).manager.running? segment := by
  obtain ⟨i, j, s₁, -, -, hend⟩ := hs.hint_eq_ok hdeployment hok
  rw [hend]
  exact (tracks_trackIndex c j (s.lookedUp c)).unchanged

theorem Coherent.serving_hint_iff (hs : s.Coherent created)
    (hdeployment : s.manager.deployment = .inProcess settings)
    (hok : (s.hint c operation).1 = .ok ()) (k : Capability) (d : CollectionId) (i : Instance) :
    (s.hint c operation).2.manager.Serving k d i ↔ (s.lookedUp c).manager.Serving k d i := by
  obtain ⟨hcached, hrunning⟩ := hs.unchanged_hint hdeployment hok
  unfold Manager.Serving
  simp only [hcached, hrunning]

theorem Coherent.displaced_metadata (hs : s.Coherent created)
    (hdeployment : s.manager.deployment = .inProcess settings) (r : Record) :
    s.displaced r Capability.metadataReader.scope = [] := by
  apply hs.displaced_of_unlimited
  rw [hdeployment]
  rfl

theorem Coherent.serving_of_metadata (hs : s.Coherent created)
    (hdeployment : s.manager.deployment = .inProcess settings) {answer : Except Fault Instance}
    (hlook : Looks c .metadataReader s answer s') (hd : d ≠ c)
    (hserving : s.manager.Serving k d i) : s'.manager.Serving k d i := by
  cases k with
  | vectorReader => exact hs.serving_of_looks hlook (by decide) hserving
  | metadataReader =>
      obtain ⟨r, hcached, hrunning⟩ := hserving
      refine hs.serving_of_cached hlook hrunning ?_
      cases hlook with
      | cached hcached' hrunning' =>
          exact (cached?_consult c d .metadataReader .metadataReader s).trans hcached
      | failed habsent hload =>
          exact ((hs.loads habsent hload).2.1.cached? .metadataReader d).trans hcached
      | loaded habsent hload =>
          obtain ⟨hloaded, hcaches, hok⟩ := hs.loads habsent hload
          have hnone := hloaded.displaced_metadata
            (hload.sameSetup.deployment.trans hdeployment)
          rw [cached?_remember _ .metadataReader hloaded.manager.wellFormed, if_pos rfl, if_neg,
            if_neg, hcaches.cached?]
          · exact hcached
          · rw [hnone]
            exact List.not_mem_nil
          · rw [(hok _ _ rfl).1.collection]
            exact hd

theorem Looks.eq_of_serving (hlook : Looks c k s (.ok i) s') (hserving : s.manager.Serving k c j) :
    i = j := by
  cases hlook with
  | cached hcached hrunning => exact serving_unique ⟨_, hcached, hrunning⟩ hserving
  | loaded habsent hload =>
      obtain ⟨r, hcached, -⟩ := hserving
      rw [habsent] at hcached
      cases hcached

theorem Coherent.serving_hint (hs : s.Coherent created)
    (hdeployment : s.manager.deployment = .inProcess settings)
    (hok : (s.hint c operation).1 = .ok ()) (hserving : s.manager.Serving .vectorReader c j) :
    (s.hint c operation).2.manager.Serving .vectorReader c j := by
  obtain ⟨i, j', s₁, hfirst, hsecond, -⟩ := hs.hint_eq_ok hdeployment hok
  have hs₁ := (hs.looks hfirst).1
  have hsame := hsecond.eq_of_serving (hs.serving_of_looks hfirst (by decide) hserving)
  rw [hs.serving_hint_iff hdeployment hok, ← hsame]
  exact (hs₁.looks hsecond).2 j' rfl

/-- A collection that is no longer tracked once another one was looked up went with its
vectors. -/
theorem Coherent.evicted_of_looks (hs : s.Coherent created)
    (hdeployment : s.manager.deployment = .inProcess settings) {answer : Except Fault Instance}
    (hlook : Looks c k s answer s') (htracked : s.manager.tracked? d = some j)
    (hgone : s'.manager.tracked? d = none) :
    k = .vectorReader ∧ s'.manager.cached? .vectorReader d = none ∧
      s'.manager.running? j.record.id = none := by
  have hlost : s'.manager.openIndexes ≠ s.manager.openIndexes := by
    intro hsame
    unfold Manager.tracked? at htracked hgone
    rw [hsame, htracked] at hgone
    cases hgone
  cases hlook with
  | cached hcached hrunning => exact (hlost (openIndexes_consult c k.scope s)).elim
  | failed habsent hload => exact (hlost (hs.loads habsent hload).2.1.openIndexes).elim
  | loaded habsent hload =>
      rename_i r i s₁
      obtain ⟨hloaded, hcaches, hok⟩ := hs.loads habsent hload
      have hbefore : s₁.manager.tracked? d = some j := (hcaches.tracked? d).trans htracked
      have hmem : d ∈ (s₁.displaced r k.scope).map (·.1) := by
        by_contra hstays
        rw [tracked?_remember, if_neg hstays, hbefore] at hgone
        cases hgone
      obtain ⟨e, he, rfl⟩ := List.mem_map.mp hmem
      obtain ⟨hother, hcached⟩ := mem_displaced r k hloaded.manager.wellFormed he
      cases k with
      | metadataReader =>
          rw [hloaded.displaced_metadata (hload.sameSetup.deployment.trans hdeployment)] at he
          cases he
      | vectorReader =>
          obtain ⟨r', hcached', hrunning⟩ := hloaded.manager.tracked e.1 j hbefore
          obtain rfl := Option.some.inj (hcached'.symm.trans hcached)
          refine ⟨rfl, ?_, ?_⟩
          · rw [cached?_remember _ .vectorReader hloaded.manager.wellFormed, if_pos rfl,
              if_neg hother, if_pos hmem]
          · rw [running?_remember, (hloaded.manager.running _ j hrunning).1,
              if_pos (List.mem_map_of_mem he)]

/-! ## Whose index is closed -/

theorem TrackedFor.givenUp {gone : List CollectionId} {o o' : OpenIndexes}
    (h : TrackedFor c i gone o o' s s') (hs : s.manager.Tracking budget) :
    s.manager.collections.filter (· ∉ s'.manager.collections) = gone := by
  rcases h.cases.2 with ⟨rfl, -, hafter⟩ | ⟨d, j, rest, rfl, -, hnew, -, hbefore, -, hafter⟩
  · rw [hafter, List.filter_eq_nil_iff]
    intro d hd
    by_cases hc : d = c
    · simp [hc]
    · simp [hc, hd]
  · have hdistinct := nodup_collections hs
    rw [hbefore] at hdistinct hnew
    obtain ⟨hd, -⟩ := List.nodup_cons.mp hdistinct
    have hother : d ≠ c := by
      rintro rfl
      exact hnew List.mem_cons_self
    rw [hafter, hbefore, List.filter_cons_of_pos (by simp [hd, hother]), List.filter_eq_nil_iff.mpr]
    intro e he
    simp [he]

theorem Coherent.hint_tracks (hs : s.Coherent created)
    (hdeployment : s.manager.deployment = .inProcess settings)
    (htracking : s.manager.Tracking budget) (hok : (s.hint c operation).1 = .ok ()) :
    ∃ i j s₁, Looks c .metadataReader s (.ok i) s₁ ∧
      Looks c .vectorReader s₁ (.ok j) (s.lookedUp c) ∧
      (j.views.persistentIndex = false ∧ (s.hint c operation).2 = s.lookedUp c ∧
          s.givenUp c operation = [] ∨
        ∃ o o', TrackedFor c j (s.givenUp c operation) o o' (s.lookedUp c)
          (s.hint c operation).2) := by
  obtain ⟨i, j, s₁, hfirst, hsecond, hend⟩ := hs.hint_eq_ok hdeployment hok
  obtain ⟨-, hless, -, -⟩ := hs.lookedUp hfirst hsecond
  have htracking₂ := hless.tracking htracking
  refine ⟨i, j, s₁, hfirst, hsecond, ?_⟩
  unfold givenUp
  rw [hend] at hok ⊢
  rcases trackIndex_cases htracking₂ hok with ⟨hviews, hsame⟩ | ⟨gone, o, o', htracked⟩
  · refine .inl ⟨hviews, hsame, ?_⟩
    rw [hsame]
    simp
  · rw [htracked.givenUp htracking₂]
    exact .inr ⟨o, o', htracked⟩

/-- The index that was opened stays open, unless it is also that of the collection which
had to go. -/
theorem TrackedFor.opened {gone : List CollectionId} {o o' : OpenIndexes}
    (h : TrackedFor c i gone o o' s s')
    (hown : ∀ d j, s.manager.tracked? d = some j → j.serial = i.serial → d = c) :
    s'.site.indexOpen i.serial = true ∧ s'.manager.tracked? c = some i ∧
      s'.manager.collections.getLast? = some c := by
  obtain ⟨hopen, hcases⟩ := h.cases
  have hopened : (s.site.perform .openIndex i).2.indexOpen i.serial = true := by
    rw [Site.indexOpen_perform, hopen, if_pos ⟨rfl, rfl⟩]
    rfl
  have htracked : s'.manager.tracked? c = some i := by rw [h.tracked?, if_pos rfl]
  rcases hcases with ⟨-, hsite, hafter⟩ | ⟨d, j, rest, -, hsite, hnew, -, -, hj, hafter⟩
  · rw [hsite, hafter, List.getLast?_concat]
    exact ⟨hopened, htracked, rfl⟩
  · have hother : j.serial ≠ i.serial := by
      intro hserial
      rw [hown d j hj hserial] at hj
      exact hnew (mem_collections_iff.mpr ⟨j, hj⟩)
    rw [hsite, hafter, List.getLast?_concat, Site.indexOpen_perform, if_neg fun h => hother h.2]
    exact ⟨hopened, htracked, rfl⟩

theorem Coherent.warm_hint (hs : s.Coherent created)
    (hdeployment : s.manager.deployment = .inProcess settings)
    (htracking : s.manager.Tracking budget) (hledger : Ledger true .empty calls s.roster)
    (hok : (s.hint c operation).1 = .ok ()) : (s.hint c operation).2.Warm c := by
  obtain ⟨i, j, s₁, hfirst, hsecond, hcases⟩ := hs.hint_tracks hdeployment htracking hok
  obtain ⟨hs₂, -, hserving, hserving'⟩ := hs.lookedUp hfirst hsecond
  obtain ⟨later, -, hbooked, -⟩ :=
    untouched_of_accounts hledger (hs.accounts_lookedUp hdeployment c)
  have hdeployment₂ := hs.deployment_lookedUp hdeployment c
  have hsame := hs.serving_hint_iff hdeployment hok
  refine ⟨?_, ?_⟩
  · intro k
    cases k with
    | metadataReader => exact ⟨i, (hsame _ c i).mpr hserving'⟩
    | vectorReader => exact ⟨j, (hsame _ c j).mpr hserving⟩
  · intro i' hi' hviews
    obtain rfl := serving_unique ((hsame _ c i').mp hi') hserving
    rcases hcases with ⟨hnone, -⟩ | ⟨o, o', htracked⟩
    · rw [hviews] at hnone
      cases hnone
    · apply htracked.opened
      intro d j hj hserial
      -- one serial number stands for one instance, which serves one collection
      obtain rfl := eq_of_running_serial hbooked (hs₂.tracked_runs hj)
        (hs₂.running_of_serving hserving) hserial
      exact hs₂.eq_of_serving hdeployment₂ (hs₂.manager.tracked d j hj) hserving

theorem Coherent.indexOpen_hint (hs : s.Coherent created)
    (hdeployment : s.manager.deployment = .inProcess settings)
    (htracking : s.manager.Tracking budget) (hledger : Ledger true .empty calls s.roster)
    (hok : (s.hint c operation).1 = .ok ()) (hserving : s.manager.Serving .vectorReader c j)
    (hviews : j.views.persistentIndex = true) :
    (s.hint c operation).2.site.indexOpen j.serial = true := by
  have hwarm := hs.warm_hint hdeployment htracking hledger hok
  exact (hwarm.opened j (hs.serving_hint hdeployment hok hserving) hviews).1

/-! ## What becomes of a collection that is given up -/

theorem found_of_serving (hserving : s.manager.Serving .vectorReader d j) :
    ∃ s', s.getSegment d .vectorReader = (.ok j, s') ∧ s'.site = s.site ∧
      s'.catalog = s.catalog ∧ s'.manager.counters.fetches = s.manager.counters.fetches := by
  obtain ⟨r, hcached, hrunning⟩ := hserving
  refine ⟨_, getSegment_of_cached hcached hrunning, rfl, rfl, ?_⟩
  rw [counters_consult_of_cached hcached]

theorem Coherent.serving_lookedUp (hs : s.Coherent created)
    (hdeployment : s.manager.deployment = .inProcess settings) {i' j' : Instance} {s₁ : System W}
    (hfirst : Looks c .metadataReader s (.ok i') s₁)
    (hsecond : Looks c .vectorReader s₁ (.ok j') (s.lookedUp c)) (hd : d ≠ c)
    (htracked : (s.lookedUp c).manager.tracked? d = some j)
    (hserving : s.manager.Serving k d i) : (s.lookedUp c).manager.Serving k d i := by
  obtain ⟨hs₂, hless, -, -⟩ := hs.lookedUp hfirst hsecond
  cases k with
  | metadataReader =>
      exact (hs.looks hfirst).1.serving_of_looks hsecond (by decide)
        (hs.serving_of_metadata hdeployment hfirst hd hserving)
  | vectorReader =>
      have hbefore := hs.manager.tracked d j (hless.tracked d j htracked)
      rw [serving_unique hserving hbefore]
      exact hs₂.manager.tracked d j htracked

theorem Coherent.journal_displacing (hs : s.Coherent created)
    (hdeployment : s.manager.deployment = .inProcess settings)
    (hledger : Ledger true .empty calls s.roster)
    (hsite : (s.hint c operation).2.site =
      (((s.lookedUp c).site.perform .openIndex i).2.perform .closeIndex j).2)
    (hother : i ≠ j) (hbefore : s.manager.running? j.record.id = some j)
    (hafter : (s.lookedUp c).manager.running? j.record.id = some j) :
    callsOn j (s.noted (.request (.hint c operation))) = [⟨.hint c operation, .closeIndex,
      (((s.lookedUp c).site.perform .openIndex i).2.perform .closeIndex j).1.isOk⟩] := by
  obtain ⟨later, hjournal, -, huntouched⟩ :=
    untouched_of_accounts hledger (hs.accounts_lookedUp hdeployment c)
  have hnone := huntouched j hbefore hafter
  set opened := (s.lookedUp c).site.perform .openIndex i with hopened
  have hcalls : (s.hint c operation).2.site.journal =
      (later ++ [Call.act .openIndex i opened.1.isOk] ++
        [Call.act .closeIndex j (opened.2.perform .closeIndex j).1.isOk]).reverse ++
        s.site.journal := by
    rw [hsite, Site.journal_perform, hopened, Site.journal_perform, hjournal]
    simp
  change callsOn j (((s.hint c operation).2.site.callsAfter s.site.journal.length).map _) = _
  rw [Site.callsAfter_of_journal_eq hcalls, List.map_append, List.map_append, List.map_singleton,
    List.map_singleton, callsOn_act, if_pos rfl, callsOn_act, if_neg hother,
    callsOn_eq_nil _ hnone]
  rfl

theorem Coherent.handleEvictions_hint (hs : s.Coherent created)
    (hdeployment : s.manager.deployment = .inProcess settings)
    (htracking : s.manager.Tracking budget) (hok : (s.hint c operation).1 = .ok ()) :
    (s.givenUp c operation).length ≤ 1 ∧
      (s.hint c operation).2.manager.counters.handleEvictions =
        s.manager.counters.handleEvictions + (s.givenUp c operation).length := by
  obtain ⟨i, j, s₁, -, -, hcases⟩ := hs.hint_tracks hdeployment htracking hok
  have hlooked : (s.lookedUp c).manager.counters.handleEvictions =
      s.manager.counters.handleEvictions := by
    have hfirst := (counted_getSegment c .metadataReader s).closings
    have hsecond := (counted_getSegment c .vectorReader (s.getSegment c .metadataReader).2).closings
    exact hsecond.trans hfirst
  rcases hcases with ⟨-, hsame, hnone⟩ | ⟨o, o', htracked⟩
  · rw [hsame, hnone, hlooked]
    exact ⟨Nat.zero_le 1, rfl⟩
  · refine ⟨?_, by rw [htracked.manager, ← hlooked]⟩
    rcases htracked.cases.2 with ⟨hgone, -⟩ | ⟨d, j', rest, hgone, -⟩
    · rw [hgone]
      exact Nat.zero_le 1
    · rw [hgone]
      exact Nat.le_refl 1

theorem Coherent.cooled (hs : s.Coherent created)
    (hdeployment : s.manager.deployment = .inProcess settings)
    (hordered : s.manager.Ordered budget hints) (hledger : Ledger true .empty calls s.roster)
    (hok : (s.hint c operation).1 = .ok ()) (hd : d ∈ s.givenUp c operation) :
    ∃ j, Cooled hints c operation d j s (s.hint c operation).2 := by
  obtain ⟨i', i, s₁, hfirst, hsecond, hcases⟩ :=
    hs.hint_tracks hdeployment hordered.tracking hok
  obtain ⟨hs₂, hless, hserving, -⟩ := hs.lookedUp hfirst hsecond
  rcases hcases with ⟨-, -, hnone⟩ | ⟨o, o', htracked⟩
  · rw [hnone] at hd
    cases hd
  rcases htracked.cases.2 with ⟨hgone, -⟩ | ⟨d', j, rest, hgone, hsite, hnew, hfull, hbefore, hj, -⟩
  · rw [hgone] at hd
    cases hd
  rw [hgone] at hd
  obtain rfl := List.mem_singleton.mp hd
  have hother : d ≠ c := by
    rintro rfl
    exact hnew (mem_collections_iff.mpr ⟨j, hj⟩)
  have htracked₀ := hless.tracked d j hj
  -- an index is closed only where the budget is used up, so the lookups took out nothing
  have hkept : (s.lookedUp c).manager.collections = s.manager.collections := by
    apply hless.collections.eq_of_length_le
    rw [hfull, htracked.budget_before (hless.tracking hordered.tracking)]
    exact length_collections_le hordered.tracking
  have hserved : s.manager.Serving .vectorReader d j := hs.manager.tracked d j htracked₀
  have hlooked : ∀ {k i}, s.manager.Serving k d i → (s.lookedUp c).manager.Serving k d i :=
    hs.serving_lookedUp hdeployment hfirst hsecond hother hj
  have hstays : ∀ k i, s.manager.Serving k d i →
      (s.hint c operation).2.manager.Serving k d i :=
    fun k i hi => (hs.serving_hint_iff hdeployment hok k d i).mpr (hlooked hi)
  have hdistinct : i ≠ j := by
    rintro rfl
    exact hother (hs₂.eq_of_serving (hs.deployment_lookedUp hdeployment c) (hlooked hserved)
      hserving)
  have hserved' := hstays _ _ hserved
  refine ⟨j, htracked₀, ?_, ?_, hserved', hstays, found_of_serving hserved', ?_⟩
  · intro e he hne
    exact hordered.hintedSince (hkept.symm.trans hbefore) he hne
  · refine ⟨_, hs.journal_displacing hdeployment hledger hsite hdistinct
      (hs.tracked_runs htracked₀) (hs₂.tracked_runs hj), ?_⟩
    intro hclosed
    rw [hsite, Site.indexOpen_perform, if_pos ⟨hclosed, rfl⟩]
    rfl
  · intro operation' hagain
    have hs' := hs.hints (hs.hints_hint c operation)
    have hdeployment' := (hs.hints_hint c operation).sameSetup.deployment.trans hdeployment
    have hordered' := hs.ordered_hint hdeployment hordered (c := c) operation
    have hown : s.manager.deployment.ownProcess = true := by
      rw [hdeployment]
      rfl
    have hnoted := (hs.ledger_noted hown (.request (.hint c operation))).2
    exact hs'.indexOpen_hint hdeployment' hordered'.tracking (hledger.append hnoted) hagain
      hserved' (persistent_of_tracked hordered.tracking htracked₀)

/-- A collection that a hint stops tracking without giving it up was evicted for want
of memory. -/
theorem Coherent.evicted_of_hint (hs : s.Coherent created)
    (hdeployment : s.manager.deployment = .inProcess settings)
    (hok : (s.hint c operation).1 = .ok ()) (htracked : s.manager.tracked? d = some j)
    (hgone : (s.hint c operation).2.manager.tracked? d = none)
    (hkept : d ∉ s.givenUp c operation) :
    (s.hint c operation).2.manager.cached? .vectorReader d = none ∧
      (s.hint c operation).2.manager.running? j.record.id = none := by
  obtain ⟨i, i', s₁, hfirst, hsecond, -⟩ := hs.hint_eq_ok hdeployment hok
  have hlost : (s.lookedUp c).manager.tracked? d = none := by
    by_contra hstill
    apply hkept
    have hmem : d ∈ (s.lookedUp c).manager.collections :=
      mem_collections_iff.mpr (Option.ne_none_iff_exists'.mp hstill)
    have hnew : d ∉ (s.hint c operation).2.manager.collections := by
      intro hmem'
      obtain ⟨i, hi⟩ := mem_collections_iff.mp hmem'
      rw [hgone] at hi
      cases hi
    exact List.mem_filter.mpr ⟨hmem, decide_eq_true hnew⟩
  have htracked₁ : s₁.manager.tracked? d = some j := by
    cases hmiddle : s₁.manager.tracked? d with
    | none => cases (hs.evicted_of_looks hdeployment hfirst htracked hmiddle).1
    | some j' =>
        obtain rfl := Option.some.inj
          (((hs.dwindles_looks hfirst).tracked d j' hmiddle).symm.trans htracked)
        rfl
  obtain ⟨hcached, hrunning⟩ := hs.unchanged_hint hdeployment hok
  rw [hcached, hrunning]
  exact ((hs.looks hfirst).1.evicted_of_looks
    (hfirst.sameSetup.deployment.trans hdeployment) hsecond htracked₁ hlost).2

/-- In every history of a manager that keeps its segments, a hint that succeeds leaves
its collection warm.  At most one collection is given up for want of handles, and
counted: the one hinted longest ago, which is only cooled.  Any other collection that
is no longer tracked was evicted for want of memory. -/
theorem hints_warm_one_and_cool_the_oldest {g : Registry} {m : Manager}
    (hm : Manager.inProcess settings g = .ok m) (hpersistent : settings.isPersistent = true)
    (w : W) {events : List (Event W)} (hids : Event.NeverShared events) {c : CollectionId}
    {operation : Operation} (hok : (((initial m w).replay events).hint c operation).1 = .ok ()) :
    let s := (initial m w).replay events
    let s' := (s.hint c operation).2
    let gone := s.givenUp c operation
    s'.Warm c ∧
    gone.length ≤ 1 ∧
    s'.manager.counters.handleEvictions = s.manager.counters.handleEvictions + gone.length ∧
    (∀ d ∈ gone, ∃ j, Cooled ((initial m w).hinted events) c operation d j s s') ∧
    ∀ d j, s.manager.tracked? d = some j → s'.manager.tracked? d = none → d ∉ gone →
      s'.manager.cached? .vectorReader d = none ∧ s'.manager.running? j.record.id = none := by
  intro s s' gone
  have hs := coherent_replay (.inProcess hm) w hids
  have hdeployment := deployment_replay hm w hids
  have hordered := ordered_replay hm hpersistent w hids
  obtain ⟨hown, -, hledger⟩ := ledger_replay (.inProcess hm) w hids
  have hown' : m.deployment.ownProcess = true := by
    rw [← hown, hdeployment]
    rfl
  rw [hown'] at hledger
  obtain ⟨hone, hcounted⟩ := hs.handleEvictions_hint hdeployment hordered.tracking hok
  refine ⟨hs.warm_hint hdeployment hordered.tracking hledger hok, hone, hcounted, ?_, ?_⟩
  · intro d hd
    exact hs.cooled hdeployment hordered hledger hok hd
  · intro d j htracked hgone hkept
    exact hs.evicted_of_hint hdeployment hok htracked hgone hkept

open Simulation

def lukewarm : List (Event World) :=
  [.enter (numberedRows 0), .enter (numberedRows 1), .enter (numberedRows 2),
   .enter (numberedRows 3), vectorsWritten 0 6, vectorsWritten 1 1, vectorsWritten 2 1,
   vectorsWritten 3 7, .request (.get (numberedCollection 0).id .vectorReader),
   .request (.hint (numberedCollection 1).id .add),
   .request (.hint (numberedCollection 2).id .add)]

theorem fourth_collection_cools_the_second :
    ∃ m, Manager.inProcess crowdedSettings keeperRegistry = .ok m ∧
      crowdedSettings.isPersistent = true ∧ Event.NeverShared lukewarm ∧
      let c n := (numberedCollection n).id
      let s := (initial m keeperWorld).replay lukewarm
      let s' := (s.hint (c 3) .add).2
      (s.hint (c 3) .add).1 = .ok () ∧ s'.Warm (c 3) ∧ s.givenUp (c 3) .add = [c 1] ∧
      s'.manager.counters.handleEvictions = s.manager.counters.handleEvictions + 1 ∧
      s'.manager.counters.memoryEvictions = s.manager.counters.memoryEvictions + 1 ∧
      ∃ j, Cooled [c 1, c 2] (c 3) .add (c 1) j s s' := by
  have hids : Event.NeverShared lukewarm := by decide +kernel
  have hran : ∀ m, Manager.inProcess crowdedSettings keeperRegistry = .ok m →
      let c n := (numberedCollection n).id
      let s := (initial m keeperWorld).replay lukewarm
      (s.hint (c 3) .add).1.isOk = true ∧ s.givenUp (c 3) .add = [c 1] ∧
      (s.hint (c 3) .add).2.manager.counters.memoryEvictions =
        s.manager.counters.memoryEvictions + 1 ∧
      (initial m keeperWorld).hinted lukewarm = [c 1, c 2] := by
    rintro m ⟨⟩
    decide +kernel
  obtain ⟨m, hm⟩ : ∃ m, Manager.inProcess crowdedSettings keeperRegistry = .ok m := ⟨_, rfl⟩
  obtain ⟨hisOk, hgone, hmemory, hhinted⟩ := hran m hm
  have hok : (((initial m keeperWorld).replay lukewarm).hint (numberedCollection 3).id .add).1 =
      .ok () := by
    cases hanswer : (((initial m keeperWorld).replay lukewarm).hint
        (numberedCollection 3).id .add).1 with
    | error fault =>
        rw [hanswer] at hisOk
        cases hisOk
    | ok done => rfl
  obtain ⟨hwarm, -, hcounted, hcooled, -⟩ :=
    hints_warm_one_and_cool_the_oldest hm rfl keeperWorld hids hok
  rw [hgone] at hcounted hcooled
  rw [hhinted] at hcooled
  exact ⟨m, hm, rfl, hids, hok, hwarm, hgone, hcounted, hmemory,
    hcooled _ (List.mem_singleton_self _)⟩

end System

end SegmentManager
