import SegmentManager.Proofs.System.OpenIndexes

/-!
# The order in which collections were hinted

Only a hint that succeeds makes a manager track a collection, and it makes it the
latest one.  Everything else only takes collections out.  So the tracked collections
stand in the order of their latest successful hints, and the first of them is the one
that was hinted longest ago.
-/

namespace SegmentManager

namespace Manager

def collections (m : Manager) : List CollectionId := m.openIndexes.elim [] (·.collections)

structure Dwindles (m m' : Manager) : Prop where
  tracking : ∀ {budget : Nat}, m.Tracking budget → m'.Tracking budget
  collections : m'.collections.Sublist m.collections
  tracked : ∀ c i, m'.tracked? c = some i → m.tracked? c = some i

/-- The tracked collections are some of those hinted, in the order in which they were
hinted last. -/
structure Ordered (budget : Nat) (hints : List CollectionId) (m : Manager) : Prop where
  tracking : m.Tracking budget
  order : m.collections.Sublist hints.dedup

variable {m m' m'' : Manager} {c d : CollectionId} {budget : Nat} {hints : List CollectionId}

theorem mem_collections_iff : c ∈ m.collections ↔ ∃ i, m.tracked? c = some i := by
  unfold collections tracked?
  cases m.openIndexes with
  | none => simp
  | some o =>
      have hnone := RecencyCache.peek?_eq_none_iff o.tracked c
      change c ∈ o.tracked.keys ↔ ∃ i, o.tracked.peek? c = some i
      rw [← Option.ne_none_iff_exists', ne_eq, hnone, not_not]

theorem length_collections_le (hm : m.Tracking budget) : m.collections.length ≤ budget := by
  obtain ⟨o, ho, hwell, rfl⟩ := hm
  unfold collections
  rw [ho]
  exact (List.length_map _).trans_le hwell.count_le

theorem nodup_collections (hm : m.Tracking budget) : m.collections.Nodup := by
  obtain ⟨o, ho, hwell, -⟩ := hm
  unfold collections
  rw [ho]
  exact hwell.tracked.distinct

namespace Dwindles

theorem of_same (hindexes : m'.openIndexes = m.openIndexes) : m.Dwindles m' := by
  have htracked : ∀ c, m'.tracked? c = m.tracked? c := by
    intro c
    unfold tracked?
    rw [hindexes]
  refine ⟨?_, ?_, fun c i hi => (htracked c).symm.trans hi⟩
  · rintro budget ⟨o, ho, hwell⟩
    exact ⟨o, hindexes.trans ho, hwell⟩
  · unfold Manager.collections
    rw [hindexes]

theorem trans (h : m.Dwindles m') (h' : m'.Dwindles m'') : m.Dwindles m'' :=
  ⟨fun hm => h'.tracking (h.tracking hm), h'.collections.trans h.collections,
    fun c i hi => h.tracked c i (h'.tracked c i hi)⟩

theorem of_without (hindexes : m'.openIndexes = m.openIndexes.map (·.without c)) :
    m.Dwindles m' := by
  refine ⟨fun hm => System.tracking_without hm hindexes, ?_, ?_⟩
  · unfold Manager.collections
    rw [hindexes]
    cases m.openIndexes with
    | none => exact List.Sublist.refl []
    | some o =>
        have hkeys : (o.without c).collections = o.collections.filter (· ≠ c) :=
          RecencyCache.keys_drop o.tracked c
        change (o.without c).collections.Sublist o.collections
        rw [hkeys]
        exact List.filter_sublist
  · intro d i hi
    unfold tracked? at hi ⊢
    rw [hindexes] at hi
    cases ho : m.openIndexes with
    | none => simp [ho] at hi
    | some o =>
        rw [ho] at hi
        have hpeek : (o.tracked.drop c).peek? d = some i := hi
        rw [RecencyCache.peek?_drop] at hpeek
        split at hpeek
        · cases hpeek
        · exact hpeek

theorem of_clear (hindexes : m'.openIndexes = m.openIndexes.map (·.clear)) : m.Dwindles m' := by
  have hempty : m'.collections = [] := by
    unfold Manager.collections
    rw [hindexes]
    cases m.openIndexes <;> rfl
  refine ⟨?_, ?_, ?_⟩
  · rintro budget ⟨o, ho, hwell, hbudget⟩
    exact ⟨o.clear, by rw [hindexes, ho]; rfl, hwell.clear, hbudget⟩
  · rw [hempty]
    exact List.nil_sublist _
  · intro c i hi
    have hmem : c ∈ m'.collections := mem_collections_iff.mpr ⟨i, hi⟩
    rw [hempty] at hmem
    cases hmem

end Dwindles

theorem Ordered.dwindles (h : m.Ordered budget hints) (hless : m.Dwindles m') :
    m'.Ordered budget hints :=
  ⟨hless.tracking h.tracking, hless.collections.trans h.order⟩

theorem Ordered.order_concat (h : m.Ordered budget hints) {kept : List CollectionId}
    (hkept : kept.Sublist (m.collections.filter (· ≠ c))) :
    (kept ++ [c]).Sublist (hints ++ [c]).dedup := by
  rw [Tracking.dedup_concat]
  exact (hkept.trans (h.order.filter _)).append (List.Sublist.refl [c])

end Manager

/-! ## Requests -/

namespace System

open Manager

variable {W : Type} [Backend W] {created : List Record} {s s' : System W} {c : CollectionId}
  {k : Capability} {i : Instance} {settings : Settings} {budget : Nat}
  {hints : List CollectionId}

theorem dwindles_evictAll (gone : List (CollectionId × Record)) (s : System W) :
    s.manager.Dwindles (s.evictAll gone).manager := by
  induction gone generalizing s with
  | nil => exact .of_same rfl
  | cons e rest ih =>
      obtain ⟨counters, hmanager⟩ := manager_evict e.1 e.2 s
      have hfirst : s.manager.Dwindles (s.evict e.1 e.2).manager :=
        .of_without (c := e.1) (by rw [hmanager])
      exact hfirst.trans (ih _)

theorem dwindles_remember (r : Record) (k : Capability) (s : System W) :
    s.manager.Dwindles (s.remember r k.scope).manager := by
  have hcaching : s.manager.Dwindles (s.caching r k.scope).manager :=
    .of_same (openIndexes_withRecords _ _ _)
  exact hcaching.trans (dwindles_evictAll _ _)

theorem Coherent.dwindles_looks (hs : s.Coherent created) {answer : Except Fault Instance}
    (hlook : Looks c k s answer s') : s.manager.Dwindles s'.manager := by
  cases hlook with
  | cached hcached hrunning => exact .of_same (openIndexes_consult c k.scope s)
  | failed habsent hload => exact .of_same (hs.loads habsent hload).2.1.openIndexes
  | loaded habsent hload =>
      have hloaded : s.manager.Dwindles _ := .of_same (hs.loads habsent hload).2.1.openIndexes
      exact hloaded.trans (dwindles_remember _ k _)

omit [Backend W] in
theorem dwindles_forgetAll (c : CollectionId) (s : System W) :
    s.manager.Dwindles (s.forgetAll c).manager := .of_without (c := c) rfl

theorem dwindles_clears {answer : Except Fault (List SegmentId)} (hclears : Clears c s answer s') :
    s.manager.Dwindles s'.manager := by
  have hdown : ∀ {action visited asked counted s'},
      TakenDown action visited asked counted (s.listing c) s' →
      s.manager.Dwindles (s'.forgetAll c).manager := by
    intro action visited asked counted s' hdown
    have hsame : s.manager.Dwindles s'.manager := .of_same hdown.caches.openIndexes
    exact hsame.trans (dwindles_forgetAll c s')
  cases hclears with
  | refused hrefusal => exact .of_same rfl
  | released hdeployment hdown' => exact hdown hdown'
  | deleted hdeployment hdeletes =>
      cases hdeletes with
      | complete hok hdown' => exact hdown hdown'
      | broken hsplit hrunning hok hfails hdown' => exact hdown hdown'

theorem Coherent.dwindles_getSegmentNamed (hs : s.Coherent created) (c : CollectionId)
    (name : String) : s.manager.Dwindles (s.getSegmentNamed c name).2.manager := by
  unfold System.getSegmentNamed
  cases Capability.ofName? name with
  | none => exact .of_same rfl
  | some k => exact hs.dwindles_looks (hs.looks_getSegment c k)

/-! ## Hints -/

def lookedUp (c : CollectionId) (s : System W) : System W :=
  ((s.getSegment c .metadataReader).2.getSegment c .vectorReader).2

theorem Coherent.hint_eq_ok (hs : s.Coherent created)
    (hdeployment : s.manager.deployment = .inProcess settings) {operation : Operation}
    (hok : (s.hint c operation).1 = .ok ()) :
    ∃ i j s₁, Looks c .metadataReader s (.ok i) s₁ ∧
      Looks c .vectorReader s₁ (.ok j) (s.lookedUp c) ∧
      s.hint c operation = (s.lookedUp c).trackIndex c j := by
  have hfirst := hs.looks_getSegment c .metadataReader
  have hsecond := (hs.getSegment c .metadataReader).looks_getSegment c .vectorReader
  unfold lookedUp
  unfold System.hint at hok ⊢
  rw [hdeployment] at hok ⊢
  simp only at hok ⊢
  generalize s.getSegment c .metadataReader = metadata at hok hfirst hsecond ⊢
  obtain ⟨answer, s₁⟩ := metadata
  cases answer with
  | error fault => cases hok
  | ok i =>
      simp only at hok hsecond ⊢
      generalize s₁.getSegment c .vectorReader = vectors at hok hsecond ⊢
      obtain ⟨answer, s₂⟩ := vectors
      cases answer with
      | error fault => cases hok
      | ok j => exact ⟨i, j, s₁, hfirst, hsecond, rfl⟩

structure TrackedFor (c : CollectionId) (i : Instance) (gone : List CollectionId)
    (o o' : OpenIndexes) (s s' : System W) : Prop where
  persistent : i.views.persistentIndex = true
  before : s.manager.openIndexes = some o
  wellFormed : o.WellFormed
  opens : OpenIndexes.Opens c i o s.site (.ok gone) o' s'.site
  after : o'.WellFormed
  manager : s'.manager = { s.manager with
    openIndexes := some o'
    counters := { s.manager.counters with
      handleEvictions := s.manager.counters.handleEvictions + gone.length } }
  catalog : s'.catalog = s.catalog

theorem trackIndex_cases (hs : s.manager.Tracking budget) (hok : (s.trackIndex c i).1 = .ok ()) :
    i.views.persistentIndex = false ∧ (s.trackIndex c i).2 = s ∨
      ∃ gone o o', TrackedFor c i gone o o' s (s.trackIndex c i).2 := by
  obtain ⟨o, ho, hwell, -⟩ := hs
  have hopens := OpenIndexes.opens_track hwell c i s.site
  have hwell' := hwell.track c i s.site
  unfold trackIndex at hok ⊢
  rw [ho] at hok ⊢
  simp only at hok ⊢
  by_cases hpersistent : i.views.persistentIndex = true
  · rw [if_pos hpersistent] at hok ⊢
    generalize o.track c i s.site = ended at hok hopens hwell' ⊢
    obtain ⟨outcome, o', site⟩ := ended
    cases outcome with
    | error fault => cases hok
    | ok gone => exact .inr ⟨gone, o, o', hpersistent, ho, hwell, hopens, hwell', rfl, rfl⟩
  · rw [if_neg hpersistent]
    exact .inl ⟨by simpa using hpersistent, rfl⟩

namespace TrackedFor

variable {gone : List CollectionId} {o o' : OpenIndexes}

theorem collections_before (h : TrackedFor c i gone o o' s s') :
    s.manager.collections = o.collections := by
  unfold Manager.collections
  rw [h.before]
  rfl

theorem collections_after (h : TrackedFor c i gone o o' s s') :
    s'.manager.collections = o'.collections := by
  rw [h.manager]
  rfl

theorem budget_before (h : TrackedFor c i gone o o' s s') (hs : s.manager.Tracking budget) :
    o.budget = budget := by
  obtain ⟨o₁, ho₁, -, hbudget⟩ := hs
  rw [← Option.some.inj (ho₁.symm.trans h.before)]
  exact hbudget

theorem tracking (h : TrackedFor c i gone o o' s s') (hs : s.manager.Tracking budget) :
    s'.manager.Tracking budget := by
  have hsame : o'.budget = o.budget := by
    have hopens := h.opens
    generalize s'.site = site at hopens
    cases hopens <;> rfl
  exact ⟨o', by rw [h.manager], h.after, hsame.trans (h.budget_before hs)⟩

theorem tracked? (h : TrackedFor c i gone o o' s s') (d : CollectionId) :
    s'.manager.tracked? d =
      if d = c then some i else if d ∈ gone then none else s.manager.tracked? d := by
  have hopens := h.opens
  have hbefore : s.manager.tracked? d = o.tracked.peek? d := by
    unfold Manager.tracked?
    rw [h.before]
    rfl
  have hafter : s'.manager.tracked? d = o'.tracked.peek? d := by
    rw [h.manager]
    rfl
  rw [hbefore, hafter]
  generalize s'.site = site at hopens
  cases hopens with
  | fits hviews hopen hroom hlast htracked => simpa using htracked d
  | displaces hviews hopen hnew hfull holdest hj hlast htracked => simpa using htracked d

theorem cases (h : TrackedFor c i gone o o' s s') :
    (s.site.perform .openIndex i).1 = .ok () ∧
      (gone = [] ∧ s'.site = (s.site.perform .openIndex i).2 ∧
          s'.manager.collections = s.manager.collections.filter (· ≠ c) ++ [c] ∨
        ∃ d j rest, gone = [d] ∧
          s'.site = ((s.site.perform .openIndex i).2.perform .closeIndex j).2 ∧
          c ∉ s.manager.collections ∧ s.manager.collections.length = o.budget ∧
          s.manager.collections = d :: rest ∧ s.manager.tracked? d = some j ∧
          s'.manager.collections = rest ++ [c]) := by
  have hopens := h.opens
  have htracked : ∀ d, s.manager.tracked? d = o.tracked.peek? d := by
    intro d
    unfold Manager.tracked?
    rw [h.before]
    rfl
  rw [h.collections_before, h.collections_after]
  generalize s'.site = site at hopens
  cases hopens with
  | fits hviews hopen hroom hlast _ => exact ⟨hopen, .inl ⟨rfl, rfl, hlast⟩⟩
  | displaces hviews hopen hnew hfull holdest hj hlast _ =>
      refine ⟨hopen, .inr ⟨_, _, _, rfl, rfl, ?_, ?_, holdest, (htracked _).trans hj, hlast⟩⟩
      · exact (OpenIndexes.contains_eq_false_iff o c).mp hnew
      · exact (List.length_map _).trans hfull

end TrackedFor

omit [Backend W] in
theorem persistent_of_tracked (htracking : s.manager.Tracking budget)
    (hi : s.manager.tracked? c = some i) : i.views.persistentIndex = true := by
  obtain ⟨o, ho, hwell, -⟩ := htracking
  unfold Manager.tracked? at hi
  rw [ho] at hi
  obtain ⟨e, he, -, rfl⟩ := (RecencyCache.peek?_eq_some_iff hwell.tracked.distinct).mp hi
  exact hwell.persistent e he

omit [Backend W] in
/-- A collection that is tracked is tracked with the instance that serves it, so one
whose instance has no index is not. -/
theorem Coherent.notMem_collections (hs : s.Coherent created) (htracking : s.manager.Tracking budget)
    (hserving : s.manager.Serving .vectorReader c i) (hviews : i.views.persistentIndex = false) :
    c ∉ s.manager.collections := by
  intro hmem
  obtain ⟨j, hj⟩ := mem_collections_iff.mp hmem
  have hpersistent := persistent_of_tracked htracking hj
  rw [← serving_unique hserving (hs.manager.tracked c j hj), hviews] at hpersistent
  cases hpersistent

theorem Coherent.ordered_trackIndex (hs : s.Coherent created)
    (h : s.manager.Ordered budget hints) (hserving : s.manager.Serving .vectorReader c i)
    (hok : (s.trackIndex c i).1 = .ok ()) :
    (s.trackIndex c i).2.manager.Ordered budget (hints ++ [c]) := by
  have hspared : c ∉ s.manager.collections →
      s.manager.collections.filter (· ≠ c) = s.manager.collections := by
    intro hnew
    apply List.filter_eq_self.mpr
    intro d hd
    simpa using fun hc : d = c => hnew (hc ▸ hd)
  rcases trackIndex_cases h.tracking hok with ⟨hviews, hsame⟩ | ⟨gone, o, o', htracked⟩
  · have hnew := hspared (hs.notMem_collections h.tracking hserving hviews)
    rw [hsame]
    refine ⟨h.tracking, (List.sublist_append_left _ [c]).trans (h.order_concat ?_)⟩
    rw [hnew]
  · refine ⟨htracked.tracking h.tracking, ?_⟩
    rcases htracked.cases.2 with ⟨-, -, hafter⟩ |
      ⟨d, j, rest, -, -, hnew, -, hbefore, -, hafter⟩
    · rw [hafter]
      exact h.order_concat (List.Sublist.refl _)
    · rw [hafter]
      apply h.order_concat
      rw [hspared hnew, hbefore]
      exact List.sublist_cons_self d rest

theorem Coherent.dwindles_hint (hs : s.Coherent created) {operation : Operation} {fault : Fault}
    (hfails : (s.hint c operation).1 = .error fault) :
    s.manager.Dwindles (s.hint c operation).2.manager := by
  have hhints := hs.hints_hint c operation
  rw [hfails] at hhints
  generalize (s.hint c operation).2 = s' at hhints ⊢
  cases hhints with
  | first hfirst => exact hs.dwindles_looks hfirst
  | second hfirst hsecond =>
      exact (hs.dwindles_looks hfirst).trans ((hs.looks hfirst).1.dwindles_looks hsecond)
  | both hfirst hsecond hlast =>
      have hlooked :=
        (hs.dwindles_looks hfirst).trans ((hs.looks hfirst).1.dwindles_looks hsecond)
      cases hlast with
      | refused hpersistent hperform => exact hlooked.trans (.of_same rfl)

theorem Coherent.lookedUp (hs : s.Coherent created) {i j : Instance} {s₁ : System W}
    (hfirst : Looks c .metadataReader s (.ok i) s₁)
    (hsecond : Looks c .vectorReader s₁ (.ok j) (s.lookedUp c)) :
    (s.lookedUp c).Coherent created ∧ s.manager.Dwindles (s.lookedUp c).manager ∧
      (s.lookedUp c).manager.Serving .vectorReader c j ∧
      (s.lookedUp c).manager.Serving .metadataReader c i := by
  obtain ⟨hs₁, hserving⟩ := hs.looks hfirst
  obtain ⟨hs₂, hserving'⟩ := hs₁.looks hsecond
  exact ⟨hs₂, (hs.dwindles_looks hfirst).trans (hs₁.dwindles_looks hsecond), hserving' j rfl,
    hs₁.serving_of_looks hsecond (by decide) (hserving i rfl)⟩

def hintedBy (s : System W) : Event W → List CollectionId
  | .request (.hint c operation) => if (s.hint c operation).1.isOk then [c] else []
  | _ => []

def hinted : List (Event W) → System W → List CollectionId
  | [], _ => []
  | e :: events, s => s.hintedBy e ++ hinted events (s.after e)

theorem hinted_concat (events : List (Event W)) (e : Event W) (s : System W) :
    s.hinted (events ++ [e]) = s.hinted events ++ (s.replay events).hintedBy e := by
  induction events generalizing s with
  | nil => exact List.append_nil _
  | cons first rest ih =>
      rw [List.cons_append, hinted, ih, hinted, List.append_assoc]
      rfl

theorem Coherent.ordered_hint (hs : s.Coherent created)
    (hdeployment : s.manager.deployment = .inProcess settings)
    (h : s.manager.Ordered budget hints) (operation : Operation) :
    (s.hint c operation).2.manager.Ordered budget
      (hints ++ s.hintedBy (.request (.hint c operation))) := by
  cases hanswer : (s.hint c operation).1 with
  | error fault =>
      have hnone : s.hintedBy (.request (.hint c operation)) = [] := by
        simp [hintedBy, hanswer, Except.isOk, Except.toBool]
      rw [hnone, List.append_nil]
      exact h.dwindles (hs.dwindles_hint hanswer)
  | ok done =>
      have hone : s.hintedBy (.request (.hint c operation)) = [c] := by
        simp [hintedBy, hanswer, Except.isOk, Except.toBool]
      obtain ⟨i, j, s₁, hfirst, hsecond, hend⟩ := hs.hint_eq_ok hdeployment hanswer
      obtain ⟨hs₂, hless, hserving, -⟩ := hs.lookedUp hfirst hsecond
      rw [hone]
      rw [hend] at hanswer ⊢
      exact hs₂.ordered_trackIndex (h.dwindles hless) hserving hanswer

theorem Coherent.ordered_after (hs : s.Coherent created)
    (hdeployment : s.manager.deployment = .inProcess settings)
    (h : s.manager.Ordered budget hints) (e : Event W) :
    (s.after e).manager.Ordered budget (hints ++ s.hintedBy e) := by
  have hsame : ∀ s' : System W, s.manager.Dwindles s'.manager →
      s'.manager.Ordered budget (hints ++ []) := by
    intro s' hless
    rw [List.append_nil]
    exact h.dwindles hless
  cases e with
  | request q =>
      cases q with
      | get c k => exact hsame _ (hs.dwindles_looks (hs.looks_getSegment c k))
      | getNamed c name => exact hsame _ (hs.dwindles_getSegmentNamed c name)
      | hint c operation => exact hs.ordered_hint hdeployment h operation
      | delete c => exact hsame _ (dwindles_clears (hs.clears_deleteSegments c))
      | start order => exact hsame _ (.of_same rfl)
      | stop order => exact hsame _ (.of_same rfl)
      | reset order => exact hsame _ (.of_clear rfl)
  | enter rows => exact hsame _ (.of_same rfl)
  | withdraw c => exact hsame _ (.of_same rfl)
  | refuse text => exact hsame _ (.of_same rfl)
  | regroup members => exact hsame _ (.of_same (s.manager.openIndexes_withMembers members))
  | elapse change => exact hsame _ (.of_same rfl)

/-- After every history the tracked collections stand in the order of their latest
hints that succeeded. -/
theorem ordered_replay {g : Registry} {m : Manager} (hm : Manager.inProcess settings g = .ok m)
    (hpersistent : settings.isPersistent = true) (w : W) {events : List (Event W)}
    (hids : Event.NeverShared events) :
    ((initial m w).replay events).manager.Ordered
      (settings.handleLimit / Manager.handlesPerIndex settings m.kinds)
      ((initial m w).hinted events) := by
  induction events using List.reverseRecOn with
  | nil =>
      obtain ⟨openIndexes, rfl, -, hlimits⟩ := Manager.inProcess_eq_ok hm
      refine ⟨tracking_inProcess hm hpersistent, ?_⟩
      cases openIndexes with
      | none => exact List.nil_sublist _
      | some o =>
          obtain ⟨rfl, -, -⟩ := OpenIndexes.ofLimits_eq_ok (hlimits o rfl)
          exact List.nil_sublist _
  | append_singleton events e ih =>
      have hcoherent := coherent_replay (.inProcess hm) w hids.of_append
      rw [replay_concat, hinted_concat]
      exact hcoherent.ordered_after (deployment_replay hm w hids.of_append) (ih hids.of_append) e

end System

/-- Of two collections the second was hinted after all hints of the first. -/
def HintedSince (hints : List CollectionId) (d e : CollectionId) : Prop :=
  ∃ before later, hints = before ++ e :: later ∧ d ∈ before ∧ d ∉ later

theorem hintedSince_of_sublist {hints : List CollectionId} {d e : CollectionId}
    (hsub : [d, e].Sublist hints.dedup) : HintedSince hints d e := by
  induction hints using List.reverseRecOn with
  | nil => cases hsub
  | append_singleton hints c ih =>
      rw [Tracking.dedup_concat] at hsub
      obtain ⟨first, last, hsplit, hfirst, hlast⟩ := List.sublist_append_iff.mp hsub
      have hkept : ∀ {x}, x ∈ first → x ∈ hints ∧ x ≠ c := by
        intro x hx
        simpa using hfirst.subset hx
      rcases List.sublist_singleton.mp hlast with rfl | rfl
      · rw [List.append_nil] at hsplit
        subst hsplit
        obtain ⟨before, later, rfl, hd, hlater⟩ := ih (hfirst.trans List.filter_sublist)
        refine ⟨before, later ++ [c], by simp, hd, ?_⟩
        simpa [hlater] using (hkept (x := d) (by simp)).2
      · obtain ⟨rfl, hce⟩ : first = [d] ∧ c = e := by
          have hends := List.append_inj' (show [d] ++ [e] = first ++ [c] from hsplit) rfl
          exact ⟨hends.1.symm, (List.singleton_inj.mp hends.2).symm⟩
        exact ⟨hints, [], by rw [hce], (hkept (List.mem_singleton_self d)).1, List.not_mem_nil⟩

theorem Manager.Ordered.hintedSince {m : Manager} {budget : Nat} {hints : List CollectionId}
    (h : m.Ordered budget hints) {d e : CollectionId} {rest : List CollectionId}
    (hfirst : m.collections = d :: rest) (he : e ∈ m.collections) (hne : e ≠ d) :
    HintedSince hints d e := by
  have horder := h.order
  rw [hfirst] at he horder
  have hlater : e ∈ rest := (List.mem_cons.mp he).resolve_left hne
  exact hintedSince_of_sublist (((List.singleton_sublist.mpr hlater).cons_cons d).trans horder)

end SegmentManager
