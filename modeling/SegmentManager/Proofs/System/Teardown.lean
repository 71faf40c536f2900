import SegmentManager.Proofs.System.Steps

/-!
# How segments are taken down

Taking segments down unregisters them one after another and asks each instance
that ran for one action.  A deletion ends at the first instance that refuses;
a release goes on.
-/

namespace SegmentManager.System

variable {W : Type}

/-! ## Which instances are asked -/

def targets (segments : List SegmentId) (s : System W) : List Instance :=
  segments.filterMap s.manager.running?

theorem targets_cons_of_absent {segment : SegmentId} {rest : List SegmentId} {s : System W}
    (habsent : s.manager.running? segment = none) :
    s.targets (segment :: rest) = s.targets rest :=
  List.filterMap_cons_none habsent

theorem targets_cons_of_running {segment : SegmentId} {rest : List SegmentId} {s : System W}
    {i : Instance} (hrunning : s.manager.running? segment = some i) :
    s.targets (segment :: rest) = i :: s.targets rest :=
  List.filterMap_cons_some hrunning

theorem targets_cons (segment : SegmentId) (rest : List SegmentId) (s : System W) :
    s.targets (segment :: rest) = (s.manager.running? segment).toList ++ s.targets rest := by
  cases hrunning : s.manager.running? segment with
  | none => exact targets_cons_of_absent hrunning
  | some i => exact targets_cons_of_running hrunning

theorem targets_append (segments others : List SegmentId) (s : System W) :
    s.targets (segments ++ others) = s.targets segments ++ s.targets others :=
  List.filterMap_append

theorem targets_congr {segments : List SegmentId} {s s' : System W}
    (hsame : ∀ segment ∈ segments, s'.manager.running? segment = s.manager.running? segment) :
    s'.targets segments = s.targets segments :=
  List.filterMap_congr hsame

theorem running?_unregister (segment other : SegmentId) (s : System W) :
    (s.unregister segment).2.manager.running? other =
      if other = segment then none else s.manager.running? other :=
  Table.get?_erase s.manager.instances segment other

theorem unregister_of_absent {segment : SegmentId} {s : System W}
    (habsent : s.manager.running? segment = none) : s.unregister segment = (none, s) := by
  have hpop : s.manager.instances.pop segment = (none, s.manager.instances) :=
    Prod.ext habsent (Table.erase_of_absent habsent)
  unfold unregister
  rw [hpop]

theorem unregister_of_running {segment : SegmentId} {i : Instance} {s : System W}
    (hrunning : s.manager.running? segment = some i) :
    s.unregister segment = (some i, (s.unregister segment).2) := Prod.ext hrunning rfl

theorem isRunning_eq (segment : SegmentId) (s : System W) :
    s.manager.isRunning segment = (s.manager.running? segment).isSome := rfl

/-! ## What is left -/

variable [Backend W]

/-- Whether an instance does as it is asked does not depend on its being registered. -/
theorem perform_unregister {segment : SegmentId} {action : Action} {i : Instance} {s : System W}
    {outcome : Except Fault Unit} (hperform : (s.site.perform action i).1 = outcome) :
    (s.unregister segment).2.perform action i =
      (outcome, ((s.unregister segment).2.perform action i).2) := Prod.ext hperform rfl

/-- What is left when segments were visited, and of them `asked` were running and
were asked for an action, `counted` of them as deleted. -/
structure TakenDown (action : Action) (visited : List SegmentId) (asked : List Instance)
    (counted : Nat) (s s' : System W) : Prop where
  caches : Manager.SameCaches s.manager s'.manager
  running : ∀ segment, s'.manager.running? segment =
    if segment ∈ visited then none else s.manager.running? segment
  distinct : s.manager.instances.Distinct → s'.manager.instances.Distinct
  counters : s'.manager.counters =
    { s.manager.counters with deleted := s.manager.counters.deleted + counted }
  catalog : s'.catalog = s.catalog
  site : s'.site = (s.site.performAll action asked).2

namespace TakenDown

variable {action : Action} {visited : List SegmentId} {asked : List Instance} {counted : Nat}
  {s s' : System W}

theorem refl (action : Action) (s : System W) : TakenDown action [] [] 0 s s :=
  ⟨.refl _, by simp, id, rfl, rfl, rfl⟩

theorem skip {segment : SegmentId} (habsent : s.manager.running? segment = none)
    (h : TakenDown action visited asked counted s s') :
    TakenDown action (segment :: visited) asked counted s s' := by
  refine ⟨h.caches, ?_, h.distinct, h.counters, h.catalog, h.site⟩
  intro other
  rw [h.running]
  by_cases hother : other = segment
  · simp [hother, habsent]
  · simp [hother]

theorem ask {segment : SegmentId} {i : Instance}
    (h : TakenDown action visited asked counted
      ((s.unregister segment).2.perform action i).2.countDeleted s') :
    TakenDown action (segment :: visited) (i :: asked) (counted + 1) s s' := by
  refine ⟨?_, ?_, ?_, ?_, h.catalog, ?_⟩
  · exact ⟨⟨h.caches.deployment, h.caches.kinds, h.caches.limits⟩, h.caches.vectorRecords,
      h.caches.metadataRecords, h.caches.openIndexes⟩
  · intro other
    have hother := h.running other
    simp only [Manager.running?, countDeleted, perform, Manager.tally, unregister, Table.pop,
      Table.get?_erase] at hother ⊢
    rw [hother]
    grind
  · intro hdistinct
    exact h.distinct (Table.distinct_erase hdistinct segment)
  · rw [h.counters]
    simp only [countDeleted, perform, Manager.tally, unregister, Counters.mk.injEq, true_and]
    omega
  · rw [Site.performAll_cons_snd]
    exact h.site

theorem last (segment : SegmentId) (i : Instance) :
    TakenDown action [segment] [i] 0 s ((s.unregister segment).2.perform action i).2 := by
  refine ⟨⟨⟨rfl, rfl, fun _ => rfl⟩, rfl, rfl, rfl⟩, ?_, ?_, rfl, rfl, rfl⟩
  · intro other
    simp only [Manager.running?, perform, unregister, Table.pop, Table.get?_erase,
      List.mem_singleton]
  · intro hdistinct
    exact Table.distinct_erase hdistinct segment

end TakenDown

/-! ## Deleting -/

inductive Deletes (segments : List SegmentId) (s : System W) :
    List SegmentId × Option (SegmentId × Fault) → System W → Prop
  | complete {s' : System W}
      (hok : (s.site.performAll .delete (s.targets segments)).1 = .ok ())
      (hdown : TakenDown .delete segments (s.targets segments) (s.targets segments).length s s') :
      Deletes segments s (segments.filter s.manager.isRunning, none) s'
  | broken {before after : List SegmentId} {failed : SegmentId} {i : Instance} {cause : Fault}
      {s' : System W} (hsplit : segments = before ++ failed :: after)
      (hrunning : s.manager.running? failed = some i)
      (hok : (s.site.performAll .delete (s.targets before)).1 = .ok ())
      (hfails : ((s.site.performAll .delete (s.targets before)).2.perform .delete i).1 =
        .error cause)
      (hdown : TakenDown .delete (before ++ [failed]) (s.targets before ++ [i])
        (s.targets before).length s s') :
      Deletes segments s (before.filter s.manager.isRunning, some (failed, cause)) s'

omit [Backend W] in
theorem targets_after {segment : SegmentId} {segments : List SegmentId} {s next : System W}
    (hnext : ∀ other, next.manager.running? other =
      if other = segment then none else s.manager.running? other)
    (hnotMem : segment ∉ segments) : next.targets segments = s.targets segments ∧
      segments.filter next.manager.isRunning = segments.filter s.manager.isRunning := by
  have hsame : ∀ other ∈ segments, next.manager.running? other = s.manager.running? other := by
    intro other hother
    rw [hnext, if_neg]
    rintro rfl
    exact hnotMem hother
  refine ⟨targets_congr hsame, List.filter_congr ?_⟩
  intro other hother
  rw [isRunning_eq, isRunning_eq, hsame other hother]

namespace Deletes

variable {segment : SegmentId} {rest : List SegmentId} {s s' : System W}
  {completed : List SegmentId} {failure : Option (SegmentId × Fault)}

theorem skip (habsent : s.manager.running? segment = none)
    (h : Deletes rest s (completed, failure) s') :
    Deletes (segment :: rest) s (completed, failure) s' := by
  have hfilter : ∀ segments, List.filter s.manager.isRunning (segment :: segments) =
      List.filter s.manager.isRunning segments := by
    intro segments
    exact List.filter_cons_of_neg (by simp [isRunning_eq, habsent])
  cases h with
  | complete hok hdown =>
      rw [← targets_cons_of_absent habsent] at hok hdown
      rw [← hfilter]
      exact .complete hok (hdown.skip habsent)
  | broken hsplit hrunning hok hfails hdown =>
      subst hsplit
      rw [← targets_cons_of_absent habsent] at hok hfails hdown
      rw [← hfilter]
      exact .broken rfl hrunning hok hfails (hdown.skip habsent)

theorem ask {i : Instance} (hnotMem : segment ∉ rest)
    (hrunning : s.manager.running? segment = some i)
    (hperform : (s.site.perform .delete i).1 = .ok ())
    (h : Deletes rest ((s.unregister segment).2.perform .delete i).2.countDeleted
      (completed, failure) s') :
    Deletes (segment :: rest) s (segment :: completed, failure) s' := by
  have hnext : ∀ other,
      ((s.unregister segment).2.perform .delete i).2.countDeleted.manager.running? other =
        if other = segment then none else s.manager.running? other :=
    fun other => running?_unregister segment other s
  have hfilter : ∀ segments, List.filter s.manager.isRunning (segment :: segments) =
      segment :: List.filter s.manager.isRunning segments := by
    intro segments
    exact List.filter_cons_of_pos (by simp [isRunning_eq, hrunning])
  have hsite : ((s.unregister segment).2.perform .delete i).2.countDeleted.site =
      (s.site.perform .delete i).2 := rfl
  cases h with
  | complete hok hdown =>
      obtain ⟨htargets, hcompleted⟩ := targets_after hnext hnotMem
      rw [htargets] at hok hdown
      rw [hcompleted, ← hfilter]
      have hcons : s.targets (segment :: rest) = i :: s.targets rest :=
        targets_cons_of_running hrunning
      refine .complete ?_ ?_
      · rw [hcons, Site.performAll_cons_ok_iff]
        exact ⟨hperform, hok⟩
      · rw [hcons]
        exact hdown.ask
  | broken hsplit hstill hok hfails hdown =>
      rename_i before after failed j cause
      subst hsplit
      have hbefore : segment ∉ before := fun hmem => hnotMem (by simp [hmem])
      obtain ⟨htargets, hcompleted⟩ := targets_after hnext hbefore
      rw [htargets] at hok hfails hdown
      rw [hcompleted, ← hfilter]
      rw [hnext, if_neg (fun heq => hnotMem (by simp [heq]))] at hstill
      have hcons : s.targets (segment :: before) = i :: s.targets before :=
        targets_cons_of_running hrunning
      refine .broken rfl hstill ?_ ?_ ?_
      · rw [hcons, Site.performAll_cons_ok_iff]
        exact ⟨hperform, hok⟩
      · rw [hcons, Site.performAll_cons_snd]
        exact hfails
      · rw [hcons]
        exact hdown.ask

end Deletes

theorem deletes_deleteEach {segments : List SegmentId} (hnodup : segments.Nodup)
    (s : System W) :
    Deletes segments s (deleteEach segments s).1 (deleteEach segments s).2 := by
  induction segments generalizing s with
  | nil => exact .complete rfl (.refl .delete s)
  | cons segment rest ih =>
      obtain ⟨hnotMem, hrest⟩ := List.nodup_cons.mp hnodup
      unfold deleteEach
      cases hrunning : s.manager.running? segment with
      | none =>
          rw [unregister_of_absent hrunning]
          exact (ih hrest s).skip hrunning
      | some i =>
          rw [unregister_of_running hrunning]
          simp only
          cases hperform : (s.site.perform .delete i).1 with
          | error fault =>
              rw [perform_unregister hperform]
              have hsplit : segment :: rest = [] ++ segment :: rest := rfl
              exact .broken hsplit hrunning rfl hperform (.last segment i)
          | ok done =>
              rw [perform_unregister hperform]
              exact (ih hrest _).ask hnotMem hrunning hperform

/-! ## Releasing -/

theorem takenDown_releaseEach {segments : List SegmentId} (hnodup : segments.Nodup)
    (s : System W) :
    TakenDown .stop segments (s.targets segments) (s.targets segments).length s
      (releaseEach segments s) := by
  induction segments generalizing s with
  | nil => exact .refl .stop s
  | cons segment rest ih =>
      obtain ⟨hnotMem, hrest⟩ := List.nodup_cons.mp hnodup
      unfold releaseEach
      cases hrunning : s.manager.running? segment with
      | none =>
          rw [unregister_of_absent hrunning, targets_cons_of_absent hrunning]
          exact (ih hrest s).skip hrunning
      | some i =>
          have hdown := ih hrest ((s.unregister segment).2.perform .stop i).2.countDeleted
          have hlater : ∀ other,
              ((s.unregister segment).2.perform .stop i).2.countDeleted.manager.running? other =
                if other = segment then none else s.manager.running? other :=
            fun other => running?_unregister segment other s
          rw [(targets_after hlater hnotMem).1] at hdown
          rw [unregister_of_running hrunning, targets_cons_of_running hrunning]
          exact hdown.ask

/-! ## Segments that come more than once -/

/-- What is left when segments were visited that may come more than once.  Whoever was
asked ran one of them. -/
def Walks (action : Action) (visited : List SegmentId) (s s' : System W) : Prop :=
  ∃ asked counted, TakenDown action visited asked counted s s' ∧
    ∀ i ∈ asked, ∃ segment ∈ visited, s.manager.running? segment = some i

namespace Walks

variable {action : Action} {segment : SegmentId} {visited : List SegmentId} {s s' : System W}

theorem refl (action : Action) (s : System W) : Walks action [] s s :=
  ⟨[], 0, .refl action s, by simp⟩

theorem skip (habsent : s.manager.running? segment = none) (h : Walks action visited s s') :
    Walks action (segment :: visited) s s' := by
  obtain ⟨asked, counted, hdown, hasked⟩ := h
  refine ⟨asked, counted, hdown.skip habsent, ?_⟩
  intro i hi
  obtain ⟨other, hother, hrunning⟩ := hasked i hi
  exact ⟨other, List.mem_cons_of_mem _ hother, hrunning⟩

theorem ask {i : Instance} (hrunning : s.manager.running? segment = some i)
    (h : Walks action visited ((s.unregister segment).2.perform action i).2.countDeleted s') :
    Walks action (segment :: visited) s s' := by
  obtain ⟨asked, counted, hdown, hasked⟩ := h
  refine ⟨i :: asked, counted + 1, hdown.ask, ?_⟩
  intro j hj
  rcases List.mem_cons.mp hj with rfl | hlater
  · exact ⟨segment, List.mem_cons_self, hrunning⟩
  · obtain ⟨other, hother, hleft⟩ := hasked j hlater
    refine ⟨other, List.mem_cons_of_mem _ hother, ?_⟩
    have hbefore := (running?_unregister segment other s).symm.trans hleft
    split at hbefore
    · cases hbefore
    · exact hbefore

theorem last {i : Instance} (hrunning : s.manager.running? segment = some i) :
    Walks action [segment] s ((s.unregister segment).2.perform action i).2 :=
  ⟨[i], 0, .last segment i, by simpa using hrunning⟩

end Walks

theorem walks_releaseEach (segments : List SegmentId) (s : System W) :
    Walks .stop segments s (releaseEach segments s) := by
  induction segments generalizing s with
  | nil => exact .refl .stop s
  | cons segment rest ih =>
      unfold releaseEach
      cases hrunning : s.manager.running? segment with
      | none =>
          rw [unregister_of_absent hrunning]
          exact (ih s).skip hrunning
      | some i =>
          rw [unregister_of_running hrunning]
          exact (ih _).ask hrunning

def WalksUntil (failure : Option (SegmentId × Fault)) (segments : List SegmentId)
    (s s' : System W) : Prop :=
  match failure with
  | none => Walks .delete segments s s'
  | some (failed, _) => ∃ before after, segments = before ++ failed :: after ∧
      Walks .delete (before ++ [failed]) s s'

namespace WalksUntil

variable {failure : Option (SegmentId × Fault)} {segment : SegmentId} {rest : List SegmentId}
  {s s' : System W}

theorem skip (habsent : s.manager.running? segment = none) (h : WalksUntil failure rest s s') :
    WalksUntil failure (segment :: rest) s s' := by
  cases failure with
  | none => exact Walks.skip habsent h
  | some broken =>
      obtain ⟨before, after, rfl, hwalks⟩ := h
      exact ⟨segment :: before, after, rfl, hwalks.skip habsent⟩

theorem ask {i : Instance} (hrunning : s.manager.running? segment = some i)
    (h : WalksUntil failure rest ((s.unregister segment).2.perform .delete i).2.countDeleted s') :
    WalksUntil failure (segment :: rest) s s' := by
  cases failure with
  | none => exact Walks.ask hrunning h
  | some broken =>
      obtain ⟨before, after, rfl, hwalks⟩ := h
      exact ⟨segment :: before, after, rfl, hwalks.ask hrunning⟩

end WalksUntil

theorem walks_deleteEach (segments : List SegmentId) (s : System W) :
    WalksUntil (deleteEach segments s).1.2 segments s (deleteEach segments s).2 := by
  induction segments generalizing s with
  | nil => exact Walks.refl .delete s
  | cons segment rest ih =>
      unfold deleteEach
      cases hrunning : s.manager.running? segment with
      | none =>
          rw [unregister_of_absent hrunning]
          exact (ih s).skip hrunning
      | some i =>
          rw [unregister_of_running hrunning]
          simp only
          cases hperform : (s.site.perform .delete i).1 with
          | error fault =>
              rw [perform_unregister hperform]
              exact ⟨[], rest, rfl, .last hrunning⟩
          | ok done =>
              rw [perform_unregister hperform]
              exact (ih _).ask hrunning

/-! ## Forgetting a collection -/

section ForgetAll

variable (c : CollectionId) (s : System W)

omit [Backend W] in
theorem cached?_forgetAll (k : Capability) (d : CollectionId) :
    (s.forgetAll c).manager.cached? k d = if d = c then none else s.manager.cached? k d := by
  cases k with
  | metadataReader => exact RecordCache.peek?_without s.manager.metadataRecords c d
  | vectorReader => exact RecordCache.peek?_without s.manager.vectorRecords c d

omit [Backend W] in
theorem tracked?_forgetAll (d : CollectionId) :
    (s.forgetAll c).manager.tracked? d = if d = c then none else s.manager.tracked? d := by
  change Option.bind (s.manager.openIndexes.map (·.without c)) (·.tracked.peek? d) =
    if d = c then none else s.manager.openIndexes.bind (·.tracked.peek? d)
  cases s.manager.openIndexes with
  | none => simp
  | some o => exact RecencyCache.peek?_drop o.tracked c d

omit [Backend W] in
theorem wellFormed_forgetAll (hs : s.manager.WellFormed) :
    (s.forgetAll c).manager.WellFormed := by
  refine ⟨hs.instances, ?_, ?_⟩
  · intro k
    cases k with
    | metadataReader => exact RecordCache.wellFormed_without (hs.records .metadataReader) c
    | vectorReader => exact RecordCache.wellFormed_without (hs.records .vectorReader) c
  · intro o ho
    obtain ⟨before, hbefore, rfl⟩ := Option.map_eq_some_iff.mp ho
    exact RecencyCache.wellFormed_drop (hs.openIndexes before hbefore) c

end ForgetAll

/-! ## Clearing a collection -/

def listing (c : CollectionId) (s : System W) : System W := (s.readCatalog c none).2

inductive Disposes (c : CollectionId) (s : System W) :
    Except Fault (List SegmentId) → System W → Prop
  | refused {text : String} (hrefusal : s.catalog.refusal = some text) :
      Disposes c s (.error (.catalog text)) (s.listing c)
  | released {rows : List Record} {workers : Workers}
      (hrows : (s.catalog.read c none).1 = .ok rows)
      (hdeployment : s.manager.deployment = .distributed workers) :
      Disposes c s (.ok (rows.map (·.id)))
        ((releaseEach (rows.map (·.id)) (s.listing c)).forgetAll c)
  | completed {settings : Settings} {done : List SegmentId} {rows : List Record} {s' : System W}
      (hrows : (s.catalog.read c none).1 = .ok rows)
      (hdeployment : s.manager.deployment = .inProcess settings)
      (hend : deleteEach (rows.map (·.id)) (s.listing c) = ((done, none), s')) :
      Disposes c s (.ok (rows.map (·.id))) (s'.forgetAll c)
  | broken {settings : Settings} {done : List SegmentId} {failed : SegmentId} {cause : Fault}
      {rows : List Record} {s' : System W}
      (hrows : (s.catalog.read c none).1 = .ok rows)
      (hdeployment : s.manager.deployment = .inProcess settings)
      (hend : deleteEach (rows.map (·.id)) (s.listing c) = ((done, some (failed, cause)), s')) :
      Disposes c s (.error (.partialDelete done failed cause)) (s'.forgetAll c)

theorem disposes_deleteSegments (c : CollectionId) (s : System W) :
    Disposes c s (s.deleteSegments c).1 (s.deleteSegments c).2 := by
  have hanswer : (s.readCatalog c none).1 = (s.catalog.read c none).1 := rfl
  have hlisting : (s.readCatalog c none).2 = s.listing c := rfl
  have hsetup : (s.listing c).manager.deployment = s.manager.deployment := rfl
  unfold deleteSegments
  generalize s.readCatalog c none = listed at hanswer hlisting ⊢
  obtain ⟨answer, next⟩ := listed
  obtain rfl : next = s.listing c := hlisting
  cases answer with
  | error fault =>
      obtain ⟨text, hrefusal, rfl⟩ :
          ∃ text, s.catalog.refusal = some text ∧ fault = .catalog text := by
        unfold Catalog.read at hanswer
        split at hanswer
        · exact ⟨_, ‹_›, Except.error.inj hanswer⟩
        · cases hanswer
      exact .refused hrefusal
  | ok rows =>
      simp only [hsetup]
      cases hdeployment : s.manager.deployment with
      | distributed workers => exact .released hanswer.symm hdeployment
      | inProcess settings =>
          simp only
          cases hend : deleteEach (rows.map (·.id)) (s.listing c) with
          | mk outcome s' =>
              obtain ⟨done, failure⟩ := outcome
              cases failure with
              | none => exact .completed hanswer.symm hdeployment hend
              | some broken => exact .broken hanswer.symm hdeployment hend

inductive Clears (c : CollectionId) (s : System W) : Except Fault (List SegmentId) → System W → Prop
  | refused {text : String} (hrefusal : s.catalog.refusal = some text) :
      Clears c s (.error (.catalog text)) (s.listing c)
  | released {workers : Workers} {s' : System W}
      (hdeployment : s.manager.deployment = .distributed workers)
      (hdown : TakenDown .stop ((s.catalog.rowsOf c).map (·.id))
        (s.targets ((s.catalog.rowsOf c).map (·.id)))
        (s.targets ((s.catalog.rowsOf c).map (·.id))).length (s.listing c) s') :
      Clears c s (.ok ((s.catalog.rowsOf c).map (·.id))) (s'.forgetAll c)
  | deleted {settings : Settings} {completed : List SegmentId}
      {failure : Option (SegmentId × Fault)} {s' : System W}
      (hdeployment : s.manager.deployment = .inProcess settings)
      (hdeletes : Deletes ((s.catalog.rowsOf c).map (·.id)) (s.listing c) (completed, failure) s') :
      Clears c s
        (match failure with
          | none => .ok ((s.catalog.rowsOf c).map (·.id))
          | some (failed, cause) => .error (.partialDelete completed failed cause))
        (s'.forgetAll c)

omit [Backend W] in
theorem sameCaches_listing (c : CollectionId) (s : System W) :
    Manager.SameCaches s.manager (s.listing c).manager := ⟨⟨rfl, rfl, fun _ => rfl⟩, rfl, rfl, rfl⟩

omit [Backend W] in
theorem rows_listing (c : CollectionId) (s : System W) :
    (s.listing c).catalog.rows = s.catalog.rows := Catalog.rows_read s.catalog c none

omit [Backend W] in
theorem filtering_listing (c : CollectionId) (s : System W) :
    (s.listing c).catalog.filtering = s.catalog.filtering :=
  Catalog.filtering_read s.catalog c none

theorem clears_deleteSegments (c : CollectionId) {s : System W}
    (hfilter : s.catalog.filtering = true)
    (hnodup : ((s.catalog.rowsOf c).map (·.id)).Nodup) :
    Clears c s (s.deleteSegments c).1 (s.deleteSegments c).2 := by
  have hrowsOf : ∀ {rows}, (s.catalog.read c none).1 = .ok rows → rows = s.catalog.rowsOf c :=
    Catalog.eq_rowsOf_of_read hfilter
  have hdeletes := deletes_deleteEach hnodup (s.listing c)
  have hdisposes := disposes_deleteSegments c s
  generalize (s.deleteSegments c).1 = answer, (s.deleteSegments c).2 = s' at hdisposes ⊢
  cases hdisposes with
  | refused hrefusal => exact .refused hrefusal
  | released hrows hdeployment =>
      rw [hrowsOf hrows]
      exact .released hdeployment (takenDown_releaseEach hnodup (s.listing c))
  | completed hrows hdeployment hend =>
      rw [hrowsOf hrows] at hend ⊢
      rw [hend] at hdeletes
      exact .deleted hdeployment hdeletes
  | broken hrows hdeployment hend =>
      rw [hrowsOf hrows] at hend
      rw [hend] at hdeletes
      exact .deleted hdeployment hdeletes

omit [Backend W] in
theorem sameSetup_forgetAll (c : CollectionId) (s : System W) :
    Manager.SameSetup s.manager (s.forgetAll c).manager := by
  refine ⟨rfl, rfl, ?_⟩
  intro k
  cases k with
  | metadataReader => exact RecordCache.limit?_without s.manager.metadataRecords c
  | vectorReader => exact RecordCache.limit?_without s.manager.vectorRecords c

theorem TakenDown.sameSetup_forgetAll {action : Action} {visited : List SegmentId}
    {asked : List Instance} {counted : Nat} {c : CollectionId} {s s' : System W}
    (hdown : TakenDown action visited asked counted (s.listing c) s') :
    Manager.SameSetup s.manager (s'.forgetAll c).manager :=
  ((sameCaches_listing c s).toSameSetup.trans hdown.caches.toSameSetup).trans
    (System.sameSetup_forgetAll c s')

theorem Clears.sameSetup {c : CollectionId} {s s' : System W}
    {answer : Except Fault (List SegmentId)} (hclears : Clears c s answer s') :
    Manager.SameSetup s.manager s'.manager := by
  cases hclears with
  | refused hrefusal => exact ⟨rfl, rfl, fun k => rfl⟩
  | released hdeployment hdown => exact hdown.sameSetup_forgetAll
  | deleted hdeployment hdeletes =>
      cases hdeletes with
      | complete hok hdown => exact hdown.sameSetup_forgetAll
      | broken hsplit hrunning hok hfails hdown =>
          exact hdown.sameSetup_forgetAll

theorem Clears.before {c : CollectionId} {s s' : System W}
    {answer : Except Fault (List SegmentId)} (hclears : Clears c s answer s') :
    (∀ segment i, s'.manager.running? segment = some i → s.manager.running? segment = some i) ∧
      ∀ k d r, s'.manager.cached? k d = some r → s.manager.cached? k d = some r := by
  have htaken : ∀ {action visited asked counted s₁},
      TakenDown action visited asked counted (s.listing c) s₁ →
      (∀ segment i, (s₁.forgetAll c).manager.running? segment = some i →
        s.manager.running? segment = some i) ∧
      ∀ k d r, (s₁.forgetAll c).manager.cached? k d = some r →
        s.manager.cached? k d = some r := by
    intro action visited asked counted s₁ hdown
    constructor
    · intro segment i hruns
      have hleft := (hdown.running segment).symm.trans hruns
      split at hleft
      · cases hleft
      · exact hleft
    · intro k d r hheld
      rw [cached?_forgetAll, hdown.caches.cached?] at hheld
      split at hheld
      · cases hheld
      · exact hheld
  cases hclears with
  | refused hrefusal => exact ⟨fun segment i => id, fun k d r => id⟩
  | released hdeployment hdown => exact htaken hdown
  | deleted hdeployment hdeletes =>
      cases hdeletes with
      | complete hok hdown => exact htaken hdown
      | broken hsplit hrunning hok hfails hdown => exact htaken hdown

end SegmentManager.System
