import SegmentManager.Proofs.System.History
import SegmentManager.Proofs.System.Lookup
import SegmentManager.Proofs.System.Teardown

/-!
# What a manager holds since a moment

A manager that holds nothing at some moment holds and calls from then on only
instances that are made later, and a segment runs only in an instance that was made
for it.  All steps keep to this, whatever fails and whatever rows the catalog has:
rows may share segments, and cached records need not run.
-/

namespace SegmentManager.System

variable {W : Type}

/-- Since the moment when `first` was the next serial number and `older` the journal,
all instances that are held or called were made after it. -/
structure Since (first : Nat) (older : List Call) (s : System W) : Prop where
  distinct : s.manager.instances.Distinct
  registered : ∀ {segment i}, s.manager.running? segment = some i →
    i.record.id = segment ∧ first ≤ i.serial ∧ i.serial < s.site.built
  serials : ∀ {segment other i j}, s.manager.running? segment = some i →
    s.manager.running? other = some j → i.serial = j.serial → i = j
  tracked : ∀ {o}, s.manager.openIndexes = some o →
    ∀ e ∈ o.tracked.entries, first ≤ e.value.serial
  next : first ≤ s.site.built
  calls : ∃ made, s.site.journal = made ++ older ∧
    ∀ action i ok, Call.act action i ok ∈ made → first ≤ i.serial

namespace Since

variable {first : Nat} {older : List Call} {s s' : System W}

theorem of_empty (hinstances : s.manager.instances = .empty)
    (htracked : ∀ {o}, s.manager.openIndexes = some o → o.tracked.entries = []) :
    Since s.site.built s.site.journal s where
  distinct := by
    rw [hinstances]
    exact Table.distinct_empty
  registered hrunning := by simp [Manager.running?, hinstances] at hrunning
  serials hrunning := by simp [Manager.running?, hinstances] at hrunning
  tracked ho := by simp [htracked ho]
  next := Nat.le_refl _
  calls := ⟨[], rfl, by simp⟩

theorem of_same (h : Since first older s)
    (hinstances : s'.manager.instances = s.manager.instances)
    (hindexes : s'.manager.openIndexes = s.manager.openIndexes)
    (hbuilt : s'.site.built = s.site.built) (hjournal : s'.site.journal = s.site.journal) :
    Since first older s' := by
  have hrunning : s'.manager.running? = s.manager.running? := by
    unfold Manager.running?
    rw [hinstances]
  constructor
  · rw [hinstances]
    exact h.distinct
  · rw [hrunning, hbuilt]
    exact h.registered
  · rw [hrunning]
    exact h.serials
  · rw [hindexes]
    exact h.tracked
  · rw [hbuilt]
    exact h.next
  · rw [hjournal]
    exact h.calls

theorem mem_visited_iff (h : Since first older s) (order : List SegmentId) {i : Instance} :
    i ∈ s.manager.instances.visited order ↔ ∃ segment, s.manager.running? segment = some i :=
  (Table.visited_perm h.distinct order).mem_iff.trans (Table.mem_values_iff h.distinct)

theorem mem_visited (h : Since first older s) {order : List SegmentId} {i : Instance}
    (hi : i ∈ s.manager.instances.visited order) :
    s.manager.running? i.record.id = some i ∧ first ≤ i.serial := by
  obtain ⟨segment, hsegment⟩ := (h.mem_visited_iff order).mp hi
  obtain ⟨hid, hfirst, -⟩ := h.registered hsegment
  exact ⟨hid ▸ hsegment, hfirst⟩

theorem nodup_visited (h : Since first older s) (order : List SegmentId) :
    (s.manager.instances.visited order).Nodup := by
  rw [(Table.visited_perm h.distinct order).nodup_iff]
  apply List.Nodup.of_map (·.record.id)
  rw [Table.map_values h.distinct fun segment i hi => (h.registered hi).1]
  exact h.distinct

/-! ## Single steps -/

theorem untrack (h : Since first older s) (c : CollectionId) : Since first older (s.untrack c) where
  distinct := h.distinct
  registered := h.registered
  serials := h.serials
  tracked ho e he := by
    obtain ⟨before, hbefore, rfl⟩ := Option.map_eq_some_iff.mp ho
    have hmem : e ∈ (before.tracked.drop c).entries := he
    rw [RecencyCache.entries_drop] at hmem
    exact h.tracked hbefore e (List.mem_filter.mp hmem).1
  next := h.next
  calls := h.calls

theorem unregister (h : Since first older s) (segment : SegmentId) :
    Since first older (s.unregister segment).2 := by
  have hstill : ∀ {other i}, (s.unregister segment).2.manager.running? other = some i →
      s.manager.running? other = some i := by
    intro other i hi
    rw [running?_unregister] at hi
    split at hi
    · cases hi
    · exact hi
  exact ⟨Table.distinct_erase h.distinct segment, fun hi => h.registered (hstill hi),
    fun hi hj => h.serials (hstill hi) (hstill hj), h.tracked, h.next, h.calls⟩

/-- Calls on instances made since then are all that the site may have seen. -/
theorem atSite (h : Since first older s) {site : Site W} (hbuilt : s.site.built ≤ site.built)
    {made : List Call} (hjournal : site.journal = made ++ s.site.journal)
    (hmade : ∀ action i ok, Call.act action i ok ∈ made → first ≤ i.serial) :
    Since first older { s with site } := by
  have hnext := h.next
  obtain ⟨before, hbefore, hcalls⟩ := h.calls
  refine ⟨h.distinct, fun hi => ?_, h.serials, h.tracked, by simp only; omega,
    made ++ before, ?_, ?_⟩
  · obtain ⟨hid, hfirst, hbelow⟩ := h.registered hi
    exact ⟨hid, hfirst, by simp only; omega⟩
  · simp only [hjournal, hbefore, List.append_assoc]
  · intro action i ok hmem
    rcases List.mem_append.mp hmem with hnew | hold
    · exact hmade action i ok hnew
    · exact hcalls action i ok hold

theorem enter (h : Since first older s) {i : Instance} (hfirst : first ≤ i.serial)
    (hbelow : i.serial < s.site.built)
    (hnew : ∀ {segment j}, s.manager.running? segment = some j → j.serial < i.serial)
    (counters : Counters) :
    Since first older { s with manager := { s.manager with
      instances := s.manager.instances.insert i.record.id i, counters } } := by
  have hrunning : ∀ {segment j}, (s.manager.instances.insert i.record.id i).get? segment = some j →
      segment = i.record.id ∧ j = i ∨ s.manager.running? segment = some j := by
    intro segment j hj
    rw [Table.get?_insert] at hj
    split at hj
    · rename_i hsegment
      exact .inl ⟨hsegment, (Option.some.inj hj).symm⟩
    · exact .inr hj
  refine ⟨Table.distinct_insert h.distinct i.record.id i, fun hj => ?_, fun hj hk hserial => ?_,
    h.tracked, h.next, h.calls⟩
  · rcases hrunning hj with ⟨rfl, rfl⟩ | hold
    · exact ⟨rfl, hfirst, hbelow⟩
    · exact h.registered hold
  · rcases hrunning hj with ⟨-, rfl⟩ | hold <;> rcases hrunning hk with ⟨-, rfl⟩ | hold'
    · rfl
    · have hlower := hnew hold'
      omega
    · have hlower := hnew hold
      omega
    · exact h.serials hold hold' hserial

variable [Backend W]

theorem perform (h : Since first older s) (action : Action) {i : Instance}
    (hi : first ≤ i.serial) : Since first older (s.perform action i).2 := by
  have hjournal : (s.site.perform action i).2.journal =
      [.act action i (s.site.perform action i).1.isOk] ++ s.site.journal := rfl
  refine h.atSite (Nat.le_refl _) hjournal ?_
  intro other j ok hmem
  obtain ⟨-, rfl, -⟩ := Call.act.inj (List.mem_singleton.mp hmem)
  exact hi

theorem performAll (h : Since first older s) (action : Action) {targets : List Instance}
    (htargets : ∀ i ∈ targets, first ≤ i.serial) :
    Since first older { s with site := (s.site.performAll action targets).2 } := by
  induction targets generalizing s with
  | nil => exact h
  | cons i rest ih =>
      have hfirst := h.perform action (htargets i List.mem_cons_self)
      rw [Site.performAll_cons_snd]
      exact ih hfirst fun j hj => htargets j (List.mem_cons_of_mem _ hj)

theorem takeOut (h : Since first older s) {segment : SegmentId} {i : Instance}
    (hrunning : s.manager.running? segment = some i) (action : Action) :
    Since first older ((s.unregister segment).2.perform action i).2 :=
  (h.unregister segment).perform action (h.registered hrunning).2.1

/-! ## Lookups -/

theorem launch (h : Since first older s) (m : Manager) (r : Record) :
    Since first older { s with site := (System.launch m r s.site).2 } ∧
      ∀ i, (System.launch m r s.site).1 = .ok i → i.record = r ∧ i.serial = s.site.built ∧
        i.serial < (System.launch m r s.site).2.built := by
  have hnext := h.next
  have hstarted : ∀ {i : Instance} {ok : Bool}, i.serial = s.site.built →
      ∀ action j flag, Call.act action j flag ∈ [.act .start i ok, .build r true] →
        first ≤ j.serial := by
    intro i ok hserial action j flag hmem
    obtain ⟨-, rfl, -⟩ : action = .start ∧ j = i ∧ flag = ok := by simpa using hmem
    omega
  rcases launch_cases m r s.site with ⟨i, site, hend, hrecord, hserial, hbuilt, hjournal⟩ |
    ⟨fault, i, site, hend, -, hserial, hbuilt, hjournal⟩ | ⟨fault, site, hend, hbuilt, hjournal⟩
  · rw [hend]
    have hgrows : s.site.built ≤ site.built := by omega
    refine ⟨h.atSite hgrows hjournal (hstarted hserial), ?_⟩
    rintro j ⟨⟩
    exact ⟨hrecord, hserial, by simp only; omega⟩
  · rw [hend]
    have hgrows : s.site.built ≤ site.built := by omega
    exact ⟨h.atSite hgrows hjournal (hstarted hserial), by rintro j ⟨⟩⟩
  · rw [hend]
    have hgrows : s.site.built ≤ site.built := by omega
    refine ⟨?_, by rintro j ⟨⟩⟩
    rcases hjournal with hsame | hrefused
    · exact h.atSite hgrows (show _ = [] ++ _ from hsame) (by simp)
    · exact h.atSite hgrows (show _ = [.build r false] ++ _ from hrefused) (by simp)

theorem acquire (h : Since first older s) (r : Record) :
    Since first older (s.acquire r).2 ∧
      ∀ i, (s.acquire r).1 = .ok i → first ≤ i.serial := by
  obtain ⟨hsite, hmade⟩ := h.launch s.manager r
  have hacquires := acquires_acquire r s
  generalize (s.acquire r).1 = answer, (s.acquire r).2 = s' at hacquires ⊢
  cases hacquires with
  | running hrunning =>
      refine ⟨h, ?_⟩
      rintro i ⟨⟩
      exact (h.registered hrunning).2.1
  | failed habsent hlaunch =>
      rw [hlaunch] at hsite
      exact ⟨hsite, by rintro i ⟨⟩⟩
  | launched habsent hlaunch =>
      rename_i i site counters
      rw [hlaunch] at hsite hmade
      obtain ⟨rfl, hserial, hbelow⟩ := hmade i rfl
      have hfirst : first ≤ i.serial := hserial ▸ h.next
      refine ⟨hsite.enter hfirst hbelow (fun hj => ?_) counters, ?_⟩
      · rw [hserial]
        exact (h.registered hj).2.2
      · rintro j ⟨⟩
        exact hfirst

theorem evict (h : Since first older s) (c : CollectionId) (r : Record) :
    Since first older (s.evict c r) := by
  have htaken : ∀ action i, (s.untrack c).manager.running? r.id = some i →
      Since first older (((s.untrack c).unregister r.id).2.perform action i).2 :=
    fun action i hrunning => (h.untrack c).takeOut hrunning action
  unfold System.evict
  cases hrunning : (s.untrack c).manager.running? r.id with
  | none =>
      rw [unregister_of_absent hrunning]
      exact h.untrack c
  | some i =>
      rw [unregister_of_running hrunning]
      have hstopped := htaken .stop i hrunning
      simp only [retire]
      cases hstop : ((s.untrack c).unregister r.id).2.perform .stop i with
      | mk outcome next =>
          rw [hstop] at hstopped
          cases outcome <;> exact hstopped.of_same rfl rfl rfl rfl

theorem evictAll (h : Since first older s) (gone : List (CollectionId × Record)) :
    Since first older (s.evictAll gone) := by
  induction gone generalizing s with
  | nil => exact h
  | cons e rest ih => exact ih (h.evict e.1 e.2)

theorem remember (h : Since first older s) (r : Record) (scope : Scope) :
    Since first older (s.remember r scope) := by
  rw [remember_eq]
  apply Since.evictAll
  exact h.of_same (Manager.instances_withRecords _ _ _) (Manager.openIndexes_withRecords _ _ _)
    rfl rfl

omit [Backend W] in
theorem forget (h : Since first older s) (c : CollectionId) (scope : Scope) :
    Since first older (s.forget c scope) :=
  h.of_same (Manager.instances_withRecords _ _ _) (Manager.openIndexes_withRecords _ _ _) rfl rfl

omit [Backend W] in
theorem consult (h : Since first older s) (c : CollectionId) (scope : Scope) :
    Since first older (s.consult c scope).2 :=
  h.of_same (instances_consult c scope s) (openIndexes_consult c scope s) rfl rfl

omit [Backend W] in
theorem fetch (h : Since first older s) (c : CollectionId) (scope : Scope) :
    Since first older (s.fetch c scope).2 := by
  rw [fetch_snd]
  exact h.of_same rfl rfl rfl rfl

theorem getSegment (h : Since first older s) (c : CollectionId) (k : Capability) :
    Since first older (s.getSegment c k).2 ∧
      ∀ i, (s.getSegment c k).1 = .ok i → first ≤ i.serial := by
  have hconsult := h.consult c k.scope
  simp only [System.getSegment]
  generalize s.consult c k.scope = consulted at hconsult ⊢
  obtain ⟨found, s₁⟩ := consulted
  cases found with
  | some r =>
      have hacquire := hconsult.acquire r
      simp only
      generalize s₁.acquire r = acquired at hacquire ⊢
      obtain ⟨answer, s₂⟩ := acquired
      cases answer with
      | ok i => exact hacquire
      | error fault => exact ⟨hacquire.1.forget r.collection k.scope, by rintro i ⟨⟩⟩
  | none =>
      have hfetch := hconsult.fetch c k.scope
      simp only
      generalize s₁.fetch c k.scope = fetched at hfetch ⊢
      obtain ⟨answer, s₂⟩ := fetched
      cases answer with
      | error fault => exact ⟨hfetch, by rintro i ⟨⟩⟩
      | ok r =>
          have hacquire := hfetch.acquire r
          simp only
          generalize s₂.acquire r = acquired at hacquire ⊢
          obtain ⟨answer, s₃⟩ := acquired
          cases answer with
          | ok i => exact ⟨hacquire.1.remember r k.scope, hacquire.2⟩
          | error fault => exact ⟨hacquire.1, by rintro i ⟨⟩⟩

/-! ## Hints -/

theorem trackIndex (h : Since first older s) (c : CollectionId) {i : Instance}
    (hi : first ≤ i.serial) : Since first older (s.trackIndex c i).2 := by
  have htracks := tracks_trackIndex c i s
  generalize (s.trackIndex c i).1 = answer, (s.trackIndex c i).2 = s' at htracks ⊢
  cases htracks with
  | skipped => exact h
  | refused hpersistent hperform => exact h.perform .openIndex hi
  | tracked hbefore hpersistent hperform =>
      rename_i o undersized counters
      have hevicted : ∀ j ∈ (o.tracked.insert c i 1).1.map (·.2), first ≤ j.serial := by
        intro j hj
        obtain ⟨gone, kept, hgone, -, hsplit⟩ := RecencyCache.insert_split o.tracked c i 1
        rw [hgone, List.map_map] at hj
        obtain ⟨e, he, rfl⟩ := List.mem_map.mp hj
        have hmem := hsplit ▸ List.mem_append_left kept he
        exact h.tracked hbefore e (RecencyCache.mem_without.mp hmem).1
      have hopened := h.perform .openIndex hi
      have hfiltered : ∀ j ∈ ((o.tracked.insert c i 1).1.map (·.2)).filter
          (·.views.persistentIndex), first ≤ j.serial :=
        fun j hj => hevicted j (List.mem_filter.mp hj).1
      have hclosed := hopened.performAll .closeIndex hfiltered
      rw [Site.closeAll_eq]
      refine ⟨hclosed.distinct, hclosed.registered, hclosed.serials, ?_, hclosed.next, hclosed.calls⟩
      rintro o' ⟨⟩ e he
      rcases RecencyCache.mem_entries_insert he with rfl | ⟨hold, -⟩
      · exact hi
      · exact h.tracked hbefore e hold

theorem hint (h : Since first older s) (c : CollectionId) (operation : Operation) :
    Since first older (s.hint c operation).2 := by
  have hwarms := warms_hint c operation s
  generalize (s.hint c operation).1 = answer, (s.hint c operation).2 = s' at hwarms ⊢
  have hlook := h.getSegment c .metadataReader
  cases hwarms with
  | remote hdeployment => exact h
  | first hdeployment hfirst =>
      rw [hfirst] at hlook
      exact hlook.1
  | second hdeployment hfirst hsecond =>
      rw [hfirst] at hlook
      have hlook' := hlook.1.getSegment c .vectorReader
      rw [hsecond] at hlook'
      exact hlook'.1
  | both hdeployment hfirst hsecond =>
      rw [hfirst] at hlook
      have hlook' := hlook.1.getSegment c .vectorReader
      rw [hsecond] at hlook'
      exact hlook'.1.trackIndex c (hlook'.2 _ rfl)

/-! ## Taking down -/

theorem deleteEach (h : Since first older s) (segments : List SegmentId) :
    Since first older (System.deleteEach segments s).2 := by
  induction segments generalizing s with
  | nil => exact h
  | cons segment rest ih =>
      unfold System.deleteEach
      cases hrunning : s.manager.running? segment with
      | none =>
          rw [unregister_of_absent hrunning]
          exact ih h
      | some i =>
          rw [unregister_of_running hrunning]
          have htaken := h.takeOut hrunning .delete
          simp only
          generalize (s.unregister segment).2.perform .delete i = deleted at htaken ⊢
          obtain ⟨outcome, next⟩ := deleted
          cases outcome with
          | error fault => exact htaken
          | ok done => exact ih (htaken.of_same rfl rfl rfl rfl : Since first older next.countDeleted)

theorem releaseEach (h : Since first older s) (segments : List SegmentId) :
    Since first older (System.releaseEach segments s) := by
  induction segments generalizing s with
  | nil => exact h
  | cons segment rest ih =>
      unfold System.releaseEach
      cases hrunning : s.manager.running? segment with
      | none =>
          rw [unregister_of_absent hrunning]
          exact ih h
      | some i =>
          rw [unregister_of_running hrunning]
          exact ih ((h.takeOut hrunning .stop).of_same rfl rfl rfl rfl)

omit [Backend W] in
theorem forgetAll (h : Since first older s) (c : CollectionId) :
    Since first older (s.forgetAll c) :=
  ((h.forget c .vector).forget c .metadata).untrack c

theorem deleteSegments (h : Since first older s) (c : CollectionId) :
    Since first older (s.deleteSegments c).2 := by
  have hlisting : Since first older (s.listing c) := h.of_same rfl rfl rfl rfl
  have hdisposes := disposes_deleteSegments c s
  generalize (s.deleteSegments c).1 = answer, (s.deleteSegments c).2 = s' at hdisposes ⊢
  cases hdisposes with
  | refused hrefusal => exact hlisting
  | released hrows hdeployment => exact (hlisting.releaseEach _).forgetAll c
  | completed hrows hdeployment hend | broken hrows hdeployment hend =>
      rename_i rows last
      have hdeleted := hlisting.deleteEach (rows.map (·.id))
      rw [hend] at hdeleted
      exact hdeleted.forgetAll c

/-! ## Whole histories -/

theorem reset (h : Since first older s) (order : List SegmentId) :
    Since first older (s.reset order).2 := by
  have hstopped := h.performAll .stop fun i (hi : i ∈ s.manager.instances.visited order) =>
    (h.mem_visited hi).2
  refine ⟨Table.distinct_empty, by rintro segment i ⟨⟩, by rintro segment other i j ⟨⟩, ?_,
    hstopped.next, hstopped.calls⟩
  intro o ho e he
  obtain ⟨before, -, rfl⟩ := Option.map_eq_some_iff.mp ho
  cases he

theorem handle (h : Since first older s) (q : Request) : Since first older (s.handle q).2 := by
  have hall : ∀ action order,
      Since first older (s.performAll action (s.manager.instances.visited order)).2 :=
    fun action order => h.performAll action fun i hi => (h.mem_visited hi).2
  cases q with
  | get c k => exact (h.getSegment c k).1
  | getNamed c name =>
      change Since first older (s.getSegmentNamed c name).2
      unfold getSegmentNamed
      cases Capability.ofName? name with
      | none => exact h
      | some k => exact (h.getSegment c k).1
  | hint c operation => exact h.hint c operation
  | delete c => exact h.deleteSegments c
  | start order => exact hall .start order
  | stop order => exact hall .stop order
  | reset order => exact h.reset order

theorem after (h : Since first older s) (e : Event W) : Since first older (s.after e) := by
  cases e with
  | request q => exact h.handle q
  | regroup members =>
      exact h.of_same (s.manager.instances_withMembers members)
        (s.manager.openIndexes_withMembers members) rfl rfl
  | enter rows => exact h.of_same rfl rfl rfl rfl
  | withdraw c => exact h.of_same rfl rfl rfl rfl
  | refuse text => exact h.of_same rfl rfl rfl rfl
  | elapse change => exact h.of_same rfl rfl rfl rfl

theorem replay (h : Since first older s) (events : List (Event W)) :
    Since first older (s.replay events) := by
  induction events generalizing s with
  | nil => exact h
  | cons e rest ih => exact ih (h.after e)

end Since

theorem since_initial {m : Manager} (hm : m.Fresh) (w : W) : Since 0 [] (initial m w) := by
  suffices hempty : m.instances = .empty ∧ ∀ {o}, m.openIndexes = some o → o.tracked.entries = [] from
    Since.of_empty (s := initial m w) hempty.1 hempty.2
  cases hm with
  | distributed workers g => exact ⟨rfl, by rintro o ⟨⟩⟩
  | inProcess hsetup =>
      obtain ⟨openIndexes, rfl, -, hindexes⟩ := Manager.inProcess_eq_ok hsetup
      refine ⟨rfl, ?_⟩
      intro o ho
      obtain ⟨rfl, -⟩ := OpenIndexes.ofLimits_eq_ok (hindexes o ho)
      rfl

end SegmentManager.System
