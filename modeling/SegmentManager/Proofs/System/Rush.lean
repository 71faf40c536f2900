import SegmentManager.Proofs.System.Accesses
import SegmentManager.Proofs.System.Coherence

/-!
# A lookup among others

Where no memory budget makes records leave, a step of a lookup adds to what runs
and what is cached, and takes nothing away.  Lookups that miss a record all
fetch the same one, since the catalog and the setup stay as they are, so that a
cache may be written several times but never with another record.
-/

namespace SegmentManager

variable {W : Type} [Backend W]

namespace System

structure Chosen (created : List Record) (s : System W) (c : CollectionId) (k : Capability)
    (r : Record) : Prop where
  absent : s.manager.cached? k c = none
  fetched : (s.fetch c k.scope).1 = .ok r
  admits : s.manager.Admits created k c r

omit [Backend W] in
theorem Chosen.eq {created : List Record} {s : System W} {c : CollectionId} {k : Capability}
    {r r' : Record} (h : s.Chosen created c k r) (h' : s.Chosen created c k r') : r = r' :=
  Except.ok.inj (h.fetched.symm.trans h'.fetched)

structure Grows (s s' : System W) : Prop where
  running : ∀ segment i, s.manager.running? segment = some i →
    s'.manager.running? segment = some i
  cached : ∀ k c r, s.manager.cached? k c = some r → s'.manager.cached? k c = some r

namespace Grows

variable {s s' s'' : System W}

omit [Backend W] in
theorem refl (s : System W) : Grows s s := ⟨fun _ _ => id, fun _ _ _ => id⟩

omit [Backend W] in
theorem trans (h : Grows s s') (h' : Grows s' s'') : Grows s s'' :=
  ⟨fun segment i hrunning => h'.running segment i (h.running segment i hrunning),
    fun k c r hcached => h'.cached k c r (h.cached k c r hcached)⟩

omit [Backend W] in
theorem serving (h : Grows s s') {k : Capability} {c : CollectionId} {i : Instance}
    (hserving : s.manager.Serving k c i) : s'.manager.Serving k c i := by
  obtain ⟨r, hcached, hrunning⟩ := hserving
  exact ⟨r, h.cached k c r hcached, h.running r.id i hrunning⟩

end Grows

end System

namespace Job

inductive Stands (created : List Record) (s₀ s : System W) (c : CollectionId) (k : Capability) :
    Job → Prop
  | consult : Stands created s₀ s c k (lookup (.serve k) c .consult)
  | fetch (habsent : s₀.manager.cached? k c = none) :
      Stands created s₀ s c k (lookup (.serve k) c .fetch)
  | hit {r : Record} (hcached : s.manager.cached? k c = some r) :
      Stands created s₀ s c k (lookup (.serve k) c (.acquire r true))
  | miss {r : Record} (hchosen : s₀.Chosen created c k r) :
      Stands created s₀ s c k (lookup (.serve k) c (.acquire r false))
  | remember {r : Record} {i : Instance} (hchosen : s₀.Chosen created c k r)
      (hrunning : s.manager.running? r.id = some i) :
      Stands created s₀ s c k (lookup (.serve k) c (.remember r i))
  | served {i : Instance} (hserving : s.manager.Serving k c i) :
      Stands created s₀ s c k (returned (.ok (.served i)))
  | failed (fault : Fault) : Stands created s₀ s c k (returned (.error fault))

/-- The job can only end with this instance for its answer. -/
inductive Owes (s : System W) (i : Instance) : Job → Prop
  | acquire {k : Capability} {c : CollectionId} {r : Record} {cached : Bool}
      (hrunning : s.manager.running? r.id = some i) :
      Owes s i (lookup (.serve k) c (.acquire r cached))
  | remember {k : Capability} {c : CollectionId} {r : Record} :
      Owes s i (lookup (.serve k) c (.remember r i))
  | served : Owes s i (returned (.ok (.served i)))

/-- A call that starts nothing; if a start was tried, the segment was not
running. -/
def Fruitless (s : System W) : Call → Prop
  | .act .start i ok => ok = false ∧ s.manager.running? i.record.id = none
  | _ => True

inductive Brings (created : List Record) (s₀ s s' : System W) (c : CollectionId)
    (k : Capability) : Job → Prop
  | nothing {job : Job} {calls : List Call}
      (hrunning : ∀ segment, s'.manager.running? segment = s.manager.running? segment)
      (hcached : ∀ j d, s'.manager.cached? j d = s.manager.cached? j d)
      (hjournal : s'.site.journal = calls.reverse ++ s.site.journal)
      (hcalls : ∀ call ∈ calls, Fruitless s call) : Brings created s₀ s s' c k job
  | launch {job : Job} {r : Record} {i : Instance}
      (habsent : s.manager.running? r.id = none) (hrecord : i.record = r)
      (hrunning : ∀ segment, s'.manager.running? segment =
        if segment = r.id then some i else s.manager.running? segment)
      (hcached : ∀ j d, s'.manager.cached? j d = s.manager.cached? j d)
      (hjournal : s'.site.journal = .act .start i true :: .build r true :: s.site.journal)
      (howes : Owes s' i job) : Brings created s₀ s s' c k job
  | entry {r : Record} {i : Instance} (hchosen : s₀.Chosen created c k r)
      (hkept : ∀ e, s.manager.cached? k c = some e → e = r)
      (hrunning : ∀ segment, s'.manager.running? segment = s.manager.running? segment)
      (hcached : ∀ j d, s'.manager.cached? j d =
        if j = k ∧ d = c then some r else s.manager.cached? j d)
      (hjournal : s'.site.journal = s.site.journal) :
      Brings created s₀ s s' c k (returned (.ok (.served i)))

section

variable {created : List Record} {s₀ s s' : System W} {c : CollectionId} {k : Capability}
  {job : Job}

omit [Backend W] in
theorem Stands.mono (h : Stands created s₀ s c k job) (hgrows : s.Grows s') :
    Stands created s₀ s' c k job := by
  cases h with
  | consult => exact .consult
  | fetch habsent => exact .fetch habsent
  | hit hcached => exact .hit (hgrows.cached _ _ _ hcached)
  | miss hchosen => exact .miss hchosen
  | remember hchosen hrunning => exact .remember hchosen (hgrows.running _ _ hrunning)
  | served hserving => exact .served (hgrows.serving hserving)
  | failed fault => exact .failed fault

omit [Backend W] in
theorem Owes.mono {i : Instance} (h : Owes s i job) (hgrows : s.Grows s') : Owes s' i job := by
  cases h with
  | acquire hrunning => exact .acquire (hgrows.running _ _ hrunning)
  | remember => exact .remember
  | served => exact .served

omit [Backend W] in
theorem Brings.grows (h : Brings created s₀ s s' c k job) : s.Grows s' := by
  cases h with
  | nothing hrunning hcached hjournal hcalls =>
      refine ⟨?_, ?_⟩
      · intro segment i hi
        rw [hrunning, hi]
      · intro j d r hr
        rw [hcached, hr]
  | launch habsent hrecord hrunning hcached hjournal howes =>
      refine ⟨?_, ?_⟩
      · intro segment i hi
        rw [hrunning, if_neg]
        · exact hi
        · rintro rfl
          rw [habsent] at hi
          cases hi
      · intro j d r hr
        rw [hcached, hr]
  | entry hchosen hkept hrunning hcached hjournal =>
      refine ⟨?_, ?_⟩
      · intro segment i hi
        rw [hrunning, hi]
      · intro j d r hr
        rw [hcached]
        split
        · rename_i hplace
          obtain ⟨rfl, rfl⟩ := hplace
          rw [hkept r hr]
        · exact hr

omit [Backend W] in
theorem Brings.absent_of_start (h : Brings created s₀ s s' c k job) {i : Instance} {ok : Bool}
    (hmem : Call.act .start i ok ∈ s'.site.callsAfter s.site.journal.length) :
    s.manager.running? i.record.id = none := by
  cases h with
  | nothing hrunning hcached hjournal hcalls =>
      rw [Site.callsAfter_of_journal_eq hjournal] at hmem
      exact (hcalls _ hmem).2
  | launch habsent hrecord hrunning hcached hjournal howes =>
      rename_i r j
      have hcalls : s'.site.journal =
          [Call.build r true, .act .start j true].reverse ++ s.site.journal := hjournal
      rw [Site.callsAfter_of_journal_eq hcalls, List.mem_pair] at hmem
      rcases hmem with hbuild | hstart
      · cases hbuild
      · cases hstart
        rw [hrecord]
        exact habsent
  | entry hchosen hkept hrunning hcached hjournal =>
      have hcalls : s'.site.journal = ([] : List Call).reverse ++ s.site.journal := hjournal
      rw [Site.callsAfter_of_journal_eq hcalls] at hmem
      cases hmem

omit [Backend W] in
theorem Brings.owes_or_same (h : Brings created s₀ s s' c k job) :
    (∃ i, Owes s' i job) ∨
      (∀ segment, s'.manager.running? segment = s.manager.running? segment) ∧
      ∀ j d, s'.manager.cached? j d = s.manager.cached? j d := by
  cases h with
  | nothing hrunning hcached hjournal hcalls => exact .inr ⟨hrunning, hcached⟩
  | launch habsent hrecord hrunning hcached hjournal howes => exact .inl ⟨_, howes⟩
  | entry hchosen hkept hrunning hcached hjournal => exact .inl ⟨_, .served⟩

structure Advances (created : List Record) (s₀ s s' : System W) (c : CollectionId)
    (k : Capability) (job : Job) : Prop where
  coherent : s'.Coherent created
  stands : Stands created s₀ s' c k job
  brings : Brings created s₀ s s' c k job

omit [Backend W] in
theorem Brings.of_same (hrunning : ∀ segment,
      s'.manager.running? segment = s.manager.running? segment)
    (hcached : ∀ j d, s'.manager.cached? j d = s.manager.cached? j d)
    (hjournal : s'.site.journal = s.site.journal) : Brings created s₀ s s' c k job :=
  have hnone : s'.site.journal = ([] : List Call).reverse ++ s.site.journal := hjournal
  .nothing hrunning hcached hnone (by simp)

theorem advances_consult (hs : s.Coherent created) (hgrows : s₀.Grows s) :
    Advances created s₀ s ((lookup (.serve k) c .consult).step s).2 c k
      ((lookup (.serve k) c .consult).step s).1 := by
  have hfound := System.consult_fst c k s
  have hcached := fun j d => System.cached?_consult c d k j s
  have hbrings : ∀ job, Brings created s₀ s (s.consult c k.scope).2 c k job := fun job =>
    .of_same (s.running?_consult c k.scope) hcached rfl
  have hcoherent := hs.consult c k
  simp only [step, Lookup.step, Errand.capability]
  cases hconsult : s.consult c k.scope with
  | mk found s' =>
      rw [hconsult] at hfound hcached hbrings hcoherent
      cases found with
      | some r => exact ⟨hcoherent, .hit ((hcached k c).trans hfound.symm), hbrings _⟩
      | none =>
          refine ⟨hcoherent, .fetch ?_, hbrings _⟩
          -- A record of the start would still be there.
          cases hstart : s₀.manager.cached? k c with
          | none => rfl
          | some r =>
              have hstill := hgrows.cached k c r hstart
              rw [← hfound] at hstill
              cases hstill

theorem advances_fetch (hs : s.Coherent created) (hkeeps : s₀.Keeps s)
    (habsent : s₀.manager.cached? k c = none) :
    Advances created s₀ s ((lookup (.serve k) c .fetch).step s).2 c k
      ((lookup (.serve k) c .fetch).step s).1 := by
  have hread := System.fetch_snd c k.scope s
  have hcoherent : (s.readCatalog c (some k.scope)).2.Coherent created := by
    refine ⟨hs.manager.congr ⟨⟨rfl, rfl, fun _ => rfl⟩, rfl, rfl, rfl⟩ rfl, ?_, ?_, hs.distinct⟩
    · exact (Catalog.filtering_read s.catalog c (some k.scope)).trans hs.filtering
    · exact (Catalog.rows_read s.catalog c (some k.scope)).symm ▸ hs.recorded
  have hbrings : ∀ job, Brings created s₀ s (s.readCatalog c (some k.scope)).2 c k job := fun job =>
    .of_same (fun _ => rfl) (fun j _ => by cases j <;> rfl) rfl
  simp only [step, Lookup.step, Errand.capability]
  cases hfetch : s.fetch c k.scope with
  | mk answer s' =>
      rw [hfetch] at hread
      obtain rfl : s' = _ := hread
      cases answer with
      | error fault => exact ⟨hcoherent, .failed fault, hbrings _⟩
      | ok r =>
          have hfetched := hkeeps.fetch_fst c k.scope
          rw [hfetch] at hfetched
          have hadmits := (System.admits_of_fetch hs.filtering hfetch).mono
            fun row hrow => hs.recorded.subset hrow
          exact ⟨hcoherent, .miss ⟨habsent, hfetched.symm, hadmits.congr hkeeps.setup.symm⟩,
            hbrings _⟩

theorem advances_hit (hs : s.Coherent created) {r : Record}
    (hcached : s.manager.cached? k c = some r) :
    Advances created s₀ s ((lookup (.serve k) c (.acquire r true)).step s).2 c k
      ((lookup (.serve k) c (.acquire r true)).step s).1 := by
  obtain ⟨-, i, hrunning⟩ := hs.manager.cached k c r hcached
  simp only [step, Lookup.step, System.acquire_of_running hrunning, if_true]
  exact ⟨hs, .served ⟨r, hcached, hrunning⟩, .of_same (fun _ => rfl) (fun _ _ => rfl) rfl⟩

theorem fruitless_of_launch {r : Record} {fault : Fault} {site : Site W}
    (habsent : s.manager.running? r.id = none)
    (hlaunch : System.launch s.manager r s.site = (.error fault, site)) :
    ∃ calls : List Call, site.journal = calls.reverse ++ s.site.journal ∧
      ∀ call ∈ calls, Fruitless s call := by
  rcases System.launch_cases s.manager r s.site with
    ⟨i, site', hend, -⟩ | ⟨fault', i, site', hend, hrecord, -, -, hjournal⟩ |
    ⟨fault', site', hend, -, hjournal⟩
  · rw [hend] at hlaunch
    cases hlaunch
  · rw [hend] at hlaunch
    cases hlaunch
    refine ⟨[.build r true, .act .start i false], hjournal, ?_⟩
    intro call hmem
    rcases List.mem_pair.mp hmem with rfl | rfl
    · trivial
    · exact ⟨rfl, hrecord ▸ habsent⟩
  · rw [hend] at hlaunch
    cases hlaunch
    rcases hjournal with hjournal | hjournal
    · exact ⟨[], hjournal, by simp⟩
    · refine ⟨[.build r false], hjournal, ?_⟩
      intro call hmem
      rw [List.mem_singleton.mp hmem]
      trivial

theorem journal_of_launch {r : Record} {i : Instance} {site : Site W}
    (hlaunch : System.launch s.manager r s.site = (.ok i, site)) :
    site.journal = .act .start i true :: .build r true :: s.site.journal := by
  rcases System.launch_cases s.manager r s.site with
    ⟨j, site', hend, -, -, -, hjournal⟩ | ⟨fault, j, site', hend, -⟩ | ⟨fault, site', hend, -⟩
  all_goals
    rw [hend] at hlaunch
    cases hlaunch
  exact hjournal

theorem advances_miss (hs : s.Coherent created) (hkeeps : s₀.Keeps s) {r : Record}
    (hchosen : s₀.Chosen created c k r) :
    Advances created s₀ s ((lookup (.serve k) c (.acquire r false)).step s).2 c k
      ((lookup (.serve k) c (.acquire r false)).step s).1 := by
  have hacquires := System.acquires_acquire r s
  simp only [step, Lookup.step]
  cases hend : s.acquire r with
  | mk answer s' =>
      rw [hend] at hacquires
      cases hacquires with
      | running hrunning =>
          exact ⟨hs, .remember hchosen hrunning, .of_same (fun _ => rfl) (fun _ _ => rfl) rfl⟩
      | failed habsent hlaunch =>
          obtain ⟨calls, hjournal, hcalls⟩ := fruitless_of_launch habsent hlaunch
          exact ⟨⟨hs.manager, hs.filtering, hs.recorded, hs.distinct⟩, .failed _,
            .nothing (fun _ => rfl) (fun _ _ => rfl) hjournal hcalls⟩
      | launched habsent hlaunch =>
          rename_i i site counters
          have hrecord := System.launch_record hlaunch
          have hcoherent := hs.manager.launched (hchosen.admits.congr hkeeps.setup) habsent hrecord
            counters
          have hrunning := fun segment => Table.get?_insert s.manager.instances r.id segment i
          have hstarted := hrunning r.id
          rw [if_pos rfl] at hstarted
          exact ⟨⟨hcoherent, hs.filtering, hs.recorded, hs.distinct⟩, .remember hchosen hstarted,
            .launch habsent hrecord hrunning (fun _ _ => rfl) (journal_of_launch hlaunch)
              .remember⟩

/-- Writing a record that is cached already changes nothing that is found. -/
theorem coherent_rewrite (hs : s.Coherent created) {r : Record}
    (hcached : ∀ j d, (s.caching r k.scope).manager.cached? j d = s.manager.cached? j d) :
    (s.caching r k.scope).Coherent created := by
  have hkeeps := s.keeps_caching r k
  refine ⟨?_, hs.filtering, hs.recorded, hs.distinct⟩
  apply hs.manager.restrict (hkeeps.wellFormed hs.manager.wellFormed) hkeeps.setup
  · intro segment i hrunning
    rwa [System.running?_caching] at hrunning
  · intro j d e hheld
    rw [hcached] at hheld
    exact ⟨hheld, System.running?_caching s r k.scope e.id⟩
  · intro d i htracked
    have htracks : s.manager.tracked? d = some i := by
      simpa only [System.caching, Manager.tracked?, Manager.openIndexes_withRecords]
        using htracked
    exact ⟨htracks, hcached _ d⟩

theorem advances_remember (hs : s.Coherent created)
    (hlimit : s.manager.deployment.limit? k = none) (hkeeps : s₀.Keeps s)
    {r : Record} {i : Instance} (hchosen : s₀.Chosen created c k r)
    (hrunning : s.manager.running? r.id = some i)
    (hkept : ∀ e, s.manager.cached? k c = some e → e = r) :
    Advances created s₀ s ((lookup (.serve k) c (.remember r i)).step s).2 c k
      ((lookup (.serve k) c (.remember r i)).step s).1 := by
  have hadmits := hchosen.admits.congr hkeeps.setup
  have hnone := hs.displaced_of_unlimited hlimit r
  have hremember : s.remember r k.scope = s.caching r k.scope := by
    rw [System.remember_eq, hnone, System.evictAll_nil]
  have hstep : (lookup (.serve k) c (.remember r i)).step s =
      (follow (.serve k) c (Lookup.evicting i (s.displaced r k.scope)), s.caching r k.scope) := rfl
  have hcached : ∀ j d, (s.caching r k.scope).manager.cached? j d =
      if j = k ∧ d = c then some r else s.manager.cached? j d := by
    intro j d
    rw [← hremember, System.cached?_remember r k hs.manager.wellFormed, hnone, hadmits.collection]
    by_cases hj : j = k <;> by_cases hd : d = c <;> simp [hj, hd]
  have hserving : (s.caching r k.scope).manager.Serving k c i := by
    refine ⟨r, ?_, (s.running?_caching r k.scope r.id).trans hrunning⟩
    rw [hcached, if_pos ⟨rfl, rfl⟩]
  rw [hstep, hnone]
  refine ⟨?_, .served hserving, .entry hchosen hkept (s.running?_caching r k.scope) hcached rfl⟩
  cases habsent : s.manager.cached? k c with
  | none =>
      have hcoherent := (hs.remember hadmits hrunning habsent).1
      rwa [hremember] at hcoherent
  | some e =>
      obtain rfl := hkept e habsent
      apply coherent_rewrite hs
      intro j d
      rw [hcached]
      split
      · rename_i hplace
        obtain ⟨rfl, rfl⟩ := hplace
        exact habsent.symm
      · rfl

theorem Stands.advances (hjob : Stands created s₀ s c k job) (hs : s.Coherent created)
    (hlimit : s.manager.deployment.limit? k = none) (hkeeps : s₀.Keeps s) (hgrows : s₀.Grows s)
    (hheld : ∀ r, s.manager.cached? k c = some r →
      s₀.manager.cached? k c = some r ∨ s₀.Chosen created c k r) :
    Advances created s₀ s (job.step s).2 c k (job.step s).1 := by
  cases hjob with
  | consult => exact advances_consult hs hgrows
  | fetch habsent => exact advances_fetch hs hkeeps habsent
  | hit hcached => exact advances_hit hs hcached
  | miss hchosen => exact advances_miss hs hkeeps hchosen
  | remember hchosen hrunning =>
      apply advances_remember hs hlimit hkeeps hchosen hrunning
      intro e he
      rcases hheld e he with hstart | hother
      · rw [hchosen.absent] at hstart
        cases hstart
      · exact hother.eq hchosen
  | served hserving =>
      exact ⟨hs, .served hserving, .of_same (fun _ => rfl) (fun _ _ => rfl) rfl⟩
  | failed fault => exact ⟨hs, .failed fault, .of_same (fun _ => rfl) (fun _ _ => rfl) rfl⟩

omit [Backend W] in
theorem Owes.eq {i : Instance} {answer : Except Fault Reply}
    (howes : Owes s i (returned answer)) : answer = .ok (.served i) := by
  cases howes
  rfl

theorem Owes.step {i : Instance} (howes : Owes s i job) (hs : s.Coherent created)
    (hlimit : ∀ k, s.manager.deployment.limit? k = none) :
    Owes (job.step s).2 i (job.step s).1 := by
  cases howes with
  | served => exact .served
  | acquire hrunning =>
      rename_i k c r cached
      simp only [Job.step, Lookup.step, System.acquire_of_running hrunning]
      cases cached with
      | true => exact .served
      | false => exact .remember
  | remember =>
      rename_i k c r
      have hnone := hs.displaced_of_unlimited (hlimit k) r
      have hstep : (lookup (.serve k) c (.remember r i)).step s =
          (follow (.serve k) c (Lookup.evicting i (s.displaced r k.scope)),
            s.caching r k.scope) := rfl
      rw [hstep, hnone]
      exact .served

end

end Job

end SegmentManager
