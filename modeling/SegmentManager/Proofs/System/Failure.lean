import SegmentManager.Proofs.System.Coherence

/-!
# Lookups that fail

A lookup fails because the catalog refuses to be read, because it has no row
that fits, because no worker serves the collection, or because the instance
cannot be made or started.  Whichever it is, the manager is left as it was but
for two counters, and nothing was asked of any instance that ran.
-/

namespace SegmentManager

open Simulation

def Manager.missed (m : Manager) : Manager :=
  m.tally fun n => { n with misses := n.misses + 1, fetches := n.fetches + 1 }

namespace System

variable {W : Type} [Backend W]

/-- The ways in which a lookup fails, each with its fault and with the calls
that were made for it.  The only instance that is ever called is a new one.
Among them is none for a kind that the registry does not know: no row of such a
kind is ever selected. -/
inductive Fails (c : CollectionId) (k : Capability) (s : System W) : Fault → List Call → Prop
  | refused {text : String} (hrefusal : s.catalog.refusal = some text) :
      Fails c k s (.catalog text) []
  | notFound (hserves : s.catalog.refusal = none)
      (hnone : ∀ row ∈ s.catalog.rowsOf c, row.scope = k.scope →
        s.manager.kinds.knows row.kind = false) :
      Fails c k s (.segmentNotFound c k.scope) []
  | unreachable {row : Record} {text : String} (hrow : row ∈ s.catalog.rowsOf c)
      (hcomplete : s.manager.complete row = .error (.endpointResolution text)) :
      Fails c k s (.endpointResolution text) []
  | unbuilt {r : Record} {fault : Fault} (hadmits : s.manager.Admits s.catalog.rows k c r)
      (hbuild : (Backend.build s.manager.persistDirectory s.site.built r s.site.world).1 =
        .error fault) :
      Fails c k s fault [.build r false]
  | unstarted {r : Record} {i : Instance} {world : W} {fault : Fault}
      (hadmits : s.manager.Admits s.catalog.rows k c r)
      (hrecord : i.record = r) (hserial : i.serial = s.site.built)
      (hbuild : Backend.build s.manager.persistDirectory s.site.built r s.site.world =
        (.ok i.views, world))
      (hstart : (Backend.perform .start i world).1 = .error fault) :
      Fails c k s fault [.build r true, .act .start i false]

/-! ## Fetching and launching -/

omit [Backend W] in
theorem complete_eq_error {m : Manager} {row : Record} {fault : Fault}
    (hcomplete : m.complete row = .error fault) : ∃ text, fault = .endpointResolution text := by
  unfold Manager.complete at hcomplete
  cases hdeployment : m.deployment with
  | inProcess settings => simp [hdeployment] at hcomplete
  | distributed workers =>
      simp only [hdeployment, Workers.endpoint] at hcomplete
      cases howner : workers.owner (toString row.collection) with
      | some member => simp [howner, Except.map] at hcomplete
      | none =>
          simp only [howner, Except.map, Except.error.injEq] at hcomplete
          exact ⟨_, hcomplete.symm⟩

omit [Backend W] in
theorem fetch_eq_error {c : CollectionId} {scope : Scope} {s : System W} {fault : Fault}
    (hfilter : s.catalog.filtering = true) (hfetch : (s.fetch c scope).1 = .error fault) :
    (∃ text, s.catalog.refusal = some text ∧ fault = .catalog text) ∨
    (s.catalog.refusal = none ∧ fault = .segmentNotFound c scope ∧
      ∀ row ∈ s.catalog.rowsOf c, row.scope = scope → s.manager.kinds.knows row.kind = false) ∨
    ∃ row ∈ s.catalog.rowsOf c, ∃ text,
      s.manager.complete row = .error (.endpointResolution text) ∧
        fault = .endpointResolution text := by
  unfold fetch readCatalog Catalog.read at hfetch
  cases hrefusal : s.catalog.refusal with
  | some text =>
      simp only [hrefusal, Except.error.injEq] at hfetch
      exact .inl ⟨text, rfl, hfetch.symm⟩
  | none =>
      right
      simp only [hrefusal, hfilter, if_true, Manager.tally] at hfetch
      unfold Registry.selectKnown at hfetch
      split at hfetch
      · rename_i row hfound
        right
        obtain ⟨text, rfl⟩ := complete_eq_error hfetch
        refine ⟨row, ?_, text, hfetch, rfl⟩
        have hrow := (List.mem_filter.mp (List.mem_of_find?_eq_some hfound))
        simp only [decide_eq_true_eq] at hrow
        exact List.mem_filter.mpr ⟨hrow.1, by simpa using hrow.2.1⟩
      · rename_i hnone
        left
        simp only [Except.bind, Except.error.injEq] at hfetch
        refine ⟨rfl, hfetch.symm, ?_⟩
        intro row hrow hscope
        obtain ⟨hmem, hcollection⟩ := List.mem_filter.mp hrow
        have hskipped := List.find?_eq_none.mp hnone row (List.mem_filter.mpr ⟨hmem, by
          simpa [hscope] using hcollection⟩)
        simpa [hscope] using hskipped

theorem launch_eq_error {m : Manager} {r : Record} {site site' : Site W} {fault : Fault}
    (hknown : m.kinds.knows r.kind = true) (hlaunch : launch m r site = (.error fault, site')) :
    ((Backend.build m.persistDirectory site.built r site.world).1 = .error fault ∧
      site'.journal = .build r false :: site.journal) ∨
    ∃ (i : Instance) (world : W), i.record = r ∧ i.serial = site.built ∧
      Backend.build m.persistDirectory site.built r site.world = (.ok i.views, world) ∧
      (Backend.perform .start i world).1 = .error fault ∧
      site'.journal = .act .start i false :: .build r true :: site.journal := by
  unfold launch Registry.instantiate at hlaunch
  rw [if_pos hknown] at hlaunch
  unfold Site.build at hlaunch
  cases hbuild : Backend.build m.persistDirectory site.built r site.world with
  | mk views world =>
      cases views with
      | error refusal =>
          simp only [hbuild, Prod.mk.injEq, Except.error.injEq] at hlaunch
          obtain ⟨rfl, rfl⟩ := hlaunch
          exact .inl ⟨rfl, rfl⟩
      | ok views =>
          simp only [hbuild, Site.perform] at hlaunch
          cases hstart : Backend.perform .start ⟨site.built, r, views⟩ world with
          | mk outcome after =>
              cases outcome with
              | ok done => simp [hstart] at hlaunch
              | error refusal =>
                  simp only [hstart, Prod.mk.injEq, Except.error.injEq] at hlaunch
                  obtain ⟨rfl, rfl⟩ := hlaunch
                  exact .inr ⟨⟨site.built, r, views⟩, world, rfl, rfl, rfl,
                    congrArg Prod.fst hstart, rfl⟩

omit [Backend W] in
theorem manager_fetching {c : CollectionId} {k : Capability} {s : System W}
    (habsent : s.manager.cached? k c = none) : (s.fetching c k).manager = s.manager.missed := by
  unfold fetching
  rw [consult_of_absent habsent]
  rfl

theorem fails_load {c : CollectionId} {k : Capability} {s s' : System W} {fault : Fault}
    (hfilter : s.catalog.filtering = true) (habsent : s.manager.cached? k c = none)
    (hload : s.load c k = (.error fault, s')) :
    s'.manager = s.manager.missed ∧ s'.catalog.rows = s.catalog.rows ∧
      ∃ calls, Fails c k s fault calls ∧ s'.site.journal = calls.reverse ++ s.site.journal := by
  have hmanager := manager_fetching habsent
  unfold load at hload
  have hnext := fetch_snd c k.scope (s.consult c k.scope).2
  cases hfetch : (s.consult c k.scope).2.fetch c k.scope with
  | mk answer next =>
      rw [hfetch] at hnext
      obtain rfl : next = s.fetching c k := hnext
      cases answer with
      | error refusal =>
          simp only [hfetch, Prod.mk.injEq, Except.error.injEq] at hload
          obtain ⟨rfl, rfl⟩ := hload
          refine ⟨hmanager, rows_fetching, [], ?_, rfl⟩
          have hcauses := fetch_eq_error (by rw [catalog_consult, hfilter])
            (congrArg Prod.fst hfetch)
          rw [catalog_consult, kinds_consult] at hcauses
          rcases hcauses with ⟨text, hrefusal, rfl⟩ | ⟨hserves, rfl, hnone⟩ |
            ⟨row, hrow, text, hcomplete, rfl⟩
          · exact .refused hrefusal
          · exact .notFound hserves hnone
          · refine .unreachable hrow ?_
            unfold Manager.complete at hcomplete ⊢
            rw [deployment_consult] at hcomplete
            exact hcomplete
      | ok r =>
          simp only [hfetch] at hload
          have hadmits : s.manager.Admits s.catalog.rows k c r :=
            (admits_of_fetch (by rw [catalog_consult, hfilter]) hfetch).congr
              (sameSetup_consult c k s).symm
          cases hrunning : (s.fetching c k).manager.running? r.id with
          | some i => simp [acquire_of_running hrunning] at hload
          | none =>
              simp only [acquire_of_absent hrunning] at hload
              cases hlaunch : launch (s.fetching c k).manager r (s.fetching c k).site with
              | mk outcome site =>
                  cases outcome with
                  | ok i => simp [hlaunch] at hload
                  | error refusal =>
                      simp only [hlaunch, Prod.mk.injEq, Except.error.injEq] at hload
                      obtain ⟨rfl, rfl⟩ := hload
                      rw [hmanager] at hlaunch
                      refine ⟨hmanager, rows_fetching, ?_⟩
                      rcases launch_eq_error hadmits.known hlaunch with ⟨hbuild, hjournal⟩ |
                        ⟨i, world, hrecord, hserial, hbuild, hstart, hjournal⟩
                      · exact ⟨_, .unbuilt hadmits hbuild, hjournal⟩
                      · exact ⟨_, .unstarted hadmits hrecord hserial hbuild hstart, hjournal⟩

/-! ## Lookups in histories -/

omit [Backend W] in
theorem counters_consult_of_cached {c : CollectionId} {k : Capability} {s : System W} {r : Record}
    (hcached : s.manager.cached? k c = some r) :
    (s.consult c k.scope).2.manager.counters =
      { s.manager.counters with hits := s.manager.counters.hits + 1 } := by
  have hfound : ((s.manager.records k.scope).touch c).1.isSome = true := by
    rw [RecordCache.touch_fst]
    exact Option.isSome_of_eq_some hcached
  have hkept : ∀ cache, (s.manager.withRecords k.scope cache).counters = s.manager.counters := by
    intro cache
    cases k <;> rfl
  simp only [consult, Manager.tally, hfound, if_true, hkept]

/-- From any state that a history leads to.  A lookup that fails changes nothing
but two counters: no tier, no order of use, and no call but those to the new
instance.  One whose record is cached does not fail and makes no call.  A name
that stands for no capability changes nothing at all. -/
theorem failed_lookup_changes_nothing {m : Manager} (hm : m.Fresh) (w : W)
    {events : List (Event W)} (hids : Event.NeverShared events) (c : CollectionId)
    (k : Capability) :
    let s := (initial m w).replay events
    let s' := (s.getSegment c k).2
    (∀ fault, (s.getSegment c k).1 = .error fault →
      s'.manager = s.manager.missed ∧ s'.catalog.rows = s.catalog.rows ∧
        Fails c k s fault (s'.site.callsAfter s.site.journal.length)) ∧
    (s.manager.isCached c k.scope = true →
      (∃ i, (s.getSegment c k).1 = .ok i) ∧ s'.site = s.site ∧ s'.catalog = s.catalog ∧
        s'.manager.counters =
          { s.manager.counters with hits := s.manager.counters.hits + 1 }) ∧
    ∀ name : String, (∀ capability : Capability, capability.name ≠ name) →
      s.getSegmentNamed c name = (.error (.invalidCapability name), s) := by
  have hs := coherent_replay hm w hids
  simp only
  generalize (initial m w).replay events = s at hs ⊢
  refine ⟨?_, ?_, ?_⟩
  · intro fault hfault
    cases hcached : s.manager.cached? k c with
    | some r =>
        obtain ⟨i, hrunning⟩ := (hs.manager.cached k c r hcached).2
        rw [getSegment_of_cached hcached hrunning] at hfault
        cases hfault
    | none =>
        rw [getSegment_of_absent hcached] at hfault ⊢
        cases hload : s.load c k with
        | mk answer s' =>
            rw [hload] at hfault
            cases answer with
            | ok loaded => cases hfault
            | error refusal =>
                obtain rfl : refusal = fault := by simpa using hfault
                obtain ⟨hmanager, hrows, calls, hfails, hjournal⟩ :=
                  fails_load hs.filtering hcached hload
                simp only
                rw [Site.callsAfter_of_journal_eq hjournal]
                exact ⟨hmanager, hrows, hfails⟩
  · intro hheld
    obtain ⟨r, hcached⟩ : ∃ r, s.manager.cached? k c = some r := by
      apply Option.isSome_iff_exists.mp
      cases k <;> exact hheld
    obtain ⟨i, hrunning⟩ := (hs.manager.cached k c r hcached).2
    rw [getSegment_of_cached hcached hrunning]
    exact ⟨⟨i, rfl⟩, rfl, rfl, counters_consult_of_cached hcached⟩
  · intro name hname
    have hnone : Capability.ofName? name = none := by
      unfold Capability.ofName?
      rw [List.find?_eq_none]
      intro capability _ hsame
      exact hname capability (by simpa using hsame)
    unfold getSegmentNamed
    rw [hnone]

/-- The crowded budget, with an instance that does not start once its record was
evicted. -/
def faltering : List (Event World) :=
  crowded ++ [.elapse fun w => w.fail ⟨.act .start, some (numberedSegment 0 .vector)⟩]

theorem faltering_lookup_changes_nothing :
    ∃ m : Manager, m.Fresh ∧ Event.NeverShared faltering ∧
      let s := (initial m keeperWorld).replay faltering
      let c := (numberedCollection 0).id
      ∃ fault, (s.getSegment c .vectorReader).1 = .error fault ∧
        (s.getSegment c .vectorReader).2.manager = s.manager.missed ∧
        ((s.getSegment c .vectorReader).2.site.callsAfter s.site.journal.length).length = 2 := by
  have hids : Event.NeverShared faltering := by decide +kernel
  have hfails : ∀ m, Manager.inProcess crowdedSettings keeperRegistry = .ok m →
      let s := (initial m keeperWorld).replay faltering
      (s.getSegment (numberedCollection 0).id .vectorReader).1.isOk = false ∧
        ((s.getSegment (numberedCollection 0).id .vectorReader).2.site.callsAfter
          s.site.journal.length).length = 2 := by
    rintro m ⟨⟩
    decide +kernel
  obtain ⟨m, hm⟩ : ∃ m, Manager.inProcess crowdedSettings keeperRegistry = .ok m := ⟨_, rfl⟩
  obtain ⟨hnot, hcalls⟩ := hfails m hm
  obtain ⟨hfailed, -⟩ := failed_lookup_changes_nothing (.inProcess hm) keeperWorld hids
    (numberedCollection 0).id .vectorReader
  refine ⟨m, .inProcess hm, hids, ?_⟩
  cases hanswer : (((initial m keeperWorld).replay faltering).getSegment
      (numberedCollection 0).id .vectorReader).1 with
  | ok i =>
      rw [hanswer] at hnot
      cases hnot
  | error fault => exact ⟨fault, hanswer, (hfailed fault hanswer).1, hcalls⟩

end System

end SegmentManager
