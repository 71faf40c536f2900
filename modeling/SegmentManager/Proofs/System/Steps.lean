import SegmentManager.System.Lookup
import SegmentManager.System.Teardown
import SegmentManager.Proofs.System.Views

/-!
# Effects of the steps

What each access to a part of the system does to the tiers and to the site.
Everything that is proved about whole operations rests on these.
-/

namespace SegmentManager

def Call.succeeded : Call → Bool
  | .build _ ok => ok
  | .act _ _ ok => ok

namespace Site

variable {W : Type} [Backend W]

omit [Backend W] in
theorem notMem_of_succeeded {site : Site W} (hall : site.journal.all Call.succeeded = true)
    (action : Action) (i : Instance) : Call.act action i false ∉ site.journal := by
  intro hmem
  cases List.all_eq_true.mp hall _ hmem

theorem journal_perform (action : Action) (i : Instance) (site : Site W) :
    (site.perform action i).2.journal =
      .act action i (site.perform action i).1.isOk :: site.journal := rfl

/-- The fold behind `performAll`, from any first outcome. -/
theorem performAll_from (action : Action) (first : Except Fault Unit) (targets : List Instance)
    (site : Site W) :
    targets.foldl (fun (first, site) i =>
      match first, site.perform action i with
      | .ok (), (outcome, site) => (outcome, site)
      | .error fault, (_, site) => (.error fault, site)) (first, site) =
    (match first with
      | .ok () => (site.performAll action targets).1
      | .error fault => .error fault, (site.performAll action targets).2) := by
  induction targets generalizing first site with
  | nil => cases first <;> rfl
  | cons i rest ih =>
      cases first with
      | ok done => rfl
      | error fault =>
          have hnow := ih (.error fault) (site.perform action i).2
          have hlater := congrArg Prod.snd
            (ih (site.perform action i).1 (site.perform action i).2)
          exact hnow.trans (Prod.ext rfl hlater.symm)

theorem performAll_cons (action : Action) (i : Instance) (rest : List Instance)
    (site : Site W) :
    site.performAll action (i :: rest) =
      (match (site.perform action i).1 with
        | .ok () => ((site.perform action i).2.performAll action rest).1
        | .error fault => .error fault,
      ((site.perform action i).2.performAll action rest).2) :=
  performAll_from action (site.perform action i).1 rest (site.perform action i).2

@[simp] theorem performAll_nil (action : Action) (site : Site W) :
    site.performAll action [] = (.ok (), site) := rfl

theorem performAll_cons_snd (action : Action) (i : Instance) (rest : List Instance)
    (site : Site W) :
    (site.performAll action (i :: rest)).2 =
      ((site.perform action i).2.performAll action rest).2 := by
  rw [performAll_cons]

theorem performAll_cons_ok_iff (action : Action) (i : Instance) (rest : List Instance)
    (site : Site W) :
    (site.performAll action (i :: rest)).1 = .ok () ↔
      (site.perform action i).1 = .ok () ∧
        ((site.perform action i).2.performAll action rest).1 = .ok () := by
  rw [performAll_cons]
  cases (site.perform action i).1 with
  | ok done => simp
  | error fault => simp

theorem performAll_append_snd (action : Action) (targets others : List Instance)
    (site : Site W) :
    (site.performAll action (targets ++ others)).2 =
      ((site.performAll action targets).2.performAll action others).2 := by
  induction targets generalizing site with
  | nil => rfl
  | cons i rest ih => rw [List.cons_append, performAll_cons_snd, performAll_cons_snd, ih]

def asks (action : Action) : List Instance → Site W → List Call
  | [], _ => []
  | i :: rest, site =>
      .act action i (site.perform action i).1.isOk ::
        asks action rest (site.perform action i).2

theorem mem_asks (action : Action) {targets : List Instance} {i : Instance} (hi : i ∈ targets)
    (site : Site W) : ∃ ok, .act action i ok ∈ asks action targets site := by
  induction targets generalizing site with
  | nil => cases hi
  | cons j rest ih =>
      rcases List.mem_cons.mp hi with rfl | hlater
      · exact ⟨_, List.mem_cons_self⟩
      · obtain ⟨ok, hmem⟩ := ih hlater (site.perform action j).2
        exact ⟨ok, List.mem_cons_of_mem _ hmem⟩

theorem journal_performAll (action : Action) (targets : List Instance) (site : Site W) :
    (site.performAll action targets).2.journal =
      (asks action targets site).reverse ++ site.journal := by
  induction targets generalizing site with
  | nil => rfl
  | cons i rest ih =>
      rw [performAll_cons_snd, ih, journal_perform, asks, List.reverse_cons, List.append_assoc]
      rfl

theorem built_performAll (action : Action) (targets : List Instance) (site : Site W) :
    (site.performAll action targets).2.built = site.built := by
  induction targets generalizing site with
  | nil => rfl
  | cons i rest ih => rw [performAll_cons_snd, ih, built_perform]

theorem closeAll_eq (targets : List Instance) (site : Site W) :
    OpenIndexes.closeAll targets site =
      (site.performAll .closeIndex (targets.filter (·.views.persistentIndex))).2 := by
  induction targets generalizing site with
  | nil => rfl
  | cons i rest ih =>
      have hcons : OpenIndexes.closeAll (i :: rest) site = OpenIndexes.closeAll rest
          (if i.views.persistentIndex then (site.perform .closeIndex i).2 else site) := rfl
      rw [hcons, ih]
      by_cases hpersistent : i.views.persistentIndex = true
      · rw [if_pos hpersistent, List.filter_cons, if_pos hpersistent, performAll_cons_snd]
      · rw [if_neg hpersistent, List.filter_cons, if_neg hpersistent]

theorem asks_of_ok {action : Action} {targets : List Instance} {site : Site W}
    (hok : (site.performAll action targets).1 = .ok ()) :
    asks action targets site = targets.map (Call.act action · true) := by
  induction targets generalizing site with
  | nil => rfl
  | cons i rest ih =>
      obtain ⟨hfirst, hrest⟩ := (performAll_cons_ok_iff action i rest site).mp hok
      rw [asks, hfirst, ih hrest]
      rfl

theorem journal_performAll_of_ok {action : Action} {targets : List Instance} {site : Site W}
    (hok : (site.performAll action targets).1 = .ok ()) :
    (site.performAll action targets).2.journal =
      (targets.map (.act action · true)).reverse ++ site.journal := by
  rw [journal_performAll, asks_of_ok hok]

theorem journal_performAll_concat {action : Action} {targets : List Instance} {i : Instance}
    {site : Site W} {fault : Fault} (hok : (site.performAll action targets).1 = .ok ())
    (hfails : ((site.performAll action targets).2.perform action i).1 = .error fault) :
    (site.performAll action (targets ++ [i])).2.journal =
      (targets.map (Call.act action · true) ++ [Call.act action i false]).reverse ++
        site.journal := by
  rw [performAll_append_snd, performAll_cons_snd, performAll_nil, journal_perform, hfails,
    journal_performAll_of_ok hok, List.reverse_append]
  rfl

omit [Backend W] in
theorem callsAfter_of_journal_eq {site site' : Site W} {calls : List Call}
    (hjournal : site'.journal = calls.reverse ++ site.journal) :
    site'.callsAfter site.journal.length = calls := by
  unfold callsAfter
  have hlength : site'.journal.length - site.journal.length = calls.reverse.length := by
    rw [hjournal, List.length_append]
    omega
  rw [hlength, hjournal, List.take_left, List.reverse_reverse]

end Site

namespace Catalog

@[simp] theorem filtering_read (k : Catalog) (c : CollectionId) (scope : Option Scope) :
    (k.read c scope).2.filtering = k.filtering := by
  unfold read
  split <;> rfl

theorem mem_of_read {k : Catalog} (hk : k.filtering = true) {c : CollectionId}
    {scope : Option Scope} {rows : List Record} (hread : (k.read c scope).1 = .ok rows)
    {r : Record} (hr : r ∈ rows) :
    r ∈ k.rows ∧ r.collection = c ∧ ∀ wanted ∈ scope, r.scope = wanted := by
  unfold read at hread
  split at hread
  · cases hread
  · simp only [hk, if_true, Except.ok.injEq] at hread
    subst hread
    obtain ⟨hmem, hwanted⟩ := List.mem_filter.mp hr
    simp only [decide_eq_true_eq] at hwanted
    exact ⟨hmem, hwanted.1, hwanted.2⟩

theorem read_all {k : Catalog} (hk : k.filtering = true) (hrefusal : k.refusal = none)
    (c : CollectionId) : (k.read c none).1 = .ok (k.rowsOf c) := by
  unfold read rowsOf
  simp [hk, hrefusal]

theorem eq_rowsOf_of_read {k : Catalog} (hk : k.filtering = true) {c : CollectionId}
    {rows : List Record} (hrows : (k.read c none).1 = .ok rows) : rows = k.rowsOf c := by
  cases hrefusal : k.refusal with
  | none => exact Except.ok.inj (hrows.symm.trans (read_all hk hrefusal c))
  | some text => simp [read, hrefusal] at hrows

end Catalog

namespace System

variable {W : Type}

/-! ## Consulting and fetching -/

theorem consult_fst (c : CollectionId) (k : Capability) (s : System W) :
    (s.consult c k.scope).1 = s.manager.cached? k c :=
  RecordCache.touch_fst _ c

theorem consult_of_absent {c : CollectionId} {k : Capability} {s : System W}
    (habsent : s.manager.cached? k c = none) :
    s.consult c k.scope = (none, { s with
      manager := s.manager.tally fun n => { n with misses := n.misses + 1 } }) := by
  unfold consult
  rw [RecordCache.touch_of_absent habsent]
  simp

section Consult

variable (c : CollectionId) (scope : Scope) (s : System W)

@[simp] theorem deployment_consult :
    (s.consult c scope).2.manager.deployment = s.manager.deployment :=
  Manager.deployment_withRecords s.manager scope _

@[simp] theorem kinds_consult : (s.consult c scope).2.manager.kinds = s.manager.kinds :=
  Manager.kinds_withRecords s.manager scope _

@[simp] theorem instances_consult :
    (s.consult c scope).2.manager.instances = s.manager.instances :=
  Manager.instances_withRecords s.manager scope _

@[simp] theorem openIndexes_consult :
    (s.consult c scope).2.manager.openIndexes = s.manager.openIndexes :=
  Manager.openIndexes_withRecords s.manager scope _

@[simp] theorem catalog_consult : (s.consult c scope).2.catalog = s.catalog := rfl

end Consult

theorem sameSetup_consult (c : CollectionId) (k : Capability) (s : System W) :
    Manager.SameSetup s.manager (s.consult c k.scope).2.manager := by
  have hsetup := Manager.SameSetup.withRecords s.manager k
    (RecordCache.limit?_touch (s.manager.records k.scope) c)
  exact ⟨hsetup.deployment, hsetup.kinds, hsetup.limits⟩

theorem cached?_consult (c d : CollectionId) (k j : Capability) (s : System W) :
    (s.consult c k.scope).2.manager.cached? j d = s.manager.cached? j d := by
  have hcached := Manager.cached?_withRecords s.manager k j
    ((s.manager.records k.scope).touch c).2 d
  rw [RecordCache.peek?_touch] at hcached
  by_cases hj : j = k
  · subst hj
    rw [if_pos rfl] at hcached
    exact hcached
  · rw [if_neg hj] at hcached
    exact hcached

theorem fetch_snd (c : CollectionId) (scope : Scope) (s : System W) :
    (s.fetch c scope).2 = (s.readCatalog c (some scope)).2 := by
  unfold fetch
  cases hread : s.readCatalog c (some scope) with
  | mk rows next => cases rows <;> rfl

theorem fetch_eq_ok {c : CollectionId} {scope : Scope} {s s' : System W} {r : Record}
    (hfilter : s.catalog.filtering = true) (hfetch : s.fetch c scope = (.ok r, s')) :
    ∃ row ∈ s.catalog.rows, row.collection = c ∧ row.scope = scope ∧
      s.manager.kinds.knows row.kind = true ∧ s.manager.complete row = .ok r := by
  unfold fetch readCatalog at hfetch
  cases hread : s.catalog.read c (some scope) with
  | mk answer catalog =>
      cases answer with
      | error fault => simp [hread] at hfetch
      | ok rows =>
          simp only [hread, Prod.mk.injEq] at hfetch
          cases hselect : s.manager.kinds.selectKnown rows c scope with
          | error fault => simp [Manager.tally, hselect, Except.bind] at hfetch
          | ok row =>
              obtain ⟨hmem, hscope, hknown⟩ := Registry.selectKnown_eq_ok hselect
              have hrow := Catalog.mem_of_read hfilter (congrArg Prod.fst hread) hmem
              have hcomplete := hfetch.1
              simp only [Manager.tally, hselect, Except.bind] at hcomplete
              exact ⟨row, hrow.1, hrow.2.1, hscope, hknown, hcomplete⟩

/-! ## Acquiring -/

variable [Backend W]

/-- A launch makes one instance, with the next serial number, and starts it; it
may fail before, at or after the making. -/
theorem launch_cases (m : Manager) (r : Record) (site : Site W) :
    (∃ i site', launch m r site = (.ok i, site') ∧ i.record = r ∧ i.serial = site.built ∧
      site'.built = site.built + 1 ∧
      site'.journal = .act .start i true :: .build r true :: site.journal) ∨
    (∃ fault i site', launch m r site = (.error fault, site') ∧ i.record = r ∧
      i.serial = site.built ∧ site'.built = site.built + 1 ∧
      site'.journal = .act .start i false :: .build r true :: site.journal) ∨
    (∃ fault site', launch m r site = (.error fault, site') ∧ site'.built = site.built ∧
      (site'.journal = site.journal ∨ site'.journal = .build r false :: site.journal)) := by
  unfold launch Registry.instantiate
  by_cases hknown : m.kinds.knows r.kind = true
  · rw [if_pos hknown]
    unfold Site.build
    cases hbuild : Backend.build m.persistDirectory site.built r site.world with
    | mk views world =>
        cases views with
        | error fault => exact .inr (.inr ⟨fault, _, rfl, rfl, .inr rfl⟩)
        | ok views =>
            simp only
            generalize hsite : (⟨world, site.built + 1, .build r true :: site.journal⟩ : Site W) =
              made
            have hbuilt : made.built = site.built + 1 := by rw [← hsite]
            have hjournal : made.journal = .build r true :: site.journal := by rw [← hsite]
            have hstart := Site.journal_perform .start ⟨site.built, r, views⟩ made
            have hkept := Site.built_perform .start ⟨site.built, r, views⟩ made
            cases hperform : made.perform .start ⟨site.built, r, views⟩ with
            | mk outcome site' =>
                rw [hperform] at hstart hkept
                rw [hjournal] at hstart
                rw [hbuilt] at hkept
                cases outcome with
                | ok done => exact .inl ⟨_, site', rfl, rfl, rfl, hkept, hstart⟩
                | error fault => exact .inr (.inl ⟨fault, _, site', rfl, rfl, rfl, hkept, hstart⟩)
  · rw [if_neg hknown]
    exact .inr (.inr ⟨_, site, rfl, rfl, .inl rfl⟩)

theorem acquire_of_running {s : System W} {r : Record} {i : Instance}
    (hrunning : s.manager.running? r.id = some i) : s.acquire r = (.ok i, s) := by
  unfold acquire
  rw [Instances.getOrCreate_of_running hrunning]
  rfl

/-- With no instance of the record's segment, what `acquire` does is the launch,
and the new instance is entered. -/
theorem acquire_of_absent {s : System W} {r : Record}
    (habsent : s.manager.running? r.id = none) :
    s.acquire r =
      match launch s.manager r s.site with
      | (.error fault, site) => (.error fault, { s with site })
      | (.ok i, site) => (.ok i, { s with
          manager := { s.manager with
            instances := s.manager.instances.insert r.id i
            counters := { s.manager.counters with started := s.manager.counters.started + 1 } }
          site }) := by
  have hget : s.manager.instances.get? r.id = none := habsent
  unfold acquire Instances.getOrCreate
  simp only [hget]
  cases launch s.manager r s.site with
  | mk outcome site => cases outcome <;> rfl

inductive Acquires (r : Record) (s : System W) : Except Fault Instance → System W → Prop
  | running {i : Instance} (hrunning : s.manager.running? r.id = some i) : Acquires r s (.ok i) s
  | failed {fault : Fault} {site : Site W} (habsent : s.manager.running? r.id = none)
      (hlaunch : launch s.manager r s.site = (.error fault, site)) :
      Acquires r s (.error fault) { s with site }
  | launched {i : Instance} {site : Site W} {counters : Counters}
      (habsent : s.manager.running? r.id = none)
      (hlaunch : launch s.manager r s.site = (.ok i, site)) :
      Acquires r s (.ok i) { s with
        manager := { s.manager with
          instances := s.manager.instances.insert r.id i
          counters }
        site }

theorem acquires_acquire (r : Record) (s : System W) :
    Acquires r s (s.acquire r).1 (s.acquire r).2 := by
  cases hrunning : s.manager.running? r.id with
  | some i =>
      rw [acquire_of_running hrunning]
      exact .running hrunning
  | none =>
      rw [acquire_of_absent hrunning]
      cases hlaunch : launch s.manager r s.site with
      | mk outcome site =>
          cases outcome with
          | error fault => exact .failed hrunning hlaunch
          | ok i => exact .launched hrunning hlaunch

/-! ## Evicting -/

theorem manager_evict (c : CollectionId) (r : Record) (s : System W) :
    ∃ counters, (s.evict c r).manager = { s.manager with
      instances := s.manager.instances.erase r.id
      openIndexes := s.manager.openIndexes.map (·.without c)
      counters } := by
  unfold evict untrack unregister Table.pop
  cases s.manager.instances.get? r.id with
  | none => exact ⟨_, rfl⟩
  | some i =>
      simp only [retire, perform]
      cases s.site.perform .stop i with
      | mk outcome site => cases outcome <;> exact ⟨_, rfl⟩

theorem running?_evict (c : CollectionId) (r : Record) (s : System W) (segment : SegmentId) :
    (s.evict c r).manager.running? segment =
      if segment = r.id then none else s.manager.running? segment := by
  obtain ⟨counters, hmanager⟩ := manager_evict c r s
  rw [hmanager]
  exact Table.get?_erase s.manager.instances r.id segment

@[simp] theorem catalog_evict (c : CollectionId) (r : Record) (s : System W) :
    (s.evict c r).catalog = s.catalog := by
  unfold evict untrack unregister Table.pop
  cases s.manager.instances.get? r.id with
  | none => rfl
  | some i =>
      simp only [retire, perform]
      cases s.site.perform .stop i with
      | mk outcome site => cases outcome <;> rfl

theorem site_evict (c : CollectionId) (r : Record) (s : System W) :
    (s.evict c r).site = (s.site.performAll .stop (s.manager.running? r.id).toList).2 := by
  unfold evict untrack unregister Table.pop Manager.running?
  cases s.manager.instances.get? r.id with
  | none => rfl
  | some i =>
      simp only [retire, perform, Option.toList_some, Site.performAll_cons_snd, Site.performAll_nil]
      cases s.site.perform .stop i with
      | mk outcome site => cases outcome <;> rfl

theorem counters_evict {r : Record} {i : Instance} (c : CollectionId) {s : System W}
    (hrunning : s.manager.running? r.id = some i) :
    (s.evict c r).manager.counters =
      let n := s.manager.counters
      match (s.site.perform .stop i).1 with
      | .ok _ => { n with memoryEvictions := n.memoryEvictions + 1 }
      | .error _ => { n with failedEvictions := n.failedEvictions + 1 } := by
  have hget : s.manager.instances.get? r.id = some i := hrunning
  simp only [evict, untrack, unregister, Table.pop, hget, retire, perform]
  cases s.site.perform .stop i with
  | mk outcome site => cases outcome <;> rfl

theorem counters_evict_of_absent {r : Record} (c : CollectionId) {s : System W}
    (habsent : s.manager.running? r.id = none) :
    (s.evict c r).manager.counters = s.manager.counters := by
  have hget : s.manager.instances.get? r.id = none := habsent
  simp only [evict, untrack, unregister, Table.pop, hget]

end System

end SegmentManager
