import SegmentManager.Proofs.System.History
import SegmentManager.Proofs.System.Lookup
import SegmentManager.Proofs.System.Teardown

/-!
# Coherence of the tiers

The instances are the only truth about what runs.  What a record cache holds
stands for a running segment, and an open index belongs to the instance of a
cached record.  Every request and every event around a manager keeps this, as
long as no two rows that ever came into being share a segment.
-/

namespace SegmentManager

open Simulation

namespace Manager

/-- The instance runs the segment whose record serves a capability of the
collection without a fetch. -/
def Serving (m : Manager) (k : Capability) (c : CollectionId) (i : Instance) : Prop :=
  ∃ r, m.cached? k c = some r ∧ m.running? r.id = some i

structure Coherent (created : List Record) (m : Manager) : Prop where
  wellFormed : m.WellFormed
  running : ∀ segment i, m.running? segment = some i →
    i.record.id = segment ∧ ∃ row ∈ created, m.deployment.Serves row i.record
  cached : ∀ k c r, m.cached? k c = some r →
    m.Admits created k c r ∧ ∃ i, m.running? r.id = some i
  tracked : ∀ c i, m.tracked? c = some i → m.Serving .vectorReader c i
  limits : ∀ k : Capability, (m.records k.scope).limit? = m.deployment.limit? k

namespace Coherent

variable {created : List Record} {m m' : Manager}

theorem mono {rows : List Record} (hm : m.Coherent created)
    (hsub : ∀ row ∈ created, row ∈ rows) : m.Coherent rows := by
  refine ⟨hm.wellFormed, ?_, ?_, hm.tracked, hm.limits⟩
  · intro segment i hrunning
    obtain ⟨hid, row, hrow, hserves⟩ := hm.running segment i hrunning
    exact ⟨hid, row, hsub row hrow, hserves⟩
  · intro k c r hcached
    obtain ⟨hadmits, hruns⟩ := hm.cached k c r hcached
    exact ⟨hadmits.mono hsub, hruns⟩

/-- Tiers may lose entries.  A record that stays keeps its instance, and a
collection stays tracked only with its vector record. -/
theorem restrict (hm : m.Coherent created) (hwell : m'.WellFormed) (hsetup : SameSetup m m')
    (hrunning : ∀ segment i, m'.running? segment = some i → m.running? segment = some i)
    (hcached : ∀ k c r, m'.cached? k c = some r →
      m.cached? k c = some r ∧ m'.running? r.id = m.running? r.id)
    (htracked : ∀ c i, m'.tracked? c = some i →
      m.tracked? c = some i ∧ m'.cached? .vectorReader c = m.cached? .vectorReader c) :
    m'.Coherent created := by
  refine ⟨hwell, ?_, ?_, ?_, ?_⟩
  · intro segment i hrun
    rw [hsetup.deployment]
    exact hm.running segment i (hrunning segment i hrun)
  · intro k c r hhold
    obtain ⟨hheld, hkeeps⟩ := hcached k c r hhold
    obtain ⟨hadmits, i, hruns⟩ := hm.cached k c r hheld
    exact ⟨hadmits.congr hsetup, i, hkeeps.trans hruns⟩
  · intro c i htrack
    obtain ⟨hbefore, hsame⟩ := htracked c i htrack
    obtain ⟨r, hheld, hruns⟩ := hm.tracked c i hbefore
    have hstays : m'.cached? .vectorReader c = some r := hsame.trans hheld
    exact ⟨r, hstays, (hcached .vectorReader c r hstays).2.trans hruns⟩
  · intro k
    rw [hsetup.limits, hsetup.deployment, hm.limits]

theorem congr (hm : m.Coherent created) (hcaches : SameCaches m m')
    (hinstances : m'.instances = m.instances) : m'.Coherent created := by
  have hrunning : ∀ segment, m'.running? segment = m.running? segment := by
    intro segment
    unfold running?
    rw [hinstances]
  apply hm.restrict
  · exact hcaches.wellFormed hm.wellFormed (hinstances ▸ hm.wellFormed.instances)
  · exact hcaches.toSameSetup
  · intro segment i hrun
    rwa [hrunning] at hrun
  · intro k c r hheld
    rw [hcaches.cached?] at hheld
    exact ⟨hheld, hrunning r.id⟩
  · intro c i htrack
    rw [hcaches.tracked?] at htrack
    exact ⟨htrack, hcaches.cached? .vectorReader c⟩

theorem place_eq (hids : (created.map (·.id)).Nodup) (hm : m.Coherent created) {k j : Capability}
    {c d : CollectionId} {r r' : Record} (hr : m.cached? k c = some r)
    (hr' : m.cached? j d = some r') (hid : r.id = r'.id) : k = j ∧ c = d :=
  (hm.cached k c r hr).1.place_eq hids (hm.cached j d r' hr').1 hid

theorem launched (hm : m.Coherent created) {k : Capability} {c : CollectionId} {r : Record}
    (hadmits : m.Admits created k c r) (habsent : m.running? r.id = none) {i : Instance}
    (hrecord : i.record = r) (counters : Counters) :
    Coherent created { m with instances := m.instances.insert r.id i, counters } := by
  have hrunning : ∀ segment,
      running? { m with instances := m.instances.insert r.id i, counters } segment =
        if segment = r.id then some i else m.running? segment :=
    fun segment => Table.get?_insert m.instances r.id segment i
  have hother : ∀ segment j, m.running? segment = some j → segment ≠ r.id := by
    rintro segment j hrun rfl
    rw [habsent] at hrun
    cases hrun
  refine ⟨?_, ?_, ?_, ?_, hm.limits⟩
  · exact ⟨Table.distinct_insert hm.wellFormed.instances r.id i, hm.wellFormed.records,
      hm.wellFormed.openIndexes⟩
  · intro segment j hrun
    rw [hrunning] at hrun
    split at hrun
    · rename_i hsegment
      obtain rfl := Option.some.inj hrun
      rw [hrecord]
      exact ⟨hsegment.symm, hadmits.served⟩
    · exact hm.running segment j hrun
  · intro j d e hheld
    obtain ⟨he, i', hruns⟩ := hm.cached j d e hheld
    refine ⟨he.congr ⟨rfl, rfl, fun _ => rfl⟩, i', ?_⟩
    rw [hrunning, if_neg (hother e.id i' hruns)]
    exact hruns
  · intro d j htrack
    obtain ⟨e, hheld, hruns⟩ := hm.tracked d j htrack
    refine ⟨e, hheld, ?_⟩
    rw [hrunning, if_neg (hother e.id j hruns)]
    exact hruns

theorem tracks (hm : m.Coherent created) {c : CollectionId} {i : Instance}
    (hserving : m.Serving .vectorReader c i) {o : OpenIndexes} (ho : m.openIndexes = some o)
    (undersized : Nat) (counters : Counters) :
    Coherent created { m with
      openIndexes := some { o with tracked := (o.tracked.insert c i 1).2, undersized }
      counters } := by
  have hopen := hm.wellFormed.openIndexes o ho
  refine ⟨⟨hm.wellFormed.instances, hm.wellFormed.records, ?_⟩, hm.running, ?_, ?_,
    hm.limits⟩
  · rintro after hafter
    obtain rfl := Option.some.inj hafter
    exact RecencyCache.wellFormed_insert hopen c i 1
  · intro j d e hheld
    obtain ⟨he, hruns⟩ := hm.cached j d e hheld
    exact ⟨he.congr ⟨rfl, rfl, fun _ => rfl⟩, hruns⟩
  · intro d j htrack
    have hbefore : m.tracked? d = o.tracked.peek? d := by
      unfold tracked?
      rw [ho]
      rfl
    have hinsert := RecencyCache.peek?_insert hopen c i 1 d
    have hfound : (o.tracked.insert c i 1).2.peek? d = some j := htrack
    rw [hfound] at hinsert
    split at hinsert
    · rename_i hd
      obtain rfl := Option.some.inj hinsert
      rw [hd]
      exact hserving
    · split at hinsert
      · cases hinsert
      · exact hm.tracked d j (hbefore.trans hinsert.symm)

theorem withMembers (hm : m.Coherent created) (members : List String) :
    (m.withMembers members).Coherent created := by
  unfold Manager.withMembers
  cases hdeployment : m.deployment with
  | inProcess settings => exact hm
  | distributed workers =>
      refine ⟨⟨hm.wellFormed.instances, hm.wellFormed.records, hm.wellFormed.openIndexes⟩,
        ?_, ?_, hm.tracked, ?_⟩
      · intro segment i hrun
        have hbefore := hm.running segment i hrun
        rw [hdeployment] at hbefore
        exact hbefore
      · intro k c r hheld
        obtain ⟨hadmits, hruns⟩ := hm.cached k c r hheld
        have hserved := hadmits.served
        rw [hdeployment] at hserved
        exact ⟨⟨hserved, hadmits.collection, hadmits.scope, hadmits.known⟩, hruns⟩
      · intro k
        have hlimit := hm.limits k
        rw [hdeployment] at hlimit
        exact hlimit

end Coherent

theorem coherent_of_empty {m : Manager} (hinstances : m.instances = .empty)
    (hrecords : ∀ k : Capability, m.records k.scope = .ofLimit (m.deployment.limit? k))
    (hopen : ∀ o, m.openIndexes = some o → ∃ budget, o.tracked = .empty budget) :
    m.Coherent [] := by
  refine ⟨⟨?_, ?_, ?_⟩, ?_, ?_, ?_, ?_⟩
  · rw [hinstances]
    exact Table.distinct_empty
  · intro k
    rw [hrecords]
    exact RecordCache.wellFormed_ofLimit _
  · intro o ho
    obtain ⟨budget, hempty⟩ := hopen o ho
    rw [hempty]
    exact RecencyCache.wellFormed_empty budget
  · intro segment i hrun
    unfold running? at hrun
    rw [hinstances] at hrun
    cases hrun
  · intro k c r hheld
    unfold cached? at hheld
    rw [hrecords, RecordCache.peek?_ofLimit] at hheld
    cases hheld
  · intro c i htrack
    obtain ⟨o, ho, hfound⟩ := Option.bind_eq_some_iff.mp htrack
    obtain ⟨budget, hempty⟩ := hopen o ho
    rw [hempty] at hfound
    cases hfound
  · intro k
    rw [hrecords, RecordCache.limit?_ofLimit]

theorem Fresh.coherent {m : Manager} (hm : m.Fresh) : m.Coherent [] := by
  cases hm with
  | distributed workers g =>
      apply coherent_of_empty rfl
      · intro k
        cases k <;> rfl
      · rintro o ⟨⟩
  | inProcess hsetup =>
      obtain ⟨openIndexes, rfl, -, hopen⟩ := inProcess_eq_ok hsetup
      refine coherent_of_empty rfl ?_ ?_
      · intro k
        cases k with
        | metadataReader => rfl
        | vectorReader =>
            change (if _ then _ else _) = RecordCache.ofLimit (if _ then _ else _)
            split <;> rfl
      · intro o ho
        obtain ⟨rfl, -⟩ := OpenIndexes.ofLimits_eq_ok (hopen o ho)
        exact ⟨_, rfl⟩

end Manager

namespace System

variable {W : Type}

/-- A coherent manager over a catalog of rows that came into being, no two of
them of one segment. -/
structure Coherent (created : List Record) (s : System W) : Prop where
  manager : s.manager.Coherent created
  filtering : s.catalog.filtering = true
  recorded : s.catalog.rows.Sublist created
  distinct : (created.map (·.id)).Nodup

variable [Backend W] {created : List Record} {s s' : System W}

/-! ## What runs -/

omit [Backend W] in
theorem Coherent.ids_values (hs : s.Coherent created) :
    s.manager.instances.values.map (·.record.id) = s.manager.instances.keys :=
  Table.map_values hs.manager.wellFormed.instances fun segment i hrunning =>
    (hs.manager.running segment i hrunning).1

omit [Backend W] in
theorem Coherent.mem_values_iff (hs : s.Coherent created) {i : Instance} :
    i ∈ s.manager.instances.values ↔ s.manager.running? i.record.id = some i := by
  rw [Table.mem_values_iff hs.manager.wellFormed.instances]
  constructor
  · rintro ⟨segment, hrunning⟩
    rw [(hs.manager.running segment i hrunning).1]
    exact hrunning
  · intro hrunning
    exact ⟨i.record.id, hrunning⟩

omit [Backend W] in
theorem Coherent.mem_visited_iff (hs : s.Coherent created) (order : List SegmentId)
    {i : Instance} :
    i ∈ s.manager.instances.visited order ↔ s.manager.running? i.record.id = some i :=
  (Table.visited_perm hs.manager.wellFormed.instances order).mem_iff.trans hs.mem_values_iff

omit [Backend W] in
theorem Coherent.ids_visited (hs : s.Coherent created) (order : List SegmentId) :
    ((s.manager.instances.visited order).map (·.record.id)).Perm s.manager.instances.keys := by
  rw [← hs.ids_values]
  exact (Table.visited_perm hs.manager.wellFormed.instances order).map (·.record.id)

omit [Backend W] in
theorem Coherent.running_of_serving (hs : s.Coherent created) {k : Capability}
    {c : CollectionId} {i : Instance} (hserving : s.manager.Serving k c i) :
    s.manager.running? i.record.id = some i := by
  obtain ⟨r, -, hrunning⟩ := hserving
  rw [(hs.manager.running r.id i hrunning).1]
  exact hrunning

omit [Backend W] in
theorem Coherent.serves_of_running (hs : s.Coherent created) {row r : Record}
    (hrow : row ∈ created) (hserves : s.manager.deployment.Serves row r) {i : Instance}
    (hrunning : s.manager.running? r.id = some i) :
    s.manager.deployment.Serves row i.record := by
  obtain ⟨hid, row', hrow', hserves'⟩ := hs.manager.running r.id i hrunning
  have hsame : row' = row := by
    apply List.inj_on_of_nodup_map hs.distinct hrow' hrow
    rw [← hserves'.id_eq, ← hserves.id_eq, hid]
  rwa [hsame] at hserves'

omit [Backend W] in
theorem Coherent.record_of_running (hs : s.Coherent created) {settings : Settings}
    (hdeployment : s.manager.deployment = .inProcess settings) {k : Capability}
    {c : CollectionId} {r : Record} (hadmits : s.manager.Admits created k c r) {i : Instance}
    (hrunning : s.manager.running? r.id = some i) : i.record = r := by
  obtain ⟨row, hrow, hserves⟩ := hadmits.served
  have hserves' := hs.serves_of_running hrow hserves hrunning
  rw [hdeployment] at hserves hserves'
  exact hserves'.trans hserves.symm

/-! ## Lookups -/

theorem launch_record {m : Manager} {r : Record} {site site' : Site W} {i : Instance}
    (hlaunch : launch m r site = (.ok i, site')) : i.record = r := by
  rcases launch_cases m r site with ⟨j, next, hend, hrecord, -⟩ | ⟨fault, j, next, hend, -⟩ |
    ⟨fault, next, hend, -⟩
  all_goals
    rw [hend] at hlaunch
    cases hlaunch
  exact hrecord

omit [Backend W] in
theorem Coherent.consult (hs : s.Coherent created) (c : CollectionId) (k : Capability) :
    (s.consult c k.scope).2.Coherent created := by
  refine ⟨?_, hs.filtering, hs.recorded, hs.distinct⟩
  have hrunning : ∀ segment, (s.consult c k.scope).2.manager.running? segment =
      s.manager.running? segment := by
    intro segment
    unfold Manager.running?
    rw [instances_consult]
  have hrecords : ((s.manager.records k.scope).touch c).2.WellFormed :=
    RecordCache.wellFormed_touch (hs.manager.wellFormed.records k) c
  apply hs.manager.restrict
  · have hwell := hs.manager.wellFormed.withRecords k hrecords
    exact ⟨hwell.instances, hwell.records, hwell.openIndexes⟩
  · exact sameSetup_consult c k s
  · intro segment i hrun
    rwa [hrunning] at hrun
  · intro j d r hheld
    rw [cached?_consult] at hheld
    exact ⟨hheld, hrunning r.id⟩
  · intro d i htrack
    unfold Manager.tracked? at htrack
    rw [openIndexes_consult] at htrack
    exact ⟨htrack, cached?_consult c d k .vectorReader s⟩

omit [Backend W] in
theorem Coherent.fetching (hs : s.Coherent created) {c : CollectionId} {k : Capability}
    (habsent : s.manager.cached? k c = none) : (s.fetching c k).Coherent created := by
  refine ⟨hs.manager.congr (sameCaches_fetching habsent) instances_fetching, ?_, ?_, hs.distinct⟩
  · rw [filtering_fetching]
    exact hs.filtering
  · rw [rows_fetching]
    exact hs.recorded

theorem Coherent.loads (hs : s.Coherent created) {c : CollectionId} {k : Capability}
    (habsent : s.manager.cached? k c = none)
    {answer : Except Fault (Record × Instance)} (hload : Loads c k s answer s') :
    s'.Coherent created ∧ Manager.SameCaches s.manager s'.manager ∧
      ∀ r i, answer = .ok (r, i) →
        s'.manager.Admits created k c r ∧ s'.manager.running? r.id = some i := by
  have hfetching := hs.fetching habsent
  have hcaches := sameCaches_fetching habsent
  have hadmitted : ∀ r, s.manager.Admits s.catalog.rows k c r →
      (s.fetching c k).manager.Admits created k c r := by
    intro r hadmits
    exact (hadmits.mono fun row hrow => hs.recorded.subset hrow).congr
      hcaches.toSameSetup
  cases hload with
  | refused fault =>
      refine ⟨hfetching, hcaches, ?_⟩
      rintro r i ⟨⟩
  | running hadmits hrunning =>
      refine ⟨hfetching, hcaches, ?_⟩
      rintro r i ⟨⟩
      exact ⟨hadmitted _ hadmits, (running?_fetching _).trans hrunning⟩
  | failed hadmits hnone hlaunch =>
      refine ⟨⟨hfetching.manager, hfetching.filtering, hfetching.recorded, hs.distinct⟩,
        hcaches, ?_⟩
      rintro r i ⟨⟩
  | launched hadmits hnone hlaunch =>
      rename_i r i site counters
      have hstill : (s.fetching c k).manager.running? r.id = none := by
        rw [running?_fetching, hnone]
      have hlaunched := hfetching.manager.launched (hadmitted r hadmits) hstill
        (launch_record hlaunch) counters
      rw [instances_fetching] at hlaunched
      refine ⟨⟨hlaunched, hfetching.filtering, hfetching.recorded, hs.distinct⟩, ?_, ?_⟩
      · exact ⟨⟨hcaches.deployment, hcaches.kinds, hcaches.limits⟩, hcaches.vectorRecords,
          hcaches.metadataRecords, hcaches.openIndexes⟩
      · rintro r' i' ⟨⟩
        refine ⟨(hadmitted _ hadmits).congr ⟨rfl, rfl, fun _ => rfl⟩, ?_⟩
        have hinsert := Table.get?_insert s.manager.instances r.id r.id i
        rwa [if_pos rfl] at hinsert

theorem Coherent.displaced_of_unlimited (hs : s.Coherent created) {k : Capability}
    (hlimit : s.manager.deployment.limit? k = none) (r : Record) :
    s.displaced r k.scope = [] :=
  RecordCache.evicted_of_unlimited ((hs.manager.limits k).trans hlimit) r.collection r _

theorem Coherent.notMem_displaced (hs : s.Coherent created) {k j : Capability}
    {c d : CollectionId} {r e : Record} (hadmits : s.manager.Admits created k c r)
    (hheld : (s.remember r k.scope).manager.cached? j d = some e) :
    e.id ∉ (s.displaced r k.scope).map (·.2.id) := by
  have hwell := hs.manager.wellFormed
  intro hmem
  obtain ⟨gone, hgone, hid⟩ := List.mem_map.mp hmem
  obtain ⟨hne, hbefore⟩ := mem_displaced r k hwell hgone
  have hleaving := (hs.manager.cached k gone.1 gone.2 hbefore).1
  rw [cached?_remember r k hwell] at hheld
  -- Whatever is held now and was displaced would be of one segment, hence one entry.
  by_cases hj : j = k
  · rw [if_pos hj] at hheld
    split at hheld
    · obtain rfl := Option.some.inj hheld
      have hplace := (hadmits.place_eq hs.distinct hleaving hid.symm).2
      exact hne (hplace.symm.trans hadmits.collection.symm)
    · split at hheld
      · cases hheld
      · rename_i hstays
        have hplace := (hs.manager.place_eq hs.distinct hbefore hheld hid).2
        exact hstays (List.mem_map.mpr ⟨gone, hgone, hplace⟩)
  · rw [if_neg hj] at hheld
    exact hj (hs.manager.place_eq hs.distinct hheld hbefore hid.symm).1

theorem Coherent.running?_of_held (hs : s.Coherent created) {k j : Capability}
    {c d : CollectionId} {r e : Record} (hadmits : s.manager.Admits created k c r)
    (hheld : (s.remember r k.scope).manager.cached? j d = some e) :
    (s.remember r k.scope).manager.running? e.id = s.manager.running? e.id := by
  rw [running?_remember, if_neg (hs.notMem_displaced hadmits hheld)]

theorem Coherent.admits_of_held (hs : s.Coherent created) {k j : Capability}
    {c d : CollectionId} {r e : Record} {i : Instance}
    (hadmits : s.manager.Admits created k c r) (hrunning : s.manager.running? r.id = some i)
    (hheld : (s.remember r k.scope).manager.cached? j d = some e) :
    s.manager.Admits created j d e ∧ ∃ i, s.manager.running? e.id = some i := by
  rw [cached?_remember r k hs.manager.wellFormed] at hheld
  split at hheld
  · rename_i hj
    split at hheld
    · rename_i hd
      obtain rfl := Option.some.inj hheld
      rw [hj, hd, hadmits.collection]
      exact ⟨hadmits, i, hrunning⟩
    · split at hheld
      · cases hheld
      · rw [hj]
        exact hs.manager.cached k d e hheld
  · exact hs.manager.cached j d e hheld

theorem Coherent.serving_of_tracked (hs : s.Coherent created) {k : Capability}
    {c d : CollectionId} {r : Record} {i : Instance}
    (hadmits : s.manager.Admits created k c r) (habsent : s.manager.cached? k c = none)
    (htrack : (s.remember r k.scope).manager.tracked? d = some i) :
    (s.remember r k.scope).manager.Serving .vectorReader d i := by
  rw [tracked?_remember] at htrack
  split at htrack
  · cases htrack
  · rename_i hd
    obtain ⟨e, hheld, hruns⟩ := hs.manager.tracked d i htrack
    have hstill : (s.remember r k.scope).manager.cached? .vectorReader d = some e := by
      rw [cached?_remember r k hs.manager.wellFormed]
      split
      · rename_i hk
        have hne : d ≠ r.collection := by
          rintro rfl
          rw [hk, hadmits.collection, habsent] at hheld
          cases hheld
        rw [if_neg hne, ← hk]
        exact hheld
      · exact hheld
    exact ⟨e, hstill, (hs.running?_of_held hadmits hstill).trans hruns⟩

theorem Coherent.remember (hs : s.Coherent created) {c : CollectionId} {k : Capability}
    {r : Record} {i : Instance} (hadmits : s.manager.Admits created k c r)
    (hrunning : s.manager.running? r.id = some i) (habsent : s.manager.cached? k c = none) :
    (s.remember r k.scope).Coherent created ∧
      (s.remember r k.scope).manager.Serving k c i := by
  have hwell := hs.manager.wellFormed
  have hcatalog := catalog_remember r k s
  have hsetup := sameSetup_remember r k s
  have hnew : (s.remember r k.scope).manager.cached? k c = some r := by
    rw [cached?_remember r k hwell, if_pos rfl, if_pos hadmits.collection.symm]
  refine ⟨⟨⟨wellFormed_remember r k hwell, ?_, ?_, ?_, ?_⟩, ?_, ?_, hs.distinct⟩, ?_⟩
  · intro segment j hrun
    rw [running?_remember] at hrun
    split at hrun
    · cases hrun
    · rw [hsetup.deployment]
      exact hs.manager.running segment j hrun
  · intro j d e hheld
    obtain ⟨hadmitted, i', hruns⟩ := hs.admits_of_held hadmits hrunning hheld
    exact ⟨hadmitted.congr hsetup, i',
      (hs.running?_of_held hadmits hheld).trans hruns⟩
  · intro d j htrack
    exact hs.serving_of_tracked hadmits habsent htrack
  · intro j
    rw [hsetup.limits, hsetup.deployment, hs.manager.limits]
  · rw [hcatalog]
    exact hs.filtering
  · rw [hcatalog]
    exact hs.recorded
  · exact ⟨r, hnew, (hs.running?_of_held hadmits hnew).trans hrunning⟩

theorem Coherent.looks_getSegment (hs : s.Coherent created) (c : CollectionId)
    (k : Capability) : Looks c k s (s.getSegment c k).1 (s.getSegment c k).2 :=
  System.looks_getSegment c k hs.filtering fun r hcached => (hs.manager.cached k c r hcached).2

/-- A lookup keeps the tiers coherent, and what it answers is served from the
cache from then on. -/
theorem Coherent.looks (hs : s.Coherent created) {c : CollectionId} {k : Capability}
    {answer : Except Fault Instance} (hlook : Looks c k s answer s') :
    s'.Coherent created ∧ ∀ i, answer = .ok i → s'.manager.Serving k c i := by
  cases hlook with
  | cached hcached hrunning =>
      rename_i r i
      refine ⟨hs.consult c k, ?_⟩
      rintro i' ⟨⟩
      refine ⟨r, (cached?_consult c c k k s).trans hcached, ?_⟩
      unfold Manager.running?
      rw [instances_consult]
      exact hrunning
  | failed habsent hload =>
      refine ⟨(hs.loads habsent hload).1, ?_⟩
      rintro i ⟨⟩
  | loaded habsent hload =>
      rename_i r i s'
      obtain ⟨hloaded, hcaches, hok⟩ := hs.loads habsent hload
      obtain ⟨hadmits, hrunning⟩ := hok r i rfl
      have hstill : s'.manager.cached? k c = none := (hcaches.cached? k c).trans habsent
      obtain ⟨hremembered, hserving⟩ := hloaded.remember hadmits hrunning hstill
      refine ⟨hremembered, ?_⟩
      rintro i' ⟨⟩
      exact hserving

theorem Coherent.serving_of_cached (hs : s.Coherent created) {c d : CollectionId}
    {k j : Capability} {answer : Except Fault Instance} (hlook : Looks c k s answer s')
    {r : Record} {i : Instance} (hrunning : s.manager.running? r.id = some i)
    (hstays : s'.manager.cached? j d = some r) : s'.manager.Serving j d i := by
  obtain ⟨-, i', hrunning'⟩ := (hs.looks hlook).1.manager.cached j d r hstays
  rcases hlook.running_of hrunning' with hbefore | habsent
  · rw [hrunning] at hbefore
    exact ⟨r, hstays, hrunning'.trans hbefore.symm⟩
  · rw [hrunning] at habsent
    cases habsent

theorem Coherent.serving_of_looks (hs : s.Coherent created) {c d : CollectionId}
    {k j : Capability} {answer : Except Fault Instance} (hlook : Looks c k s answer s')
    (hj : j ≠ k) {i : Instance} (hserving : s.manager.Serving j d i) :
    s'.manager.Serving j d i := by
  obtain ⟨r, hcached, hrunning⟩ := hserving
  refine hs.serving_of_cached hlook hrunning ?_
  cases hlook with
  | cached hcached' hrunning' => exact (cached?_consult c d k j s).trans hcached
  | failed habsent hload =>
      exact ((hs.loads habsent hload).2.1.cached? j d).trans hcached
  | loaded habsent hload =>
      obtain ⟨hloaded, hcaches, -⟩ := hs.loads habsent hload
      rw [cached?_remember _ k hloaded.manager.wellFormed, if_neg hj, hcaches.cached?]
      exact hcached

theorem Coherent.getSegment (hs : s.Coherent created) (c : CollectionId) (k : Capability) :
    (s.getSegment c k).2.Coherent created :=
  (hs.looks (hs.looks_getSegment c k)).1

theorem Coherent.getSegmentNamed (hs : s.Coherent created) (c : CollectionId) (name : String) :
    (s.getSegmentNamed c name).2.Coherent created := by
  unfold System.getSegmentNamed
  cases Capability.ofName? name with
  | none => exact hs
  | some k => exact hs.getSegment c k

theorem Coherent.tracks (hs : s.Coherent created) {c : CollectionId} {i : Instance}
    (hserving : s.manager.Serving .vectorReader c i) {answer : Except Fault Unit}
    (htracks : Tracks c i s answer s') : s'.Coherent created := by
  cases htracks with
  | skipped => exact hs
  | refused hpersistent hperform =>
      exact ⟨hs.manager, hs.filtering, hs.recorded, hs.distinct⟩
  | tracked hbefore hpersistent hperform =>
      exact ⟨hs.manager.tracks hserving hbefore _ _, hs.filtering, hs.recorded, hs.distinct⟩

theorem Coherent.hints_hint (hs : s.Coherent created) (c : CollectionId)
    (operation : Operation) : Hints c s (s.hint c operation).1 (s.hint c operation).2 := by
  have hwarms := warms_hint c operation s
  generalize (s.hint c operation).1 = answer, (s.hint c operation).2 = s' at hwarms ⊢
  have hlook := hs.looks_getSegment c .metadataReader
  cases hwarms with
  | remote hdeployment => exact .remote hdeployment
  | first hdeployment hfirst =>
      rw [hfirst] at hlook
      exact .first hlook
  | second hdeployment hfirst hsecond =>
      rw [hfirst] at hlook
      have hlook' := (hs.looks hlook).1.looks_getSegment c .vectorReader
      rw [hsecond] at hlook'
      exact .second hlook hlook'
  | both hdeployment hfirst hsecond =>
      rw [hfirst] at hlook
      have hlook' := (hs.looks hlook).1.looks_getSegment c .vectorReader
      rw [hsecond] at hlook'
      exact .both hlook hlook' (tracks_trackIndex c _ _)

theorem Coherent.hints (hs : s.Coherent created) {c : CollectionId}
    {answer : Except Fault Unit} (hhints : Hints c s answer s') : s'.Coherent created := by
  cases hhints with
  | remote hdeployment => exact hs
  | first hfirst => exact (hs.looks hfirst).1
  | second hfirst hsecond => exact ((hs.looks hfirst).1.looks hsecond).1
  | both hfirst hsecond hlast =>
      obtain ⟨hlooked, hserving⟩ := (hs.looks hfirst).1.looks hsecond
      exact hlooked.tracks (hserving _ rfl) hlast

/-! ## Teardown -/

omit [Backend W] in
theorem Coherent.nodup_rowsOf (hs : s.Coherent created) (c : CollectionId) :
    ((s.catalog.rowsOf c).map (·.id)).Nodup := by
  have hsub : (s.catalog.rowsOf c).Sublist created := List.filter_sublist.trans hs.recorded
  exact (hsub.map (·.id)).nodup hs.distinct

omit [Backend W] in
theorem Coherent.listing (hs : s.Coherent created) (c : CollectionId) :
    (s.listing c).Coherent created := by
  refine ⟨hs.manager.congr (sameCaches_listing c s) rfl, ?_, ?_, hs.distinct⟩
  · rw [filtering_listing]
    exact hs.filtering
  · rw [rows_listing]
    exact hs.recorded

omit [Backend W] in
theorem Coherent.collection_of_served (hs : s.Coherent created) {c : CollectionId} {r : Record}
    (hserved : ∃ row ∈ created, s.manager.deployment.Serves row r)
    (hmem : r.id ∈ (s.catalog.rowsOf c).map (·.id)) : r.collection = c := by
  obtain ⟨origin, horigin, hserves⟩ := hserved
  obtain ⟨row, hrow, hid⟩ := List.mem_map.mp hmem
  obtain ⟨hin, hcollection⟩ := List.mem_filter.mp hrow
  have hsame : row = origin := by
    apply List.inj_on_of_nodup_map hs.distinct (hs.recorded.subset hin) horigin
    rw [hid, hserves.id_eq]
  rw [hserves.collection_eq, ← hsame]
  simpa using hcollection

omit [Backend W] in
theorem Coherent.notMem_rowsOf (hs : s.Coherent created) {k : Capability} {c d : CollectionId}
    {r : Record} (hcached : s.manager.cached? k d = some r) (hd : d ≠ c) :
    r.id ∉ (s.catalog.rowsOf c).map (·.id) := by
  intro hmem
  obtain ⟨hadmits, -⟩ := hs.manager.cached k d r hcached
  apply hd
  rw [← hadmits.collection]
  exact hs.collection_of_served hadmits.served hmem

theorem Coherent.forgetAll (hs : s.Coherent created) {c : CollectionId} {action : Action}
    {visited : List SegmentId} {asked : List Instance} {counted : Nat}
    (hdown : TakenDown action visited asked counted s s')
    (hvisited : ∀ segment ∈ visited, segment ∈ (s.catalog.rowsOf c).map (·.id)) :
    (s'.forgetAll c).Coherent created := by
  have hwell := hdown.caches.wellFormed hs.manager.wellFormed
    (hdown.distinct hs.manager.wellFormed.instances)
  have hrunning : ∀ segment, (s'.forgetAll c).manager.running? segment =
      s'.manager.running? segment := fun segment => rfl
  refine ⟨?_, ?_, ?_, hs.distinct⟩
  · apply hs.manager.restrict (wellFormed_forgetAll c s' hwell)
    · exact hdown.caches.toSameSetup.trans (sameSetup_forgetAll c s')
    · intro segment i hrun
      rw [hrunning, hdown.running] at hrun
      split at hrun
      · cases hrun
      · exact hrun
    · intro k d r hheld
      rw [cached?_forgetAll] at hheld
      split at hheld
      · cases hheld
      · rename_i hd
        rw [hdown.caches.cached?] at hheld
        have hstays : r.id ∉ visited := fun hmem =>
          hs.notMem_rowsOf hheld hd (hvisited r.id hmem)
        rw [hrunning, hdown.running, if_neg hstays]
        exact ⟨hheld, rfl⟩
    · intro d i htrack
      rw [tracked?_forgetAll] at htrack
      split at htrack
      · cases htrack
      · rename_i hd
        rw [hdown.caches.tracked?] at htrack
        rw [cached?_forgetAll, if_neg hd, hdown.caches.cached?]
        exact ⟨htrack, rfl⟩
  · have hfilter : s'.catalog.filtering = true := by
      rw [hdown.catalog]
      exact hs.filtering
    exact hfilter
  · have hrows : s'.catalog.rows.Sublist created := by
      rw [hdown.catalog]
      exact hs.recorded
    exact hrows

theorem Coherent.clears (hs : s.Coherent created) {c : CollectionId}
    {answer : Except Fault (List SegmentId)} (hclears : Clears c s answer s') :
    s'.Coherent created := by
  have hlisting := hs.listing c
  have hrows : (s.listing c).catalog.rowsOf c = s.catalog.rowsOf c := by
    unfold Catalog.rowsOf
    rw [rows_listing]
  cases hclears with
  | refused hrefusal => exact hlisting
  | released hdeployment hdown =>
      apply hlisting.forgetAll hdown
      intro segment hmem
      rwa [hrows]
  | deleted hdeployment hdeletes =>
      cases hdeletes with
      | complete hok hdown =>
          apply hlisting.forgetAll hdown
          intro segment hmem
          rwa [hrows]
      | broken hsplit hrunning hok hfails hdown =>
          rename_i before after failed i cause
          apply hlisting.forgetAll hdown
          intro segment hmem
          rw [hrows, hsplit, List.append_cons]
          exact List.mem_append_left after hmem

theorem Coherent.clears_deleteSegments (hs : s.Coherent created) (c : CollectionId) :
    Clears c s (s.deleteSegments c).1 (s.deleteSegments c).2 :=
  System.clears_deleteSegments c hs.filtering (hs.nodup_rowsOf c)

theorem sameSetup_reset (order : List SegmentId) (s : System W) :
    Manager.SameSetup s.manager (s.reset order).2.manager := by
  refine ⟨rfl, rfl, ?_⟩
  intro k
  cases k with
  | metadataReader => exact RecordCache.limit?_clear s.manager.metadataRecords
  | vectorReader => exact RecordCache.limit?_clear s.manager.vectorRecords

theorem cached?_reset (order : List SegmentId) (k : Capability) (c : CollectionId)
    (s : System W) : (s.reset order).2.manager.cached? k c = none := by
  cases k with
  | metadataReader => exact RecordCache.peek?_clear s.manager.metadataRecords c
  | vectorReader => exact RecordCache.peek?_clear s.manager.vectorRecords c

theorem Coherent.reset (hs : s.Coherent created) (order : List SegmentId) :
    (s.reset order).2.Coherent created := by
  refine ⟨?_, hs.filtering, hs.recorded, hs.distinct⟩
  apply hs.manager.restrict
  · refine ⟨Table.distinct_empty, ?_, ?_⟩
    · intro k
      cases k with
      | metadataReader => exact RecordCache.wellFormed_clear s.manager.metadataRecords
      | vectorReader => exact RecordCache.wellFormed_clear s.manager.vectorRecords
    · intro o ho
      obtain ⟨before, hbefore, rfl⟩ := Option.map_eq_some_iff.mp ho
      exact RecencyCache.wellFormed_clear before.tracked
  · exact sameSetup_reset order s
  · intro segment i hrun
    cases hrun
  · intro k c r hheld
    rw [cached?_reset] at hheld
    cases hheld
  · intro c i htrack
    obtain ⟨o, ho, hfound⟩ := Option.bind_eq_some_iff.mp htrack
    obtain ⟨before, -, rfl⟩ := Option.map_eq_some_iff.mp ho
    cases hfound

/-! ## Histories -/

theorem Coherent.handle (hs : s.Coherent created) (q : Request) :
    (s.handle q).2.Coherent created := by
  cases q with
  | get c k => exact hs.getSegment c k
  | getNamed c name => exact hs.getSegmentNamed c name
  | hint c operation => exact hs.hints (hs.hints_hint c operation)
  | delete c => exact hs.clears (hs.clears_deleteSegments c)
  | start order => exact ⟨hs.manager, hs.filtering, hs.recorded, hs.distinct⟩
  | stop order => exact ⟨hs.manager, hs.filtering, hs.recorded, hs.distinct⟩
  | reset order => exact hs.reset order

theorem Coherent.after (hs : s.Coherent created) (e : Event W)
    (hids : ((created ++ e.entered).map (·.id)).Nodup) :
    (s.after e).Coherent (created ++ e.entered) := by
  have hnone : created ++ [] = created := List.append_nil created
  cases e with
  | request q =>
      change Coherent (created ++ []) _
      rw [hnone]
      exact hs.handle q
  | enter rows =>
      refine ⟨hs.manager.mono fun row hrow => List.mem_append_left _ hrow, hs.filtering, ?_, hids⟩
      exact hs.recorded.append (List.Sublist.refl rows)
  | withdraw c =>
      change Coherent (created ++ []) _
      rw [hnone]
      exact ⟨hs.manager, hs.filtering, List.filter_sublist.trans hs.recorded, hs.distinct⟩
  | refuse text =>
      change Coherent (created ++ []) _
      rw [hnone]
      exact ⟨hs.manager, hs.filtering, hs.recorded, hs.distinct⟩
  | regroup members =>
      change Coherent (created ++ []) _
      rw [hnone]
      exact ⟨hs.manager.withMembers members, hs.filtering, hs.recorded, hs.distinct⟩
  | elapse change =>
      change Coherent (created ++ []) _
      rw [hnone]
      exact ⟨hs.manager, hs.filtering, hs.recorded, hs.distinct⟩

omit [Backend W] in
theorem coherent_initial {m : Manager} (hm : m.Fresh) (w : W) :
    (initial m w).Coherent [] :=
  ⟨hm.coherent, rfl, .slnil, .nil⟩

theorem coherent_replay {m : Manager} (hm : m.Fresh) (w : W) {events : List (Event W)}
    (hids : Event.NeverShared events) :
    ((initial m w).replay events).Coherent (Event.created events) := by
  revert hids
  refine replay_induction (P := fun events s => Event.NeverShared events →
    s.Coherent (Event.created events)) ?_ ?_ events
  · intro hids
    exact coherent_initial hm w
  · intro events e ih hids
    rw [Event.created_concat]
    apply (ih hids.of_append).after e
    rw [← Event.created_concat]
    exact hids

theorem Coherent.sameSetup_handle (hs : s.Coherent created) (q : Request) :
    Manager.SameSetup s.manager (s.handle q).2.manager := by
  cases q with
  | get c k => exact (hs.looks_getSegment c k).sameSetup
  | getNamed c name =>
      have hnamed : Manager.SameSetup s.manager (s.getSegmentNamed c name).2.manager := by
        unfold System.getSegmentNamed
        cases Capability.ofName? name with
        | none => exact .refl s.manager
        | some k => exact (hs.looks_getSegment c k).sameSetup
      exact hnamed
  | hint c operation => exact (hs.hints_hint c operation).sameSetup
  | delete c => exact (hs.clears_deleteSegments c).sameSetup
  | start order => exact .refl s.manager
  | stop order => exact .refl s.manager
  | reset order => exact sameSetup_reset order s

theorem Coherent.sameSetup_after (hs : s.Coherent created) {settings : Settings}
    (hdeployment : s.manager.deployment = .inProcess settings) (e : Event W) :
    Manager.SameSetup s.manager (s.after e).manager := by
  cases e with
  | request q => exact hs.sameSetup_handle q
  | regroup members =>
      change Manager.SameSetup s.manager (s.manager.withMembers members)
      rw [Manager.withMembers_of_inProcess hdeployment]
      exact .refl s.manager
  | enter rows => exact .refl s.manager
  | withdraw c => exact .refl s.manager
  | refuse text => exact .refl s.manager
  | elapse change => exact .refl s.manager

theorem sameSetup_replay {settings : Settings} {g : Registry} {m : Manager}
    (hm : Manager.inProcess settings g = .ok m) (w : W) {events : List (Event W)}
    (hids : Event.NeverShared events) :
    Manager.SameSetup m ((initial m w).replay events).manager := by
  have hdeployment : m.deployment = .inProcess settings := by
    obtain ⟨openIndexes, rfl, -⟩ := Manager.inProcess_eq_ok hm
    rfl
  revert hids
  refine replay_induction (P := fun events s => Event.NeverShared events →
    Manager.SameSetup m s.manager) ?_ ?_ events
  · intro hids
    exact .refl m
  · intro events e ih hids
    have hbefore := ih hids.of_append
    have hcoherent := coherent_replay (.inProcess hm) w hids.of_append
    exact hbefore.trans
      (hcoherent.sameSetup_after (hbefore.deployment.trans hdeployment) e)

theorem deployment_replay {settings : Settings} {g : Registry} {m : Manager}
    (hm : Manager.inProcess settings g = .ok m) (w : W) {events : List (Event W)}
    (hids : Event.NeverShared events) :
    ((initial m w).replay events).manager.deployment = .inProcess settings := by
  rw [(sameSetup_replay hm w hids).deployment]
  obtain ⟨openIndexes, rfl, -⟩ := Manager.inProcess_eq_ok hm
  rfl

/-- What is cached runs: in its own process, every record that a cache holds
belongs there and is the record of the running instance of its segment, and
every open index that is tracked is that of a cached vector record. -/
theorem cached_runs_and_tracked_is_cached {settings : Settings} {g : Registry} {m : Manager}
    (hm : Manager.inProcess settings g = .ok m) (w : W) {events : List (Event W)}
    (hids : Event.NeverShared events) :
    let m := ((initial m w).replay events).manager
    (∀ k c r, m.cached? k c = some r →
      r.collection = c ∧ r.scope = k.scope ∧ m.kinds.knows r.kind = true ∧
        ∃ i, m.running? r.id = some i ∧ i.record = r) ∧
    ∀ c i, m.tracked? c = some i →
      ∃ r, m.cached? .vectorReader c = some r ∧ m.running? r.id = some i := by
  have hcoherent := coherent_replay (.inProcess hm) w hids
  have hdeployment := deployment_replay hm w hids
  refine ⟨?_, hcoherent.manager.tracked⟩
  intro k c r hcached
  obtain ⟨hadmits, i, hrunning⟩ := hcoherent.manager.cached k c r hcached
  exact ⟨hadmits.collection, hadmits.scope, hadmits.known, i, hrunning,
    hcoherent.record_of_running hdeployment hadmits hrunning⟩

theorem crowded_index_is_cached :
    ∃ m, Manager.inProcess crowdedSettings keeperRegistry = .ok m ∧
      Event.NeverShared crowded ∧
      let m := ((initial m keeperWorld).replay crowded).manager
      ∃ i r, m.tracked? (numberedCollection 1).id = some i ∧
        m.cached? .vectorReader (numberedCollection 1).id = some r ∧
        m.running? r.id = some i := by
  have hids : Event.NeverShared crowded := by decide +kernel
  have htracked : ∀ m, Manager.inProcess crowdedSettings keeperRegistry = .ok m →
      (((initial m keeperWorld).replay crowded).manager.tracked?
        (numberedCollection 1).id).isSome = true := by
    rintro m ⟨⟩
    decide +kernel
  have hm : Manager.inProcess crowdedSettings keeperRegistry = .ok _ := rfl
  refine ⟨_, hm, hids, ?_⟩
  obtain ⟨i, hi⟩ := Option.isSome_iff_exists.mp (htracked _ hm)
  obtain ⟨r, hcached, hrunning⟩ :=
    (cached_runs_and_tracked_is_cached hm keeperWorld hids).2 _ i hi
  exact ⟨i, r, hi, hcached, hrunning⟩

end System

end SegmentManager
