import SegmentManager.Proofs.System.Endpoints
import SegmentManager.Proofs.System.Failure

/-!
# New collections are found

The manager that prepares the records of a new collection is the one that looks
for them later.  Once the catalog has the records, each is the first row of its
scope, and it stays the one that lookups serve until it is withdrawn, whatever
becomes of the caches and of other collections.
-/

namespace SegmentManager

open Simulation

namespace Registry

variable {g : Registry} {rows new : List Record} {c : CollectionId} {scope : Scope} {r : Record}

theorem propagate_eq_some {kind : Kind} {metadata : Option Metadata} {x : Metadata} :
    g.propagate kind metadata = some x ↔
      ∃ d f, g.get? kind = some d ∧ d.propagate = some f ∧ x = f (metadata.getD .empty) := by
  unfold propagate
  simp only [Option.bind_eq_some_iff, Option.map_eq_some_iff]
  constructor
  · rintro ⟨d, hd, f, hf, rfl⟩
    exact ⟨d, f, hd, hf, rfl⟩
  · rintro ⟨d, f, hd, hf, rfl⟩
    exact ⟨d, hd, f, hf, rfl⟩

theorem first?_of_mem (hscopes : (rows.map (·.scope)).Nodup) (hmem : r ∈ rows)
    (hknown : g.knows r.kind = true) : g.first? rows r.collection r.scope = some r := by
  unfold first?
  cases hfind : rows.find? _ with
  | none =>
      have hskipped := List.find?_eq_none.mp hfind r hmem
      simp [hknown] at hskipped
  | some row =>
      have hfits := List.find?_some hfind
      simp only [decide_eq_true_eq] at hfits
      rw [List.inj_on_of_nodup_map hscopes (List.mem_of_find?_eq_some hfind) hmem hfits.2.1]

theorem first?_append_of_absent (habsent : ∀ row ∈ rows, row.collection ≠ c) :
    g.first? (rows ++ new) c scope = g.first? new c scope := by
  have hnone : g.first? rows c scope = none :=
    first?_eq_none fun row hrow hcollection _ => (habsent row hrow hcollection).elim
  unfold first? at hnone ⊢
  rw [List.find?_append, hnone, Option.none_or]

end Registry

namespace Manager

variable {m : Manager} {c : Collection} {fresh : Scope → SegmentId} {r : Record}

theorem scopes_prepare (m : Manager) (c : Collection) (fresh : Scope → SegmentId) :
    (m.prepare c fresh).map (·.scope) =
      if m.deployment.ownProcess then [.vector, .metadata] else [.vector, .metadata, .record] := by
  unfold prepare layout
  cases m.deployment <;> rfl

theorem nodup_scopes_prepare : ((m.prepare c fresh).map (·.scope)).Nodup := by
  rw [scopes_prepare]
  split <;> decide

theorem prepared_of_mem (hmem : r ∈ m.prepare c fresh) :
    r.id = fresh r.scope ∧ r.collection = c.id ∧
      r.metadata = m.kinds.propagate r.kind c.metadata := by
  obtain ⟨e, -, rfl⟩ := List.mem_map.mp hmem
  exact ⟨rfl, rfl, rfl⟩

end Manager

namespace System

variable {W : Type} [Backend W] {created : List Record} {s s' : System W} {c : CollectionId}
  {k : Capability} {row r : Record} {i : Instance}

/-! ## Lookups that have to succeed -/

/-- What a lookup needs to serve a row that is not cached: a catalog that can be
read, a worker if there are workers, and unless its segment runs already, an
instance that can be made and started. -/
structure Obtainable (row : Record) (s : System W) : Prop where
  serves : s.catalog.refusal = none
  made : ∃ r, s.manager.complete row = .ok r ∧ (s.manager.running? row.id = none →
    ∃ views world,
      Backend.build s.manager.persistDirectory s.site.built r s.site.world = (.ok views, world) ∧
      (Backend.perform .start ⟨s.site.built, r, views⟩ world).1 = .ok ())

theorem launch_of_build {m : Manager} {site : Site W} {views : Views} {world : W}
    (hknown : m.kinds.knows r.kind = true)
    (hbuild : Backend.build m.persistDirectory site.built r site.world = (.ok views, world))
    (hstart : (Backend.perform .start ⟨site.built, r, views⟩ world).1 = .ok ()) :
    (launch m r site).1 = .ok ⟨site.built, r, views⟩ := by
  unfold launch Registry.instantiate
  rw [if_pos hknown]
  simp only [Site.build, hbuild, Site.perform, hstart]

theorem answered_of_obtainable (hfilter : s.catalog.filtering = true)
    (habsent : s.manager.cached? k c = none)
    (hfirst : s.manager.kinds.first? s.catalog.rows c k.scope = some row)
    (hobtainable : s.Obtainable row) : ∃ i, (s.getSegment c k).1 = .ok i := by
  obtain ⟨hserves, r, hcomplete, hmade⟩ := hobtainable
  have hserved := Manager.serves_of_complete hcomplete
  have hknown : s.manager.kinds.knows r.kind = true := by
    have hfits := List.find?_some hfirst
    simp only [decide_eq_true_eq] at hfits
    rw [hserved.kind_eq]
    exact hfits.2.2
  have hfetch : ((s.consult c k.scope).2.fetch c k.scope).1 = .ok r := by
    rw [(s.keeps_consult c k).fetch_fst, fetch_fst hfilter hserves, Registry.sought, hfirst]
    exact hcomplete
  have hacquire : ∃ i, ((s.fetching c k).acquire r).1 = .ok i := by
    cases hrunning : (s.fetching c k).manager.running? r.id with
    | some i => exact ⟨i, by rw [acquire_of_running hrunning]⟩
    | none =>
        have hnone := (running?_fetching (c := c) (k := k) r.id).symm.trans hrunning
        rw [hserved.id_eq] at hnone
        obtain ⟨views, world, hbuild, hstart⟩ := hmade hnone
        have hlaunch : (launch (s.fetching c k).manager r (s.fetching c k).site).1 =
            .ok ⟨s.site.built, r, views⟩ := by
          rw [manager_fetching habsent]
          exact launch_of_build hknown hbuild hstart
        rw [acquire_of_absent hrunning]
        generalize launch (s.fetching c k).manager r (s.fetching c k).site = launched at hlaunch ⊢
        obtain ⟨answer, site⟩ := launched
        obtain rfl : answer = _ := hlaunch
        exact ⟨_, rfl⟩
  have hnext := fetch_snd c k.scope (s.consult c k.scope).2
  rw [getSegment_of_absent habsent]
  unfold load
  generalize (s.consult c k.scope).2.fetch c k.scope = fetched at hfetch hnext ⊢
  obtain ⟨answer, next⟩ := fetched
  obtain rfl : answer = .ok r := hfetch
  obtain rfl : next = s.fetching c k := hnext
  obtain ⟨i, hanswer⟩ := hacquire
  simp only
  generalize (s.fetching c k).acquire r = acquired at hanswer ⊢
  obtain ⟨answer, last⟩ := acquired
  obtain rfl : answer = .ok i := hanswer
  exact ⟨i, rfl⟩

/-! ## Rows in place -/

/-- The row is the one that lookups serve: a fetch selects it, and nothing else is
cached. -/
structure Installed (c : CollectionId) (k : Capability) (row : Record) (s : System W) : Prop where
  first : s.manager.kinds.first? s.catalog.rows c k.scope = some row
  cached : ∀ r, s.manager.cached? k c = some r → s.manager.deployment.Serves row r

namespace Installed

omit [Backend W] in
theorem serves_of_selects (h : s.Installed c k row) (hselects : s.Selects k c r) :
    s.manager.deployment.Serves row r := by
  obtain ⟨row', hfirst, hcomplete⟩ := hselects
  obtain rfl := Option.some.inj (hfirst.symm.trans h.first)
  exact Manager.serves_of_complete hcomplete

theorem handle (hs : s.Coherent created) (h : s.Installed c k row) (q : Request) :
    (s.handle q).2.Installed c k row := by
  have hsetup := hs.sameSetup_handle q
  constructor
  · rw [hsetup.kinds, (hs.contents_handle q).rows]
    exact h.first
  · intro r hheld
    rw [hsetup.deployment]
    rcases hs.held_after_handle q hheld with hbefore | hselects
    · exact h.cached r hbefore
    · exact h.serves_of_selects hselects

theorem after (hs : s.Coherent created) (h : s.Installed c k row) {e : Event W}
    (hkept : e ≠ .withdraw c) : (s.after e).Installed c k row := by
  have hfirst : (s.after e).manager.kinds.first? (s.after e).catalog.rows c k.scope =
      some row := by
    have hstays : .withdraw c ∉ [e] := by simpa using hkept.symm
    rw [hs.kinds_after, hs.rows_after]
    exact Event.first?_rewrite hstays h.first
  cases e with
  | request q => exact h.handle hs q
  | regroup members =>
      refine ⟨hfirst, fun r hheld => ?_⟩
      have hserves := h.cached r ((s.manager.cached?_withMembers members k c).symm.trans hheld)
      exact hserves.withMembers members
  | enter rows => exact ⟨hfirst, h.cached⟩
  | withdraw d => exact ⟨hfirst, h.cached⟩
  | refuse text => exact ⟨hfirst, h.cached⟩
  | elapse change => exact ⟨hfirst, h.cached⟩

theorem served (hs : s.Coherent created) (h : s.Installed c k row)
    (hserved : (s.getSegment c k).1 = .ok i) : s.manager.deployment.Serves row i.record := by
  have hlook := hs.looks_getSegment c k
  have hafter := h.handle hs (.get c k)
  obtain ⟨hcoherent, hserving⟩ := hs.looks hlook
  obtain ⟨r, hheld, hrunning⟩ := hserving i hserved
  have hrow : row ∈ created := hs.recorded.subset (List.mem_of_find?_eq_some h.first)
  have hserves := hcoherent.serves_of_running hrow (hafter.cached r hheld) hrunning
  rwa [hlook.sameSetup.deployment] at hserves

theorem answered (hs : s.Coherent created) (h : s.Installed c k row)
    (hobtainable : s.manager.cached? k c = none → s.Obtainable row) :
    ∃ i, (s.getSegment c k).1 = .ok i := by
  cases hcached : s.manager.cached? k c with
  | some r =>
      obtain ⟨i, hrunning⟩ := (hs.manager.cached k c r hcached).2
      rw [getSegment_of_cached hcached hrunning]
      exact ⟨i, rfl⟩
  | none => exact answered_of_obtainable hs.filtering hcached h.first (hobtainable hcached)

omit [Backend W] in
theorem of_create {c : Collection} {fresh : Scope → SegmentId}
    (hnone : s.catalog.rowsOf c.id = []) (habsent : s.manager.cached? k c.id = none)
    (hrow : row ∈ s.manager.prepare c fresh) (hscope : row.scope = k.scope)
    (hknown : s.manager.kinds.knows row.kind = true) :
    (s.create c fresh).Installed c.id k row := by
  constructor
  · have hother : ∀ other ∈ s.catalog.rows, other.collection ≠ c.id := by
      intro other hmem hcollection
      have hlisted : other ∈ s.catalog.rowsOf c.id :=
        List.mem_filter.mpr ⟨hmem, by simpa using hcollection⟩
      rw [hnone] at hlisted
      cases hlisted
    change s.manager.kinds.first? (s.catalog.rows ++ s.manager.prepare c fresh) c.id k.scope = _
    rw [Registry.first?_append_of_absent hother, ← hscope,
      ← (Manager.prepared_of_mem hrow).2.1]
    exact Registry.first?_of_mem Manager.nodup_scopes_prepare hrow hknown
  · intro r hheld
    cases habsent.symm.trans hheld

theorem replay {m : Manager} (hm : m.Fresh) (w : W) {events later : List (Event W)}
    (hids : Event.NeverShared (events ++ later)) (hkept : .withdraw c ∉ later)
    (h : ((initial m w).replay events).Installed c k row) :
    ((initial m w).replay (events ++ later)).Installed c k row := by
  induction later using List.reverseRecOn with
  | nil =>
      rw [List.append_nil]
      exact h
  | append_singleton later e ih =>
      simp only [List.mem_append, List.mem_singleton, not_or] at hkept
      rw [← List.append_assoc] at hids ⊢
      rw [replay_concat]
      exact (ih hids.of_append hkept.1).after (coherent_replay hm w hids.of_append)
        (Ne.symm hkept.2)

end Installed

/-- A new collection, in any state that a history leads to and where nothing is
stored or cached of it.

* One record is prepared for each scope, with the metadata that the manager's
  registry propagates to its kind from that of the collection.
* Storing the records changes the catalog only.
* After any later history without a withdrawal, a lookup of a record whose kind
  is known answers with nothing but an instance of that record, with the address
  of its worker if it has one; and it does answer, if the record is cached or can
  be obtained. -/
theorem new_collections_are_found {m : Manager} (hm : m.Fresh) (w : W)
    (events later : List (Event W)) (c : Collection) (fresh : Scope → SegmentId) :
    let s := (initial m w).replay events
    let prepared := s.manager.prepare c fresh
    let s' := (s.create c fresh).replay later
    Event.NeverShared (events ++ .enter prepared :: later) →
    s.catalog.rowsOf c.id = [] → (∀ k, s.manager.cached? k c.id = none) →
    .withdraw c.id ∉ later →
    prepared.map (·.scope) =
      (if m.deployment.ownProcess then [.vector, .metadata] else [.vector, .metadata, .record]) ∧
    (∀ r ∈ prepared, r.id = fresh r.scope ∧ r.collection = c.id ∧
      ∀ x, r.metadata = some x ↔ ∃ d f, m.kinds.get? r.kind = some d ∧ d.propagate = some f ∧
        x = f (c.metadata.getD .empty)) ∧
    s.create c fresh = { s with catalog := s.catalog.add prepared } ∧
    ∀ k, ∀ r ∈ prepared, r.scope = k.scope → m.kinds.knows r.kind = true →
      (∀ i, (s'.getSegment c.id k).1 = .ok i → s'.manager.deployment.Serves r i.record) ∧
      ((s'.manager.cached? k c.id = none → s'.Obtainable r) →
        ∃ i, (s'.getSegment c.id k).1 = .ok i) := by
  intro s prepared s' hids hnone habsent hkept
  have hkinds : s.manager.kinds = m.kinds := (rows_replay hm w hids.of_append).2
  have hdeployment : s.manager.deployment.ownProcess = m.deployment.ownProcess :=
    (ledger_replay hm w hids.of_append).1
  have hlater : s' = (initial m w).replay (events ++ .enter prepared :: later) := by
    rw [replay_append]
    rfl
  refine ⟨?_, ?_, rfl, ?_⟩
  · rw [← hdeployment]
    exact s.manager.scopes_prepare c fresh
  · intro r hr
    obtain ⟨hid, hcollection, hmetadata⟩ := Manager.prepared_of_mem hr
    refine ⟨hid, hcollection, fun x => ?_⟩
    rw [hmetadata, hkinds]
    exact Registry.propagate_eq_some
  · intro k r hr hscope hknown
    rw [← hkinds] at hknown
    have hcreated : ((initial m w).replay (events ++ [.enter prepared])).Installed c.id k r := by
      rw [replay_concat]
      exact .of_create hnone (habsent k) hr hscope hknown
    rw [List.append_cons] at hids hlater
    have hinstalled := hcreated.replay hm w hids hkept
    rw [← hlater] at hinstalled
    have hcoherent := coherent_replay hm w hids
    rw [← hlater] at hcoherent
    exact ⟨fun i => hinstalled.served hcoherent, hinstalled.answered hcoherent⟩

def described : Collection :=
  { numberedCollection 1 with metadata := some (Metadata.empty.insert "hnsw:space" (.text "l2")) }

def describedVectors : Record :=
  ⟨numberedSegment 1 .vector, .hnswRemote, .vector, described.id, described.metadata⟩

def resettled : List (Event World) :=
  [.request (.get described.id .vectorReader), .request (.delete described.id),
    .regroup ["third"]]

theorem described_vectors_are_found :
    let s := (initial (.distributed (soleWorker "first") keeperRegistry) keeperWorld).replay
      relocated
    let prepared := s.manager.prepare described (numberedSegment 1)
    let s' := (s.create described (numberedSegment 1)).replay resettled
    Event.NeverShared (relocated ++ .enter prepared :: resettled) ∧
      prepared.map (·.scope) = [.vector, .metadata, .record] ∧ describedVectors ∈ prepared ∧
      s'.manager.cached? .vectorReader described.id = none ∧
      ∃ i endpoint, (s'.getSegment described.id .vectorReader).1 = .ok i ∧
        i.record = describedVectors.withEntry Record.endpointKey (.text endpoint) := by
  intro s prepared s'
  have hids : Event.NeverShared (relocated ++ .enter prepared :: resettled) := by decide +kernel
  have hmem : describedVectors ∈ prepared := by decide +kernel
  have hnone : s.catalog.rowsOf described.id = [] := by decide +kernel
  have habsent : ∀ k, s.manager.cached? k described.id = none := by
    intro k
    cases k <;> decide +kernel
  have hforgotten : s'.manager.cached? .vectorReader described.id = none := by decide +kernel
  have hobtainable : s'.Obtainable describedVectors := by
    have hcomplete : s'.manager.complete describedVectors =
        .ok (describedVectors.servedBy "third" Workers.defaultPort) := by decide +kernel
    have hbuild : (Backend.build s'.manager.persistDirectory s'.site.built
        (describedVectors.servedBy "third" Workers.defaultPort) s'.site.world).1 =
          .ok ⟨false, false, true⟩ := by decide +kernel
    refine ⟨by decide +kernel, _, hcomplete, fun _ => ⟨_, _, Prod.ext hbuild rfl, ?_⟩⟩
    decide +kernel
  obtain ⟨hscopes, -, -, hfound⟩ := new_collections_are_found
    (.distributed (soleWorker "first") keeperRegistry) keeperWorld relocated resettled described
    (numberedSegment 1) hids hnone habsent (by simp [resettled])
  obtain ⟨hserved, hanswers⟩ := hfound .vectorReader describedVectors hmem rfl (by decide +kernel)
  obtain ⟨i, hanswer⟩ := hanswers fun _ => hobtainable
  have hdeployment : s'.manager.deployment =
      .distributed ((soleWorker "first").regroup ["third"]) := by decide +kernel
  have hserves := hserved i hanswer
  rw [hdeployment] at hserves
  obtain ⟨endpoint, hrecord⟩ := hserves
  exact ⟨hids, hscopes, hmem, hforgotten, i, endpoint, hanswer, hrecord⟩

end System

end SegmentManager
