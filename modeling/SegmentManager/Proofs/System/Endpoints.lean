import SegmentManager.Proofs.Routing
import SegmentManager.Proofs.System.Deletion
import SegmentManager.Proofs.System.Rush
import SegmentManager.Proofs.System.Transparency

/-!
# Proxies keep their endpoints

A proxy is made for a row with the address of the member that owned its
collection when the row was fetched.  Members come and go, but what is cached
and what runs stay one: until the collection is deleted or all is reset, a
lookup answers with that proxy, and only the next fetch asks the new members.
-/

namespace SegmentManager

open Simulation

def Record.servedBy (row : Record) (member : String) (port : Nat) : Record :=
  { row with
    metadata := some ((row.metadata.getD .empty).insert endpointKey
      (.text (member ++ ":" ++ toString port))) }

def Event.group {W : Type} (members : List String) : Event W → List String
  | regroup group => group
  | _ => members

/-- After a history, a lookup that has to fetch finds this record: the first row
that fits, served from the member that owns the collection by then. -/
def Addressed {W : Type} (workers : Workers) (g : Registry) (history : List (Event W))
    (c : CollectionId) (k : Capability) (r : Record) : Prop :=
  ∃ row member,
    (Manager.distributedKinds g).first? (history.foldl Event.rewrite []) c k.scope = some row ∧
    Routing.owner (Routing.weight (toString c)) (history.foldl Event.group workers.members) =
      some member ∧
    r = row.servedBy member workers.port

theorem Manager.complete_eq_ok {m : Manager} {workers : Workers}
    (hdeployment : m.deployment = .distributed workers) {row r : Record}
    (hcomplete : m.complete row = .ok r) :
    ∃ member, workers.owner (toString row.collection) = some member ∧
      r = row.servedBy member workers.port := by
  rw [complete_of_distributed hdeployment] at hcomplete
  rcases workers.endpoint_eq row.collection with ⟨member, howner, hendpoint⟩ | ⟨-, hendpoint⟩
  · rw [hendpoint] at hcomplete
    exact ⟨member, howner, (Except.ok.inj hcomplete).symm⟩
  · rw [hendpoint] at hcomplete
    cases hcomplete

namespace System

variable {W : Type} [Backend W] {created : List Record} {s s' : System W} {c d : CollectionId}
  {k j : Capability} {r : Record} {i : Instance}

/-! ## What events do to rows, kinds and members -/

theorem Coherent.rows_after (hs : s.Coherent created) (e : Event W) :
    (s.after e).catalog.rows = e.rewrite s.catalog.rows := by
  cases e with
  | request q => exact (hs.contents_handle q).rows
  | enter rows => rfl
  | withdraw c => rfl
  | refuse text => rfl
  | regroup members => rfl
  | elapse change => rfl

theorem Coherent.kinds_after (hs : s.Coherent created) (e : Event W) :
    (s.after e).manager.kinds = s.manager.kinds := by
  cases e with
  | request q => exact (hs.sameSetup_handle q).kinds
  | regroup members => exact s.manager.kinds_withMembers members
  | enter rows => rfl
  | withdraw c => rfl
  | refuse text => rfl
  | elapse change => rfl

theorem Coherent.workers_after (hs : s.Coherent created) {workers : Workers}
    (hdeployment : s.manager.deployment = .distributed workers) (e : Event W) :
    (s.after e).manager.deployment = .distributed (workers.regroup (e.group workers.members)) := by
  cases e with
  | request q => exact (hs.sameSetup_handle q).deployment.trans hdeployment
  | regroup members =>
      change (s.manager.withMembers members).deployment = _
      unfold Manager.withMembers
      rw [hdeployment]
      rfl
  | enter rows => exact hdeployment
  | withdraw c => exact hdeployment
  | refuse text => exact hdeployment
  | elapse change => exact hdeployment

theorem rows_replay {m : Manager} (hm : m.Fresh) (w : W) {events : List (Event W)}
    (hids : Event.NeverShared events) :
    ((initial m w).replay events).catalog.rows = events.foldl Event.rewrite [] ∧
      ((initial m w).replay events).manager.kinds = m.kinds := by
  revert hids
  refine replay_induction (P := fun events s => Event.NeverShared events →
    s.catalog.rows = events.foldl Event.rewrite [] ∧ s.manager.kinds = m.kinds) ?_ ?_ events
  · intro hids
    exact ⟨rfl, rfl⟩
  · intro events e ih hids
    obtain ⟨hrows, hkinds⟩ := ih hids.of_append
    have hs := coherent_replay hm w hids.of_append
    rw [List.foldl_concat, ← hrows]
    exact ⟨hs.rows_after e, (hs.kinds_after e).trans hkinds⟩

theorem workers_replay (workers : Workers) (g : Registry) (w : W) {events : List (Event W)}
    (hids : Event.NeverShared events) :
    ((initial (.distributed workers g) w).replay events).manager.deployment =
      .distributed (workers.regroup (events.foldl Event.group workers.members)) := by
  revert hids
  refine replay_induction (P := fun events s => Event.NeverShared events →
    s.manager.deployment =
      .distributed (workers.regroup (events.foldl Event.group workers.members))) ?_ ?_ events
  · intro hids
    rfl
  · intro events e ih hids
    have hs := coherent_replay (.distributed workers g) w hids.of_append
    rw [List.foldl_concat]
    exact hs.workers_after (ih hids.of_append) e

theorem addressed_of_fetch {workers : Workers} {g : Registry} {w : W} {events : List (Event W)}
    (hids : Event.NeverShared events)
    (hfetch : (((initial (.distributed workers g) w).replay events).fetch c k.scope).1 = .ok r) :
    Addressed workers g events c k r := by
  have hs := coherent_replay (.distributed workers g) w hids
  obtain ⟨hrows, hkinds⟩ := rows_replay (.distributed workers g) w hids
  obtain ⟨row, hfirst, hcomplete⟩ := first?_of_fetch hs.filtering hfetch
  obtain ⟨member, howner, hserved⟩ :=
    Manager.complete_eq_ok (workers_replay workers g w hids) hcomplete
  have hfits := List.find?_some hfirst
  simp only [decide_eq_true_eq] at hfits
  rw [hrows, hkinds] at hfirst
  rw [hfits.1] at howner
  exact ⟨row, member, hfirst, howner, hserved⟩

/-! ## Lookups in unlimited caches -/

theorem Looks.running_or_answer {answer : Except Fault Instance} (hlook : Looks c k s answer s')
    {segment : SegmentId} (hrunning : s'.manager.running? segment = some i) :
    s.manager.running? segment = some i ∨ answer = .ok i := by
  have hload : ∀ {loaded next}, Loads c k s loaded next →
      next.manager.running? segment = some i →
      s.manager.running? segment = some i ∨ ∃ r, loaded = .ok (r, i) := by
    intro loaded next hload hruns
    rcases hload.running_of hruns with hbefore | ⟨-, r, hanswer, -⟩
    · exact .inl hbefore
    · exact .inr ⟨r, hanswer⟩
  cases hlook with
  | cached hcached hruns =>
      left
      rwa [running?_consult] at hrunning
  | failed habsent hloads =>
      rcases hload hloads hrunning with hbefore | ⟨r, hanswer⟩
      · exact .inl hbefore
      · cases hanswer
  | loaded habsent hloads =>
      rcases hload hloads (running?_of_remember hrunning).1 with hbefore | ⟨r, hanswer⟩
      · exact .inl hbefore
      · cases hanswer
        exact .inr rfl

theorem Coherent.grows_getSegment (hs : s.Coherent created)
    (hlimit : s.manager.deployment.limit? k = none) : s.Grows (s.getSegment c k).2 := by
  have hlook := hs.looks_getSegment c k
  generalize (s.getSegment c k).1 = answer, (s.getSegment c k).2 = s' at hlook ⊢
  cases hlook with
  | cached hcached hrunning =>
      refine ⟨?_, ?_⟩
      · intro segment i hruns
        exact (s.running?_consult c k.scope segment).trans hruns
      · intro j d e hheld
        exact (cached?_consult c d k j s).trans hheld
  | failed habsent hload =>
      refine ⟨fun segment i => hload.still_running, ?_⟩
      intro j d e hheld
      exact ((hs.loads habsent hload).2.1.cached? j d).trans hheld
  | loaded habsent hload =>
      rename_i r i next
      obtain ⟨hnext, hcaches, hok⟩ := hs.loads habsent hload
      have hnone := hnext.displaced_of_unlimited
        ((congrArg (·.limit? k) hload.sameSetup.deployment).trans hlimit) r
      refine ⟨?_, ?_⟩
      · intro segment i' hruns
        rw [running?_remember, hnone]
        exact hload.still_running hruns
      · intro j d e hheld
        rw [cached?_remember r k hnext.manager.wellFormed, hnone, hcaches.cached?, hcaches.cached?]
        by_cases hj : j = k
        · subst hj
          have hd : d ≠ r.collection := by
            rintro rfl
            rw [(hok r i rfl).1.collection, habsent] at hheld
            cases hheld
          simpa [hd] using hheld
        · simpa [hj] using hheld

omit [Backend W] in
theorem Coherent.mem_rowsOf_of_served (hs : s.Coherent created)
    (hserved : ∃ row ∈ created, s.manager.deployment.Serves row r) (hcollection : r.collection = c)
    (hmem : r.id ∈ s.catalog.rows.map (·.id)) : r.id ∈ (s.catalog.rowsOf c).map (·.id) := by
  obtain ⟨origin, horigin, hserves⟩ := hserved
  obtain ⟨row, hrow, hid⟩ := List.mem_map.mp hmem
  have hsame : row = origin := by
    apply List.inj_on_of_nodup_map hs.distinct (hs.recorded.subset hrow) horigin
    rw [hid, hserves.id_eq]
  refine List.mem_map.mpr ⟨row, List.mem_filter.mpr ⟨hrow, ?_⟩, hid⟩
  rw [hsame, ← hserves.collection_eq]
  simpa using hcollection

/-! ## One proxy for each record -/

/-- What is cached runs as it is recorded, and what runs without being cached
has lost its row. -/
structure Proxied (created : List Record) (s : System W) : Prop extends Coherent created s where
  remote : s.manager.deployment.ownProcess = false
  matched : ∀ k c r i, s.manager.cached? k c = some r → s.manager.running? r.id = some i →
    i.record = r
  kept : ∀ segment i, s.manager.running? segment = some i →
    (∃ k c, s.manager.cached? k c = some i.record) ∨ segment ∉ s.catalog.rows.map (·.id)

namespace Proxied

/-! ### Lookups -/

omit [Backend W] in
theorem absent_of_admits (hs : s.Proxied created) (habsent : s.manager.cached? k c = none)
    (hadmits : s.manager.Admits s.catalog.rows k c r) : s.manager.running? r.id = none := by
  cases hrunning : s.manager.running? r.id with
  | none => rfl
  | some i =>
      rcases hs.kept r.id i hrunning with ⟨j, d, hcached⟩ | hgone
      · have hid := (hs.manager.running r.id i hrunning).1
        have hadmitted := hadmits.mono fun row hrow => hs.recorded.subset hrow
        obtain ⟨rfl, rfl⟩ := hadmitted.place_eq hs.distinct (hs.manager.cached j d _ hcached).1
          hid.symm
        rw [habsent] at hcached
        cases hcached
      · obtain ⟨row, hrow, hserves⟩ := hadmits.served
        exact (hgone (List.mem_map.mpr ⟨row, hrow, hserves.id_eq.symm⟩)).elim

theorem made_of_getSegment (hs : s.Proxied created) (habsent : s.manager.cached? k c = none)
    (hserved : (s.getSegment c k).1 = .ok i) :
    (s.fetch c k.scope).1 = .ok i.record ∧ i.serial = s.site.built := by
  obtain ⟨r, next, hload, hfetch, -⟩ := loaded_of_getSegment hs.filtering habsent hserved
  cases hload with
  | running hadmits hrunning =>
      rw [hs.absent_of_admits habsent hadmits] at hrunning
      cases hrunning
  | launched hadmits hnone hlaunch =>
      rcases launch_cases (s.fetching c k).manager r s.site with
        ⟨i', site, hend, hrecord, hserial, -⟩ | ⟨fault, i', site, hend, -⟩ | ⟨fault, site, hend, -⟩
      all_goals
        rw [hend] at hlaunch
        cases hlaunch
      rw [hrecord]
      exact ⟨hfetch, hserial⟩

theorem grows_getSegment (hs : s.Proxied created) (c : CollectionId) (k : Capability) :
    s.Grows (s.getSegment c k).2 :=
  hs.toCoherent.grows_getSegment (Deployment.limit?_of_remote hs.remote k)

theorem getSegment (hs : s.Proxied created) (c : CollectionId) (k : Capability) :
    (s.getSegment c k).2.Proxied created := by
  have hlook := hs.looks_getSegment c k
  obtain ⟨hcoherent, hserving⟩ := hs.toCoherent.looks hlook
  have hgrows := hs.grows_getSegment c k
  have hmatched : ∀ j d e i, (s.getSegment c k).2.manager.cached? j d = some e →
      (s.getSegment c k).2.manager.running? e.id = some i → i.record = e := by
    intro j d e i hheld hrunning
    rcases hs.toCoherent.cached_after_getSegment hheld with
      ⟨hbefore, hsame⟩ | ⟨rfl, rfl, habsent, hfetch, i', hserved⟩
    · rw [hsame] at hrunning
      exact hs.matched j d e i hbefore hrunning
    · obtain ⟨hfetch', -⟩ := hs.made_of_getSegment habsent hserved
      obtain ⟨e', hheld', hrunning'⟩ := hserving i' hserved
      obtain rfl : e' = e := Option.some.inj (hheld'.symm.trans hheld)
      obtain rfl : i' = i := Option.some.inj (hrunning'.symm.trans hrunning)
      exact Except.ok.inj (hfetch'.symm.trans hfetch)
  refine ⟨hcoherent, ?_, hmatched, ?_⟩
  · rw [hlook.sameSetup.deployment]
    exact hs.remote
  · intro segment i hrunning
    rcases hlook.running_or_answer hrunning with hbefore | hserved
    · rcases hs.kept segment i hbefore with ⟨j, d, hcached⟩ | hgone
      · exact .inl ⟨j, d, hgrows.cached j d i.record hcached⟩
      · right
        rwa [hlook.contents.rows]
    · obtain ⟨e, hheld, hrunning'⟩ := hserving i hserved
      rw [← hmatched k c e i hheld hrunning'] at hheld
      exact .inl ⟨k, c, hheld⟩

/-! ### Other requests -/

theorem hint_eq (hs : s.Proxied created) (c : CollectionId) (operation : Operation) :
    s.hint c operation = (.ok (), s) := by
  have hremote := hs.remote
  unfold System.hint
  cases hdeployment : s.manager.deployment with
  | inProcess settings =>
      rw [hdeployment] at hremote
      cases hremote
  | distributed workers => rfl

theorem clears (hs : s.Proxied created) {answer : Except Fault (List SegmentId)}
    (hclears : Clears c s answer s') : s'.Proxied created := by
  obtain ⟨hrunning, hcached⟩ := hclears.before
  have hrows := hclears.contents.rows
  refine ⟨hs.toCoherent.clears hclears, ?_, ?_, ?_⟩
  · rw [hclears.sameSetup.deployment]
    exact hs.remote
  · intro k d r i hheld hruns
    exact hs.matched k d r i (hcached k d r hheld) (hrunning r.id i hruns)
  · intro segment i hruns
    rw [hrows]
    have hbefore := hrunning segment i hruns
    rcases hs.kept segment i hbefore with ⟨j, d, hheld⟩ | hgone
    · cases hclears with
      | refused hrefusal => exact .inl ⟨j, d, hheld⟩
      | deleted hdeployment hdeletes =>
          have hown := hs.remote
          rw [hdeployment] at hown
          cases hown
      | released hdeployment hdown =>
          rename_i workers s'
          by_cases hd : d = c
          · -- Its row would be among those that were listed and taken down.
            right
            intro hmem
            obtain ⟨hid, hserved⟩ := hs.manager.running segment i hbefore
            have hcollection := (hs.manager.cached j d i.record hheld).1.collection
            rw [← hid] at hmem hruns
            have hlisted := hs.mem_rowsOf_of_served hserved (hcollection.trans hd) hmem
            have hdown' := hdown.running i.record.id
            rw [if_pos hlisted] at hdown'
            cases hdown'.symm.trans hruns
          · left
            refine ⟨j, d, ?_⟩
            rw [cached?_forgetAll, if_neg hd, hdown.caches.cached?]
            exact hheld
    · exact .inr hgone

theorem handle (hs : s.Proxied created) (q : Request) : (s.handle q).2.Proxied created := by
  cases q with
  | get c k => exact hs.getSegment c k
  | getNamed c name =>
      change (s.getSegmentNamed c name).2.Proxied created
      unfold getSegmentNamed
      cases Capability.ofName? name with
      | none => exact hs
      | some k => exact hs.getSegment c k
  | hint c operation =>
      change (s.hint c operation).2.Proxied created
      rw [hs.hint_eq]
      exact hs
  | delete c => exact hs.clears (hs.clears_deleteSegments c)
  | start order => exact ⟨hs.toCoherent.handle (.start order), hs.remote, hs.matched, hs.kept⟩
  | stop order => exact ⟨hs.toCoherent.handle (.stop order), hs.remote, hs.matched, hs.kept⟩
  | reset order =>
      refine ⟨hs.toCoherent.handle (.reset order), hs.remote, ?_, ?_⟩
      · intro k c r i hheld hrunning
        cases hrunning
      · intro segment i hrunning
        cases hrunning

/-! ### Histories -/

theorem after (hs : s.Proxied created) {e : Event W}
    (hids : ((created ++ e.entered).map (·.id)).Nodup) :
    (s.after e).Proxied (created ++ e.entered) := by
  have hcoherent := hs.toCoherent.after e hids
  have hremote : (s.after e).manager.deployment.ownProcess = false :=
    (hs.toCoherent.ownProcess_after e).trans hs.remote
  cases e with
  | request q =>
      have hs' := hs.handle q
      exact ⟨hcoherent, hremote, hs'.matched, hs'.kept⟩
  | enter rows =>
      refine ⟨hcoherent, hremote, hs.matched, ?_⟩
      intro segment i hrunning
      refine (hs.kept segment i hrunning).imp id fun hgone => ?_
      obtain ⟨hid, row, hrow, hserves⟩ := hs.manager.running segment i hrunning
      have hold : segment ∈ created.map (·.id) :=
        List.mem_map.mpr ⟨row, hrow, hserves.id_eq.symm.trans hid⟩
      rw [List.map_append, List.nodup_append] at hids
      change segment ∉ (s.catalog.rows ++ rows).map (·.id)
      rw [List.map_append, List.mem_append]
      rintro (hmem | hmem)
      · exact hgone hmem
      · exact hids.2.2 segment hold segment hmem rfl
  | withdraw c =>
      refine ⟨hcoherent, hremote, hs.matched, ?_⟩
      intro segment i hrunning
      refine (hs.kept segment i hrunning).imp id fun hgone hmem => hgone ?_
      obtain ⟨row, hrow, hid⟩ := List.mem_map.mp hmem
      exact List.mem_map.mpr ⟨row, (List.mem_filter.mp hrow).1, hid⟩
  | regroup members =>
      have hrunning : ∀ segment, (s.after (.regroup members)).manager.running? segment =
          s.manager.running? segment := s.manager.running?_withMembers members
      have hcached : ∀ k c, (s.after (.regroup members)).manager.cached? k c =
          s.manager.cached? k c := s.manager.cached?_withMembers members
      refine ⟨hcoherent, hremote, ?_, ?_⟩
      · intro k c r i hheld hruns
        rw [hcached] at hheld
        rw [hrunning] at hruns
        exact hs.matched k c r i hheld hruns
      · intro segment i hruns
        rw [hrunning] at hruns
        simp only [hcached]
        exact hs.kept segment i hruns
  | refuse text => exact ⟨hcoherent, hremote, hs.matched, hs.kept⟩
  | elapse change => exact ⟨hcoherent, hremote, hs.matched, hs.kept⟩

theorem serving_of_clears (hs : s.Proxied created) (hserving : s.manager.Serving k c i)
    (hd : c ≠ d) {answer : Except Fault (List SegmentId)} (hclears : Clears d s answer s') :
    s'.manager.Serving k c i := by
  obtain ⟨r, hcached, hrunning⟩ := hserving
  cases hclears with
  | refused hrefusal => exact ⟨r, hcached, hrunning⟩
  | deleted hdeployment hdeletes =>
      have hown := hs.remote
      rw [hdeployment] at hown
      cases hown
  | released hdeployment hdown =>
      rename_i workers s'
      refine ⟨r, ?_, ?_⟩
      · rw [cached?_forgetAll, if_neg hd, hdown.caches.cached?]
        exact hcached
      · have hdown' := hdown.running r.id
        rw [if_neg (hs.notMem_rowsOf hcached hd)] at hdown'
        exact hdown'.trans hrunning

theorem serving_before_getSegment (hs : s.Proxied created)
    (hserving : (s.getSegment d j).2.manager.Serving k c i) :
    s.manager.Serving k c i ∨
      (c = d ∧ k = j) ∧ s.manager.cached? k c = none ∧ (s.getSegment c k).1 = .ok i := by
  obtain ⟨r, hcached, hrunning⟩ := hserving
  rcases hs.toCoherent.cached_after_getSegment hcached with
    ⟨hbefore, hsame⟩ | ⟨rfl, rfl, habsent, -, i', hserved⟩
  · exact .inl ⟨r, hbefore, hsame.symm.trans hrunning⟩
  · obtain ⟨r', hcached', hrunning'⟩ :=
      (hs.toCoherent.looks (hs.looks_getSegment c k)).2 i' hserved
    obtain rfl : r' = r := Option.some.inj (hcached'.symm.trans hcached)
    obtain rfl : i' = i := Option.some.inj (hrunning'.symm.trans hrunning)
    exact .inr ⟨⟨rfl, rfl⟩, habsent, hserved⟩

theorem serving_before (hs : s.Proxied created) {e : Event W}
    (hserving : (s.after e).manager.Serving k c i) :
    s.manager.Serving k c i ∨
      ∃ q, e = .request q ∧ q.seeks? = some (c, k) ∧ s.manager.cached? k c = none ∧
        (s.getSegment c k).1 = .ok i := by
  cases e with
  | request q =>
      cases q with
      | get d j =>
          rcases hs.serving_before_getSegment hserving with hbefore | ⟨⟨rfl, rfl⟩, hfetched⟩
          · exact .inl hbefore
          · exact .inr ⟨.get c k, rfl, rfl, hfetched⟩
      | getNamed d name =>
          change (s.getSegmentNamed d name).2.manager.Serving k c i at hserving
          unfold getSegmentNamed at hserving
          cases hname : Capability.ofName? name with
          | none =>
              rw [hname] at hserving
              exact .inl hserving
          | some j =>
              rw [hname] at hserving
              rcases hs.serving_before_getSegment hserving with hbefore | ⟨⟨rfl, rfl⟩, hfetched⟩
              · exact .inl hbefore
              · exact .inr ⟨.getNamed c name, rfl, by simp [Request.seeks?, hname], hfetched⟩
      | hint d operation =>
          change (s.hint d operation).2.manager.Serving k c i at hserving
          rw [hs.hint_eq] at hserving
          exact .inl hserving
      | delete d =>
          obtain ⟨r, hcached, hrunning⟩ := hserving
          obtain ⟨hruns, hheld⟩ := (hs.clears_deleteSegments d).before
          exact .inl ⟨r, hheld k c r hcached, hruns r.id i hrunning⟩
      | start order => exact .inl hserving
      | stop order => exact .inl hserving
      | reset order =>
          obtain ⟨r, hcached, hrunning⟩ := hserving
          cases hrunning
  | regroup members =>
      obtain ⟨r, hcached, hrunning⟩ := hserving
      exact .inl ⟨r, (s.manager.cached?_withMembers members k c).symm.trans hcached,
        (s.manager.running?_withMembers members r.id).symm.trans hrunning⟩
  | enter rows => exact .inl hserving
  | withdraw c => exact .inl hserving
  | refuse text => exact .inl hserving
  | elapse change => exact .inl hserving

theorem serving_after (hs : s.Proxied created) (hserving : s.manager.Serving k c i)
    {e : Event W} (hdelete : e ≠ .request (.delete c))
    (hreset : ∀ order, e ≠ .request (.reset order)) : (s.after e).manager.Serving k c i := by
  cases e with
  | request q =>
      cases q with
      | get d j => exact (hs.grows_getSegment d j).serving hserving
      | getNamed d name =>
          change (s.getSegmentNamed d name).2.manager.Serving k c i
          unfold getSegmentNamed
          cases Capability.ofName? name with
          | none => exact hserving
          | some j => exact (hs.grows_getSegment d j).serving hserving
      | hint d operation =>
          change (s.hint d operation).2.manager.Serving k c i
          rw [hs.hint_eq]
          exact hserving
      | delete d =>
          refine hs.serving_of_clears hserving ?_ (hs.clears_deleteSegments d)
          rintro rfl
          exact hdelete rfl
      | start order => exact hserving
      | stop order => exact hserving
      | reset order => exact (hreset order rfl).elim
  | regroup members =>
      obtain ⟨r, hcached, hrunning⟩ := hserving
      exact ⟨r, (s.manager.cached?_withMembers members k c).trans hcached,
        (s.manager.running?_withMembers members r.id).trans hrunning⟩
  | enter rows => exact hserving
  | withdraw c => exact hserving
  | refuse text => exact hserving
  | elapse change => exact hserving

end Proxied

section Histories

variable {workers : Workers} {g : Registry} {w : W} {events : List (Event W)}

theorem proxied_replay (workers : Workers) (g : Registry) (w : W)
    (hids : Event.NeverShared events) :
    ((initial (.distributed workers g) w).replay events).Proxied (Event.created events) := by
  revert hids
  refine replay_induction (P := fun events s => Event.NeverShared events →
    s.Proxied (Event.created events)) ?_ ?_ events
  · intro hids
    refine ⟨coherent_initial (.distributed workers g) w, rfl, ?_, ?_⟩
    · intro k c r i hcached hrunning
      cases hrunning
    · intro segment i hrunning
      cases hrunning
  · intro events e ih hids
    rw [Event.created_concat]
    apply (ih hids.of_append).after
    rw [← Event.created_concat]
    exact hids

theorem serving_replay {later : List (Event W)} (hids : Event.NeverShared (events ++ later))
    (hserving : ((initial (.distributed workers g) w).replay events).manager.Serving k c i)
    (hdelete : .request (.delete c) ∉ later)
    (hreset : ∀ order, .request (.reset order) ∉ later) :
    ((initial (.distributed workers g) w).replay (events ++ later)).manager.Serving k c i := by
  induction later using List.reverseRecOn with
  | nil =>
      rw [List.append_nil]
      exact hserving
  | append_singleton later e ih =>
      simp only [List.mem_append, List.mem_singleton, not_or] at hdelete hreset
      rw [← List.append_assoc] at hids ⊢
      rw [replay_concat]
      exact (proxied_replay workers g w hids.of_append).serving_after
        (ih hids.of_append hdelete.1 fun order => (hreset order).1) (Ne.symm hdelete.2)
        fun order => Ne.symm (hreset order).2

theorem handle_of_seeks {q : Request} (hseeks : q.seeks? = some (c, k)) (s : System W) :
    s.handle q = reply .served (s.getSegment c k) := by
  cases q with
  | get d j =>
      cases hseeks
      rfl
  | getNamed d name =>
      obtain ⟨j, hname, hsame⟩ := Option.map_eq_some_iff.mp hseeks
      cases hsame
      simp only [System.handle, getSegmentNamed, hname]
  | hint d operation => cases hseeks
  | delete d => cases hseeks
  | start order => cases hseeks
  | stop order => cases hseeks
  | reset order => cases hseeks

theorem served_iff_of_seeks {q : Request} (hseeks : q.seeks? = some (c, k)) :
    (s.handle q).1 = .ok (.served i) ↔ (s.getSegment c k).1 = .ok i := by
  rw [handle_of_seeks hseeks]
  cases hanswer : (s.getSegment c k).1 with
  | error fault => simp [reply, hanswer, Except.map]
  | ok j => simp [reply, hanswer, Except.map]

/-- Whatever serves was made for a lookup of the history that had to fetch. -/
theorem fetched_of_serving (hids : Event.NeverShared events)
    (hserving : ((initial (.distributed workers g) w).replay events).manager.Serving k c i) :
    ∃ before q after, events = before ++ .request q :: after ∧ q.seeks? = some (c, k) ∧
      ((initial (.distributed workers g) w).replay before).manager.cached? k c = none ∧
      (((initial (.distributed workers g) w).replay before).getSegment c k).1 = .ok i := by
  induction events using List.reverseRecOn with
  | nil =>
      obtain ⟨r, hcached, hrunning⟩ := hserving
      cases hrunning
  | append_singleton events e ih =>
      rw [replay_concat] at hserving
      have hs := proxied_replay workers g w hids.of_append
      rcases hs.serving_before hserving with hbefore | ⟨q, rfl, hseeks, habsent, hserved⟩
      · obtain ⟨before, q, after, hsplit, hfetched⟩ := ih hids.of_append hbefore
        exact ⟨before, q, after ++ [e], by simp [hsplit], hfetched⟩
      · exact ⟨events, q, [], rfl, hseeks, habsent, hserved⟩

theorem addressed_of_served (hids : Event.NeverShared events)
    (habsent : ((initial (.distributed workers g) w).replay events).manager.cached? k c = none)
    (hserved : (((initial (.distributed workers g) w).replay events).getSegment c k).1 = .ok i) :
    Addressed workers g events c k i.record ∧
      i.serial = ((initial (.distributed workers g) w).replay events).site.built := by
  obtain ⟨hfetch, hserial⟩ := (proxied_replay workers g w hids).made_of_getSegment habsent hserved
  exact ⟨addressed_of_fetch hids hfetch, hserial⟩

/-- In every history of a manager of remote workers, whatever fails and however
the group changes:

* a cached record is the row of the catalog, as it was when a lookup fetched it,
  served from the member that owned the collection then, and the instance that
  runs its segment was made for that lookup and has that very record;
* what a lookup answers with it answers with again until the collection is
  deleted or all is reset;
* a lookup that has to fetch answers with a new instance, for the row and the
  members of that moment;
* a deletion names all rows, asks what runs of them to stop, once each and
  whatever comes of it, and leaves nothing of the collection; and a reset leaves
  nothing at all. -/
theorem proxies_keep_their_endpoints (workers : Workers) (g : Registry) (w : W)
    (hids : Event.NeverShared events) :
    let start := initial (.distributed workers g) w
    let s := start.replay events
    (∀ k c r, s.manager.cached? k c = some r →
      ∃ i before q after, s.manager.running? r.id = some i ∧ i.record = r ∧
        events = before ++ .request q :: after ∧ q.seeks? = some (c, k) ∧
        (start.replay before).manager.cached? k c = none ∧
        ((start.replay before).handle q).1 = .ok (.served i) ∧
        Addressed workers g before c k r) ∧
    (∀ before q between q' after c k i,
      events = before ++ .request q :: (between ++ .request q' :: after) →
      q.seeks? = some (c, k) → q'.seeks? = some (c, k) →
      .request (.delete c) ∉ between → (∀ order, .request (.reset order) ∉ between) →
      ((start.replay before).handle q).1 = .ok (.served i) →
      ((start.replay (before ++ .request q :: between)).handle q').1 = .ok (.served i)) ∧
    (∀ before q after c k i, events = before ++ .request q :: after →
      q.seeks? = some (c, k) → (start.replay before).manager.cached? k c = none →
      ((start.replay before).handle q).1 = .ok (.served i) →
      Addressed workers g before c k i.record ∧ i.serial = (start.replay before).site.built) ∧
    (∀ c, s.catalog.refusal = none →
      let ids := (s.catalog.rowsOf c).map (·.id)
      (s.deleteSegments c).1 = .ok ids ∧
        Cleared c ids (Site.asks .stop (s.targets ids) s.site) (s.targets ids).length
          s (s.deleteSegments c).2) ∧
    ∀ order k c, (s.reset order).2.manager.cached? k c = none := by
  intro start s
  have hs : s.Proxied (Event.created events) := proxied_replay workers g w hids
  refine ⟨?_, ?_, ?_, ?_, fun order k c => cached?_reset order k c s⟩
  · intro k c r hcached
    obtain ⟨i, hrunning⟩ := (hs.manager.cached k c r hcached).2
    have hrecord := hs.matched k c r i hcached hrunning
    obtain ⟨before, q, after, hsplit, hseeks, habsent, hserved⟩ :=
      fetched_of_serving hids ⟨r, hcached, hrunning⟩
    have hids' : Event.NeverShared before := by
      rw [hsplit] at hids
      exact hids.of_append
    have haddressed := (addressed_of_served hids' habsent hserved).1
    rw [hrecord] at haddressed
    exact ⟨i, before, q, after, hrunning, hrecord, hsplit, hseeks, habsent,
      (served_iff_of_seeks hseeks).mpr hserved, haddressed⟩
  · intro before q between q' after c k i hsplit hseeks hseeks' hdelete hreset hserved
    rw [served_iff_of_seeks hseeks] at hserved
    rw [served_iff_of_seeks hseeks']
    have hcut : events = (before ++ [.request q]) ++ between ++ .request q' :: after := by
      simp [hsplit]
    rw [hcut] at hids
    have hfirst := proxied_replay workers g w hids.of_append.of_append.of_append
    have hserving := (hfirst.toCoherent.looks (hfirst.looks_getSegment c k)).2 i hserved
    have hhandled : (start.replay (before ++ [.request q])).manager.Serving k c i := by
      rw [replay_concat]
      change ((start.replay before).handle q).2.manager.Serving k c i
      rw [handle_of_seeks hseeks]
      exact hserving
    obtain ⟨r, hcached, hrunning⟩ := serving_replay hids.of_append hhandled hdelete hreset
    rw [List.append_assoc, List.singleton_append] at hcached hrunning
    rw [getSegment_of_cached hcached hrunning]
  · rintro before q after c k i rfl hseeks habsent hserved
    exact addressed_of_served hids.of_append habsent ((served_iff_of_seeks hseeks).mp hserved)
  · intro c hserves ids
    have hclears := hs.clears_deleteSegments c
    generalize (s.deleteSegments c).1 = answer, (s.deleteSegments c).2 = s' at hclears ⊢
    cases hclears with
    | refused hrefusal =>
        rw [hserves] at hrefusal
        cases hrefusal
    | deleted hdeployment hdeletes =>
        have hown := hs.remote
        rw [hdeployment] at hown
        cases hown
    | released hdeployment hdown =>
        refine ⟨rfl, hs.toCoherent.cleared hdown (fun segment hmem => hmem) ?_⟩
        rw [hdown.site]
        exact Site.journal_performAll .stop (s.targets ids) s.site

end Histories

def soleWorker (member : String) : Workers := ⟨[member], Workers.defaultPort⟩

def remoteVectors : Record :=
  ⟨numberedSegment 0 .vector, .hnswRemote, .vector, (numberedCollection 0).id, none⟩

/-- Vectors are asked for before and after their worker is replaced, and again
once they were deleted. -/
def relocated : List (Event World) :=
  [.enter [remoteVectors], .request (.get remoteVectors.collection .vectorReader),
    .regroup ["second"], .request (.getNamed remoteVectors.collection "VectorReader"),
    .request (.delete remoteVectors.collection),
    .request (.get remoteVectors.collection .vectorReader)]

def proxyMade (serial : Nat) (member : String) : Instance :=
  ⟨serial, remoteVectors.servedBy member Workers.defaultPort, ⟨false, false, true⟩⟩

theorem relocated_vectors_move_once_deleted :
    let start := initial (.distributed (soleWorker "first") keeperRegistry) keeperWorld
    let c := remoteVectors.collection
    Event.NeverShared relocated ∧
    ((start.replay (relocated.take 1)).handle (.get c .vectorReader)).1 =
      .ok (.served (proxyMade 0 "first")) ∧
    ((start.replay (relocated.take 3)).handle (.getNamed c "VectorReader")).1 =
      .ok (.served (proxyMade 0 "first")) ∧
    ((start.replay (relocated.take 5)).handle (.get c .vectorReader)).1 =
      .ok (.served (proxyMade 1 "second")) ∧
    Addressed (soleWorker "first") keeperRegistry (relocated.take 5) c .vectorReader
      (proxyMade 1 "second").record := by
  intro start c
  have hids : Event.NeverShared relocated := by decide +kernel
  have hserved : ((start.replay (relocated.take 1)).handle (.get c .vectorReader)).1 =
      .ok (.served (proxyMade 0 "first")) := by decide +kernel
  have hserved' : ((start.replay (relocated.take 5)).handle (.get c .vectorReader)).1 =
      .ok (.served (proxyMade 1 "second")) := by decide +kernel
  have habsent : (start.replay (relocated.take 5)).manager.cached? .vectorReader c = none := by
    decide +kernel
  obtain ⟨-, hsame, hfetched, -⟩ := proxies_keep_their_endpoints (soleWorker "first")
    keeperRegistry keeperWorld hids
  refine ⟨hids, hserved, ?_, hserved', ?_⟩
  · exact hsame (relocated.take 1) _ [.regroup ["second"]] (.getNamed c "VectorReader")
      (relocated.drop 4) c .vectorReader _ rfl rfl (by decide) (by simp) (by simp) hserved
  · exact (hfetched (relocated.take 5) (.get c .vectorReader) [] c .vectorReader _ rfl rfl
      habsent hserved').1

end System

end SegmentManager
