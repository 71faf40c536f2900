import SegmentManager.Proofs.System.Failure
import SegmentManager.Proofs.System.Lifecycle
import SegmentManager.Proofs.System.Selection

/-!
# Evictions are transparent

What a manager evicts it loads again when it is asked for it.  As long as no
call fails, the catalog serves all reads, and rows leave it only right after
their collection was deleted, every answer is what the catalog promises, whatever
limits the manager was given.
-/

namespace SegmentManager

open Simulation

/-! ## What a catalog promises -/

/-- What a caller sees of a reply: of an instance, the record that it serves. -/
inductive Sight
  | record (r : Record)
  | deleted (segments : List SegmentId)
  | done
deriving DecidableEq, Repr

def Reply.sight : Reply → Sight
  | served i => .record i.record
  | deleted segments => .deleted segments
  | done => .done

theorem Reply.sight_served (answer : Except Fault Instance) :
    (answer.map served).map sight = (answer.map (·.record)).map Sight.record := by
  cases answer <;> rfl

def Request.seeks? : Request → Option (CollectionId × Capability)
  | get c k => some (c, k)
  | getNamed c name => (Capability.ofName? name).map (c, ·)
  | _ => none

def Registry.promised (g : Registry) (rows : List Record) : Request → Except Fault Sight
  | .get c k => (g.sought rows c k.scope).map .record
  | .getNamed c name =>
      match Capability.ofName? name with
      | some k => (g.sought rows c k.scope).map .record
      | none => .error (.invalidCapability name)
  | .hint c _ =>
      (g.sought rows c Capability.metadataReader.scope).bind fun _ =>
        (g.sought rows c Capability.vectorReader.scope).map fun _ => .done
  | .delete c => .ok (.deleted ((rows.filter fun r => r.collection = c).map (·.id)))
  | .start _ | .stop _ | .reset _ => .ok .done

namespace Event

variable {W : Type}

def rewrite (rows : List Record) : Event W → List Record
  | enter new => rows ++ new
  | withdraw c => rows.filter fun r => r.collection ≠ c
  | _ => rows

/-- The catalog serves every read, and rows leave it only right after their
collection was deleted. -/
structure Orderly (events : List (Event W)) : Prop where
  serving : ∀ text, .refuse (some text) ∉ events
  deleted : ∀ before c after, events = before ++ .withdraw c :: after →
    ∃ earlier, before = earlier ++ [.request (.delete c)]

theorem Orderly.of_append {events later : List (Event W)} (h : Orderly (events ++ later)) :
    Orderly events := by
  refine ⟨?_, ?_⟩
  · intro text hmem
    exact h.serving text (List.mem_append_left later hmem)
  · rintro before c after rfl
    exact h.deleted before c (after ++ later) (by simp)

theorem Orderly.append {events later : List (Event W)} (h : Orderly events)
    (h' : Orderly later) : Orderly (events ++ later) := by
  refine ⟨?_, ?_⟩
  · intro text hmem
    exact (List.mem_append.mp hmem).elim (h.serving text) (h'.serving text)
  · intro before c after hsplit
    rcases List.append_eq_append_iff.mp hsplit with ⟨between, rfl, hlater⟩ |
      ⟨between, hevents, hlater⟩
    · obtain ⟨earlier, rfl⟩ := h'.deleted between c after hlater
      exact ⟨events ++ earlier, (List.append_assoc ..).symm⟩
    · cases between with
      | nil =>
          obtain ⟨earlier, hempty⟩ := h'.deleted [] c after hlater.symm
          simp at hempty
      | cons e rest =>
          obtain ⟨rfl, -⟩ := List.cons.inj hlater
          exact h.deleted before c rest hevents

theorem orderly_of_forall {events : List (Event W)}
    (hplain : ∀ e ∈ events, (∀ text, e ≠ .refuse (some text)) ∧ ∀ c, e ≠ .withdraw c) :
    Orderly events := by
  refine ⟨fun text hmem => (hplain _ hmem).1 text rfl, ?_⟩
  rintro before c after rfl
  exact ((hplain (.withdraw c) (by simp)).2 c rfl).elim

theorem orderly_deletion (c : CollectionId) :
    Orderly [(.request (.delete c) : Event W), .withdraw c] := by
  refine ⟨by simp, ?_⟩
  intro before d after hsplit
  match before with
  | [] => simp at hsplit
  | [e] =>
      simp only [List.cons_append, List.nil_append, List.cons.injEq, Event.withdraw.injEq] at hsplit
      obtain ⟨rfl, rfl, -⟩ := hsplit
      exact ⟨[], rfl⟩
  | e :: e' :: rest =>
      have hlength := congrArg List.length hsplit
      simp at hlength

theorem Orderly.notMem_withdraw {before between after : List (Event W)} {q : Request}
    {c : CollectionId} (h : Orderly (before ++ .request q :: (between ++ after)))
    (hq : q ≠ .delete c) (hstays : .request (.delete c) ∉ between) :
    .withdraw c ∉ (.request q :: between : List (Event W)) := by
  intro hmem
  rcases List.mem_cons.mp hmem with heq | hmem
  · cases heq
  · obtain ⟨earlier, later, rfl⟩ := List.append_of_mem hmem
    obtain ⟨first, hlast⟩ := h.deleted (before ++ .request q :: earlier) c (later ++ after)
      (by simp)
    rcases List.eq_nil_or_concat earlier with rfl | ⟨rest, e, rfl⟩
    · obtain ⟨-, hdelete⟩ := List.append_inj' hlast rfl
      cases hdelete
      exact hq rfl
    · rw [List.concat_eq_append, ← List.cons_append, ← List.append_assoc] at hlast
      obtain ⟨-, hdelete⟩ := List.append_inj' hlast rfl
      obtain rfl := List.singleton_inj.mp hdelete
      exact hstays (by simp)

/-- Without a withdrawal the row that serves a lookup stays the same. -/
theorem first?_rewrite {g : Registry} {c : CollectionId} {scope : Scope} {r : Record}
    {events : List (Event W)} (hstays : .withdraw c ∉ events) {rows : List Record}
    (hfirst : g.first? rows c scope = some r) :
    g.first? (events.foldl rewrite rows) c scope = some r := by
  induction events generalizing rows with
  | nil => exact hfirst
  | cons e rest ih =>
      obtain ⟨hne, hrest⟩ := not_or.mp fun h => hstays (List.mem_cons.mpr h)
      apply ih hrest
      cases e with
      | enter new => exact Registry.first?_append hfirst new
      | withdraw d =>
          refine (Registry.first?_filter ?_).trans hfirst
          rintro row rfl
          simpa using fun heq : row.collection = d => hne (congrArg _ heq)
      | request q => exact hfirst
      | refuse text => exact hfirst
      | regroup members => exact hfirst
      | elapse change => exact hfirst

end Event

namespace System

variable {W : Type} [Backend W]

/-- A manager in its own process whose caches hold what the catalog would serve. -/
structure Faithful (created : List Record) (settings : Settings) (s : System W) : Prop
    extends Coherent created s where
  ownProcess : s.manager.deployment = .inProcess settings
  serving : s.catalog.refusal = none
  cached : ∀ k c r, s.manager.cached? k c = some r →
    s.manager.kinds.first? s.catalog.rows c k.scope = some r

structure Proceeds (created : List Record) (settings : Settings) (s s' : System W) : Prop where
  faithful : s'.Faithful created settings
  kinds : s'.manager.kinds = s.manager.kinds
  rows : s'.catalog.rows = s.catalog.rows
  succeeded : s'.site.journal.all Call.succeeded = true →
    s.site.journal.all Call.succeeded = true

variable {created : List Record} {settings : Settings} {s s' : System W} {c : CollectionId}
  {k : Capability}

/-! ## Calls that succeed -/

omit [Backend W] in
theorem succeeded_of_journal {calls : List Call}
    (hjournal : s'.site.journal = calls.reverse ++ s.site.journal)
    (hall : s'.site.journal.all Call.succeeded = true) :
    calls.all Call.succeeded = true ∧ s.site.journal.all Call.succeeded = true := by
  rw [hjournal, List.all_append, List.all_reverse] at hall
  exact Bool.and_eq_true_iff.mp hall

theorem performAll_of_succeeded {action : Action} {targets : List Instance} {site : Site W}
    (hall : (site.performAll action targets).2.journal.all Call.succeeded = true) :
    (site.performAll action targets).1 = .ok () := by
  induction targets generalizing site with
  | nil => rfl
  | cons i rest ih =>
      have hlater := hall
      rw [Site.performAll_cons_snd] at hlater
      rw [Site.performAll_cons_ok_iff]
      refine ⟨?_, ih hlater⟩
      rw [Site.journal_performAll, List.all_append, Site.journal_perform, List.all_cons] at hlater
      cases hperform : (site.perform action i).1 with
      | ok done => rfl
      | error fault => simp [hperform, Call.succeeded, Except.isOk, Except.toBool] at hlater

namespace Faithful

omit [Backend W] in
theorem first?_of_selects (hs : s.Faithful created settings) {r : Record}
    (hselects : s.Selects k c r) : s.manager.kinds.first? s.catalog.rows c k.scope = some r := by
  obtain ⟨row, hfirst, hcomplete⟩ := hselects
  rw [Manager.complete_of_inProcess hs.ownProcess] at hcomplete
  rwa [← Except.ok.inj hcomplete]

omit [Backend W] in
theorem proceeds (hs : s.Faithful created settings) (hcoherent : s'.Coherent created)
    (hsetup : Manager.SameSetup s.manager s'.manager)
    (hcontents : s.catalog.SameContents s'.catalog) {own : Bool} {q : Request}
    (haccounts : Accounts own q s s')
    (hcached : ∀ k c r, s'.manager.cached? k c = some r →
      s.manager.cached? k c = some r ∨ s.Selects k c r) :
    Proceeds created settings s s' := by
  refine ⟨⟨hcoherent, hsetup.deployment.trans hs.ownProcess,
    hcontents.refusal.trans hs.serving, ?_⟩, hsetup.kinds, hcontents.rows, ?_⟩
  · intro k c r hheld
    rw [hsetup.kinds, hcontents.rows]
    rcases hcached k c r hheld with hbefore | hselects
    · exact hs.cached k c r hbefore
    · exact hs.first?_of_selects hselects
  · obtain ⟨calls, hjournal, -⟩ := haccounts
    exact fun hall => (succeeded_of_journal hjournal hall).2

/-! ## Lookups -/

theorem getSegment (hs : s.Faithful created settings) (c : CollectionId) (k : Capability) :
    Proceeds created settings s (s.getSegment c k).2 := by
  have hlook := hs.looks_getSegment c k
  exact hs.proceeds (hs.toCoherent.getSegment c k) hlook.sameSetup hlook.contents
    (hs.accounts_looks (q := .get c k) rfl trivial hlook)
    fun _ _ _ => hs.held_after_getSegment

theorem answer_getSegment (hs : s.Faithful created settings)
    (hall : (s.getSegment c k).2.site.journal.all Call.succeeded = true) :
    (s.getSegment c k).1.map (·.record) = s.manager.kinds.sought s.catalog.rows c k.scope := by
  have hproceeds := hs.getSegment c k
  cases hanswer : (s.getSegment c k).1 with
  | ok i =>
      obtain ⟨r, hcached, hrunning⟩ := (hs.toCoherent.looks (hs.looks_getSegment c k)).2 i hanswer
      have hs' := hproceeds.faithful
      have hadmits := (hs'.manager.cached k c r hcached).1
      have hfirst := hs'.cached k c r hcached
      rw [hproceeds.kinds, hproceeds.rows] at hfirst
      rw [Registry.sought, hfirst, ← hs'.record_of_running hs'.ownProcess hadmits hrunning]
      rfl
  | error fault =>
      cases hcached : s.manager.cached? k c with
      | some r =>
          obtain ⟨i, hrunning⟩ := (hs.manager.cached k c r hcached).2
          rw [getSegment_of_cached hcached hrunning] at hanswer
          cases hanswer
      | none =>
          rw [getSegment_of_absent hcached] at hanswer hall
          cases hload : s.load c k with
          | mk answer next =>
              rw [hload] at hanswer hall
              cases answer with
              | ok loaded => cases hanswer
              | error refusal =>
                  obtain rfl : refusal = fault := by simpa using hanswer
                  obtain ⟨-, -, calls, hfails, hjournal⟩ := fails_load hs.filtering hcached hload
                  have hcalls := (succeeded_of_journal hjournal hall).1
                  -- Where reads are served and calls succeed, only a missing row is left.
                  cases hfails with
                  | refused hrefusal =>
                      rw [hs.serving] at hrefusal
                      cases hrefusal
                  | notFound hserves hnone =>
                      rw [Registry.sought, Registry.first?_eq_none]
                      · rfl
                      · intro row hrow hcollection
                        exact hnone row (List.mem_filter.mpr ⟨hrow, by simpa using hcollection⟩)
                  | unreachable hrow hcomplete =>
                      rw [Manager.complete_of_inProcess hs.ownProcess] at hcomplete
                      cases hcomplete
                  | unbuilt hadmits hbuild => cases hcalls
                  | unstarted hadmits hrecord hserial hbuild hstart => cases hcalls

/-! ## Hints -/

theorem trackIndex (hs : s.Faithful created settings) {i : Instance}
    (hserving : s.manager.Serving .vectorReader c i) :
    Proceeds created settings s (s.trackIndex c i).2 := by
  have htracks := tracks_trackIndex c i s
  generalize (s.trackIndex c i).1 = answer, (s.trackIndex c i).2 = s' at htracks ⊢
  have haccounts : Accounts true (.hint c .add) s s' :=
    hs.accounts_tracks hserving htracks c .add
  apply hs.proceeds (hs.toCoherent.tracks hserving htracks) htracks.sameSetup htracks.contents
    haccounts
  intro k d r hheld
  cases htracks <;> exact .inl hheld

theorem answer_trackIndex {i : Instance}
    (hall : (s.trackIndex c i).2.site.journal.all Call.succeeded = true) :
    (s.trackIndex c i).1 = .ok () := by
  have htracks := tracks_trackIndex c i s
  generalize (s.trackIndex c i).1 = answer, (s.trackIndex c i).2 = s' at htracks hall ⊢
  cases htracks with
  | skipped => rfl
  | tracked hbefore hpersistent hperform => rfl
  | refused hpersistent hperform =>
      have hjournal : (s.perform .openIndex i).2.site.journal =
          .act .openIndex i false :: s.site.journal := by
        change (s.site.perform .openIndex i).2.journal = _
        rw [Site.journal_perform, hperform]
        rfl
      rw [hjournal] at hall
      cases hall

theorem answer_hint (hs : s.Faithful created settings) (c : CollectionId) (operation : Operation)
    (hall : (s.hint c operation).2.site.journal.all Call.succeeded = true) :
    (s.hint c operation).1 =
      (s.manager.kinds.sought s.catalog.rows c Capability.metadataReader.scope).bind fun _ =>
        (s.manager.kinds.sought s.catalog.rows c Capability.vectorReader.scope).map
          fun _ => () := by
  have hfirst := hs.getSegment c .metadataReader
  have hanswer := hs.answer_getSegment (c := c) (k := .metadataReader)
  unfold System.hint at hall ⊢
  rw [hs.ownProcess] at hall ⊢
  simp only at hall ⊢
  cases hmetadata : s.getSegment c .metadataReader with
  | mk answer next =>
      rw [hmetadata] at hfirst hanswer hall
      cases answer with
      | error fault =>
          rw [← hanswer hall]
          rfl
      | ok i =>
          have hsecond := hfirst.faithful.getSegment c .vectorReader
          have hanswer' := hfirst.faithful.answer_getSegment (c := c) (k := .vectorReader)
          have hserving := (hfirst.faithful.toCoherent.looks
            (hfirst.faithful.looks_getSegment c .vectorReader)).2
          rw [hfirst.kinds, hfirst.rows] at hanswer'
          simp only at hall ⊢
          cases hvectors : next.getSegment c .vectorReader with
          | mk answer last =>
              rw [hvectors] at hsecond hanswer' hserving hall
              cases answer with
              | error fault =>
                  rw [← hanswer (hsecond.succeeded hall), ← hanswer' hall]
                  rfl
              | ok j =>
                  have htracked := hsecond.faithful.trackIndex (hserving j rfl)
                  have hall' := htracked.succeeded hall
                  rw [← hanswer (hsecond.succeeded hall'), ← hanswer' hall']
                  exact answer_trackIndex hall

/-! ## Requests -/

theorem deleteSegments (hs : s.Faithful created settings) (c : CollectionId) :
    (∀ k, (s.deleteSegments c).2.manager.cached? k c = none) ∧
    ((s.deleteSegments c).2.site.journal.all Call.succeeded = true →
      (s.deleteSegments c).1 = .ok ((s.catalog.rowsOf c).map (·.id))) := by
  have hclears := hs.clears_deleteSegments c
  generalize (s.deleteSegments c).1 = answer, (s.deleteSegments c).2 = s' at hclears ⊢
  have hforgotten : ∀ (s₁ : System W) k, (s₁.forgetAll c).manager.cached? k c = none := by
    intro s₁ k
    rw [cached?_forgetAll, if_pos rfl]
  cases hclears with
  | refused hrefusal =>
      rw [hs.serving] at hrefusal
      cases hrefusal
  | released hdistributed hdown =>
      rw [hs.ownProcess] at hdistributed
      cases hdistributed
  | deleted hsame hdeletes =>
      cases hdeletes with
      | complete hok hdown => exact ⟨hforgotten _, fun _ => rfl⟩
      | broken hsplit hrunning hok hfails hdown =>
          refine ⟨hforgotten _, fun hall => ?_⟩
          have hjournal := congrArg Site.journal hdown.site
          rw [Site.journal_performAll_concat hok hfails] at hjournal
          have hcalls := (succeeded_of_journal hjournal hall).1
          simp [Call.succeeded] at hcalls

theorem proceeds_handle (hs : s.Faithful created settings) (q : Request) :
    Proceeds created settings s (s.handle q).2 :=
  hs.proceeds (hs.toCoherent.handle q) (hs.sameSetup_handle q) (hs.contents_handle q)
    (hs.accounts_handle rfl q) fun _ _ _ => hs.held_after_handle q

theorem answer_handle (hs : s.Faithful created settings) (q : Request)
    (hall : (s.handle q).2.site.journal.all Call.succeeded = true) :
    (s.handle q).1.map Reply.sight = s.manager.kinds.promised s.catalog.rows q := by
  have hlookup : ∀ c k, (s.getSegment c k).2.site.journal.all Call.succeeded = true →
      ((s.getSegment c k).1.map Reply.served).map Reply.sight =
        (s.manager.kinds.sought s.catalog.rows c k.scope).map .record := by
    intro c k hall
    rw [Reply.sight_served, hs.answer_getSegment hall]
  cases q with
  | get c k => exact hlookup c k hall
  | getNamed c name =>
      simp only [System.handle, reply, getSegmentNamed, Registry.promised] at hall ⊢
      cases hname : Capability.ofName? name with
      | none => rfl
      | some k =>
          rw [hname] at hall
          exact hlookup c k hall
  | hint c operation =>
      simp only [System.handle, reply, Registry.promised, hs.answer_hint c operation hall]
      cases s.manager.kinds.sought s.catalog.rows c Capability.metadataReader.scope with
      | error fault => rfl
      | ok r => cases s.manager.kinds.sought s.catalog.rows c Capability.vectorReader.scope <;> rfl
  | delete c =>
      simp only [System.handle, reply, (hs.deleteSegments c).2 hall]
      rfl
  | start order =>
      have hok : (s.startAll order).1 = .ok () := performAll_of_succeeded hall
      simp only [System.handle, reply, hok]
      rfl
  | stop order =>
      have hok : (s.stopAll order).1 = .ok () := performAll_of_succeeded hall
      simp only [System.handle, reply, hok]
      rfl
  | reset order =>
      have hok : (s.reset order).1 = .ok () := performAll_of_succeeded hall
      simp only [System.handle, reply, hok]
      rfl

end Faithful

/-! ## Histories -/

theorem Faithful.after (hs : s.Faithful created settings) {e : Event W}
    (hids : ((created ++ e.entered).map (·.id)).Nodup) (hserving : ∀ text, e ≠ .refuse (some text))
    (hwithdraw : ∀ c, e = .withdraw c → ∀ k, s.manager.cached? k c = none) :
    (s.after e).Faithful (created ++ e.entered) settings ∧
      (s.after e).manager.kinds = s.manager.kinds ∧
      (s.after e).catalog.rows = e.rewrite s.catalog.rows := by
  have hcoherent := hs.toCoherent.after e hids
  cases e with
  | request q =>
      have hproceeds := hs.proceeds_handle q
      have hfaithful := hproceeds.faithful
      exact ⟨⟨hcoherent, hfaithful.ownProcess, hfaithful.serving, hfaithful.cached⟩,
        hproceeds.kinds, hproceeds.rows⟩
  | enter rows =>
      refine ⟨⟨hcoherent, hs.ownProcess, hs.serving, ?_⟩, rfl, rfl⟩
      intro k c r hheld
      exact Registry.first?_append (hs.cached k c r hheld) rows
  | withdraw c =>
      refine ⟨⟨hcoherent, hs.ownProcess, hs.serving, ?_⟩, rfl, rfl⟩
      intro k d r hheld
      have hother : d ≠ c := by
        rintro rfl
        have hnone : (s.after (.withdraw d)).manager.cached? k d = none := hwithdraw d rfl k
        rw [hnone] at hheld
        cases hheld
      refine (Registry.first?_filter ?_).trans (hs.cached k d r hheld)
      rintro row rfl
      exact decide_eq_true hother
  | refuse text =>
      cases text with
      | none => exact ⟨⟨hcoherent, hs.ownProcess, rfl, hs.cached⟩, rfl, rfl⟩
      | some text => exact (hserving text rfl).elim
  | regroup members =>
      have hsame := Manager.withMembers_of_inProcess hs.ownProcess members
      refine ⟨⟨hcoherent, ?_, hs.serving, ?_⟩, congrArg Manager.kinds hsame, rfl⟩
      · exact (congrArg Manager.deployment hsame).trans hs.ownProcess
      · intro k c r hheld
        simp only [System.after, hsame] at hheld ⊢
        exact hs.cached k c r hheld
  | elapse change => exact ⟨⟨hcoherent, hs.ownProcess, hs.serving, hs.cached⟩, rfl, rfl⟩

variable {g : Registry} {m : Manager}

omit [Backend W] in
theorem faithful_initial (hm : Manager.inProcess settings g = .ok m) (w : W) :
    (initial m w).Faithful [] settings ∧ m.kinds = Manager.inProcessKinds g := by
  have hcoherent := coherent_initial (.inProcess hm) w
  have hnone : ∀ k c, m.cached? k c = none := by
    intro k c
    cases hcached : m.cached? k c with
    | none => rfl
    | some r =>
        obtain ⟨row, hrow, -⟩ := (hcoherent.manager.cached k c r hcached).1.served
        cases hrow
  obtain ⟨openIndexes, hdefined, -⟩ := Manager.inProcess_eq_ok hm
  have hdeployment : m.deployment = .inProcess settings := by rw [hdefined]
  have hkinds : m.kinds = Manager.inProcessKinds g := by rw [hdefined]
  refine ⟨⟨hcoherent, hdeployment, rfl, ?_⟩, hkinds⟩
  intro k c r hheld
  cases (hnone k c).symm.trans hheld

theorem faithful_replay (hm : Manager.inProcess settings g = .ok m) (w : W)
    {events : List (Event W)} (hids : Event.NeverShared events)
    (horderly : Event.Orderly events) :
    ((initial m w).replay events).Faithful (Event.created events) settings ∧
      ((initial m w).replay events).manager.kinds = Manager.inProcessKinds g ∧
      ((initial m w).replay events).catalog.rows = events.foldl Event.rewrite [] := by
  -- A withdrawal needs that the deletion before it emptied the caches, so that goes along.
  suffices hall : (((initial m w).replay events).Faithful (Event.created events) settings ∧
      ((initial m w).replay events).manager.kinds = Manager.inProcessKinds g ∧
      ((initial m w).replay events).catalog.rows = events.foldl Event.rewrite []) ∧
      ∀ earlier c, events = earlier ++ [.request (.delete c)] →
        ∀ k, ((initial m w).replay events).manager.cached? k c = none from hall.1
  revert hids horderly
  refine replay_induction (P := fun events s => Event.NeverShared events → Event.Orderly events →
    (s.Faithful (Event.created events) settings ∧
      s.manager.kinds = Manager.inProcessKinds g ∧
      s.catalog.rows = events.foldl Event.rewrite []) ∧
    ∀ earlier c, events = earlier ++ [.request (.delete c)] →
      ∀ k, s.manager.cached? k c = none) ?_ ?_ events
  · intro hids horderly
    obtain ⟨hfaithful, hkinds⟩ := faithful_initial hm w
    refine ⟨⟨hfaithful, hkinds, rfl⟩, ?_⟩
    intro earlier c hlast
    simp at hlast
  · intro events e ih hids horderly
    obtain ⟨⟨hfaithful, hkinds, hrows⟩, hcleared⟩ := ih hids.of_append horderly.of_append
    have hstep := hfaithful.after (e := e) (by rw [← Event.created_concat]; exact hids)
      (fun text heq => horderly.serving text (by simp [heq])) (by
        rintro c rfl
        obtain ⟨earlier, hlast⟩ := horderly.deleted events c [] rfl
        exact hcleared earlier c hlast)
    rw [Event.created_concat, List.foldl_concat, ← hrows]
    refine ⟨⟨hstep.1, hstep.2.1.trans hkinds, hstep.2.2⟩, ?_⟩
    intro earlier c hlast
    obtain ⟨rfl, hdeleted⟩ := List.append_inj' hlast rfl
    obtain rfl := List.singleton_inj.mp hdeleted
    exact (hfaithful.deleteSegments c).1

theorem succeeded_of_append (hm : m.Fresh) {w : W} {events later : List (Event W)}
    (hids : Event.NeverShared (events ++ later))
    (hall : ((initial m w).replay (events ++ later)).site.journal.all Call.succeeded = true) :
    ((initial m w).replay events).site.journal.all Call.succeeded = true := by
  obtain ⟨-, hjournal, -⟩ := ledger_replay hm w hids.of_append
  obtain ⟨-, hjournal', -⟩ := ledger_replay hm w hids
  rw [hjournal', trace_append, List.map_append, List.reverse_append, List.all_append,
    Bool.and_eq_true] at hall
  rw [hjournal]
  exact hall.2

theorem answer_replay (hm : Manager.inProcess settings g = .ok m) (w : W)
    {events before after : List (Event W)} {q : Request} (hids : Event.NeverShared events)
    (horderly : Event.Orderly events)
    (hall : ((initial m w).replay events).site.journal.all Call.succeeded = true)
    (hsplit : events = before ++ .request q :: after) :
    (((initial m w).replay before).handle q).1.map Reply.sight =
      (Manager.inProcessKinds g).promised (before.foldl Event.rewrite []) q := by
  subst hsplit
  obtain ⟨hfaithful, hkinds, hrows⟩ := faithful_replay hm w hids.of_append horderly.of_append
  rw [List.append_cons] at hids hall
  have hbefore := succeeded_of_append (.inProcess hm) hids hall
  rw [replay_concat] at hbefore
  rw [← hkinds, ← hrows]
  exact hfaithful.answer_handle q hbefore

theorem first?_of_served (hm : Manager.inProcess settings g = .ok m) (w : W)
    {events before after : List (Event W)} {q : Request} (hids : Event.NeverShared events)
    (horderly : Event.Orderly events)
    (hall : ((initial m w).replay events).site.journal.all Call.succeeded = true)
    (hsplit : events = before ++ .request q :: after) (hseeks : q.seeks? = some (c, k))
    {i : Instance} (hserved : (((initial m w).replay before).handle q).1 = .ok (.served i)) :
    (Manager.inProcessKinds g).first? (before.foldl Event.rewrite []) c k.scope =
      some i.record := by
  have hanswer := answer_replay hm w hids horderly hall hsplit
  rw [hserved] at hanswer
  have hpromised : (Manager.inProcessKinds g).promised (before.foldl Event.rewrite []) q =
      ((Manager.inProcessKinds g).sought (before.foldl Event.rewrite []) c k.scope).map
        .record := by
    cases q with
    | get d j =>
        cases hseeks
        rfl
    | getNamed d name =>
        obtain ⟨j, hname, hsame⟩ := Option.map_eq_some_iff.mp hseeks
        cases hsame
        simp only [Registry.promised, hname]
    | hint d operation => cases hseeks
    | delete d => cases hseeks
    | start order => cases hseeks
    | stop order => cases hseeks
    | reset order => cases hseeks
  rw [hpromised, Registry.sought] at hanswer
  cases hfirst : (Manager.inProcessKinds g).first? (before.foldl Event.rewrite []) c k.scope with
  | none =>
      rw [hfirst] at hanswer
      cases hanswer
  | some r =>
      rw [hfirst] at hanswer
      cases hanswer
      rfl

/-- Two managers over one catalog whose settings may differ, so that each evicts
in its own way, answer every request alike as long as no call fails: with the
same fault, the same deleted segments, or an instance of the same record.  A
lookup that succeeds answers with the first row that fits, and with the same one
until the collection is deleted. -/
theorem eviction_is_transparent {settings settings' : Settings} {g : Registry} {m m' : Manager}
    (hm : Manager.inProcess settings g = .ok m) (hm' : Manager.inProcess settings' g = .ok m')
    (w w' : W) {events : List (Event W)} (hids : Event.NeverShared events)
    (horderly : Event.Orderly events)
    (hall : ((initial m w).replay events).site.journal.all Call.succeeded = true)
    (hall' : ((initial m' w').replay events).site.journal.all Call.succeeded = true) :
    (∀ before q after, events = before ++ .request q :: after →
      (((initial m w).replay before).handle q).1.map Reply.sight =
        (((initial m' w').replay before).handle q).1.map Reply.sight) ∧
    (∀ before q after c k i, events = before ++ .request q :: after →
      q.seeks? = some (c, k) →
      (((initial m w).replay before).handle q).1 = .ok (.served i) →
      ((initial m w).replay before).catalog.rows.find? (fun r => r.collection = c ∧
        r.scope = k.scope ∧ (Manager.inProcessKinds g).knows r.kind) = some i.record) ∧
    ∀ before q between q' after c k i i',
      events = before ++ .request q :: (between ++ .request q' :: after) →
      q.seeks? = some (c, k) → q'.seeks? = some (c, k) → .request (.delete c) ∉ between →
      (((initial m w).replay before).handle q).1 = .ok (.served i) →
      (((initial m w).replay (before ++ .request q :: between)).handle q').1 =
        .ok (.served i') →
      i'.record = i.record := by
  refine ⟨?_, ?_, ?_⟩
  · intro before q after hsplit
    rw [answer_replay hm w hids horderly hall hsplit,
      answer_replay hm' w' hids horderly hall' hsplit]
  · intro before q after c k i hsplit hseeks hserved
    have hfirst := first?_of_served hm w hids horderly hall hsplit hseeks hserved
    subst hsplit
    rw [(faithful_replay hm w hids.of_append horderly.of_append).2.2]
    exact hfirst
  · intro before q between q' after c k i i' hsplit hseeks hseeks' hstays hserved hserved'
    have hsplit' : events = (before ++ .request q :: between) ++ .request q' :: after := by
      rw [hsplit, List.append_assoc, List.cons_append]
    have hfirst := first?_of_served hm w hids horderly hall hsplit hseeks hserved
    have hfirst' := first?_of_served hm w hids horderly hall hsplit' hseeks' hserved'
    have hkept : .withdraw c ∉ (.request q :: between : List (Event W)) := by
      rw [hsplit] at horderly
      apply horderly.notMem_withdraw _ hstays
      rintro rfl
      cases hseeks
    rw [List.foldl_append, Event.first?_rewrite hkept hfirst] at hfirst'
    exact (Option.some.inj hfirst').symm

def alternating : List (Event World) :=
  crowded ++ [.request (.get (numberedCollection 0).id .vectorReader),
    .request (.get (numberedCollection 1).id .vectorReader),
    .request (.get (numberedCollection 0).id .vectorReader)]

def discarded : List (Event World) :=
  alternating ++ ([.request (.delete (numberedCollection 0).id),
    .withdraw (numberedCollection 0).id] ++
      [.request (.getNamed (numberedCollection 0).id "VectorReader")])

def vectorsMade (serial : Nat) : Instance :=
  ⟨serial, ⟨numberedSegment 0 .vector, .hnswPersisted, .vector, (numberedCollection 0).id, none⟩,
    ⟨true, false, true⟩⟩

theorem orderly_discarded : Event.Orderly discarded := by
  refine Event.Orderly.append ?_ ((Event.orderly_deletion _).append ?_)
  · apply Event.orderly_of_forall
    simp [alternating, crowded, vectorsWritten]
  · apply Event.orderly_of_forall
    simp

theorem crowded_answers_as_spacious :
    ∃ m m', Manager.inProcess crowdedSettings keeperRegistry = .ok m ∧
      Manager.inProcess spaciousSettings keeperRegistry = .ok m' ∧
      Event.NeverShared discarded ∧ Event.Orderly discarded ∧
      ((initial m keeperWorld).replay discarded).site.journal.all Call.succeeded = true ∧
      ((initial m' keeperWorld).replay discarded).site.journal.all Call.succeeded = true ∧
      ((initial m keeperWorld).replay discarded).manager.counters.memoryEvictions = 4 ∧
      ((initial m' keeperWorld).replay discarded).manager.counters.memoryEvictions = 0 ∧
      (((initial m keeperWorld).replay discarded.dropLast).handle
          (.getNamed (numberedCollection 0).id "VectorReader")).1.map Reply.sight =
        (((initial m' keeperWorld).replay discarded.dropLast).handle
          (.getNamed (numberedCollection 0).id "VectorReader")).1.map Reply.sight ∧
      ∃ i i', (((initial m keeperWorld).replay crowded).handle
          (.get (numberedCollection 0).id .vectorReader)).1 = .ok (.served i) ∧
        (((initial m keeperWorld).replay alternating.dropLast).handle
          (.get (numberedCollection 0).id .vectorReader)).1 = .ok (.served i') ∧
        i.serial ≠ i'.serial ∧ i'.record = i.record := by
  have hids : Event.NeverShared discarded := by decide +kernel
  have hran : ∀ m, Manager.inProcess crowdedSettings keeperRegistry = .ok m →
      ((initial m keeperWorld).replay discarded).site.journal.all Call.succeeded = true ∧
      ((initial m keeperWorld).replay discarded).manager.counters.memoryEvictions = 4 ∧
      (((initial m keeperWorld).replay crowded).handle
        (.get (numberedCollection 0).id .vectorReader)).1 = .ok (.served (vectorsMade 4)) ∧
      (((initial m keeperWorld).replay alternating.dropLast).handle
        (.get (numberedCollection 0).id .vectorReader)).1 = .ok (.served (vectorsMade 6)) := by
    rintro m ⟨⟩
    decide +kernel
  have hran' : ∀ m, Manager.inProcess spaciousSettings keeperRegistry = .ok m →
      ((initial m keeperWorld).replay discarded).site.journal.all Call.succeeded = true ∧
      ((initial m keeperWorld).replay discarded).manager.counters.memoryEvictions = 0 := by
    rintro m ⟨⟩
    decide +kernel
  obtain ⟨m, hm⟩ : ∃ m, Manager.inProcess crowdedSettings keeperRegistry = .ok m := ⟨_, rfl⟩
  obtain ⟨m', hm'⟩ : ∃ m, Manager.inProcess spaciousSettings keeperRegistry = .ok m := ⟨_, rfl⟩
  obtain ⟨hall, hevicted, hserved, hserved'⟩ := hran m hm
  obtain ⟨hall', hevicted'⟩ := hran' m' hm'
  obtain ⟨hsame, -, hrecord⟩ := eviction_is_transparent hm hm' keeperWorld keeperWorld hids
    orderly_discarded hall hall'
  refine ⟨m, m', hm, hm', hids, orderly_discarded, hall, hall', hevicted, hevicted',
    hsame discarded.dropLast _ [] rfl, vectorsMade 4, vectorsMade 6, hserved, hserved',
    by decide, ?_⟩
  exact hrecord crowded _ [.request (.get (numberedCollection 1).id .vectorReader)] _
    (discarded.drop alternating.length) _ .vectorReader _ _ rfl rfl rfl (by simp) hserved hserved'

end System

end SegmentManager
