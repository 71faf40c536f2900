import SegmentManager.Proofs.System.MemoryBudget

/-!
# Which instances run

The table of instances tells which are there, not which of them run: stopping
all of them leaves them there, for a later start of all.  Until then lookups hand
them out as they are.  Nothing else that is there was stopped, so apart from
those every instance that is handed out, or whose index is opened, was last
started.
-/

namespace SegmentManager

def Action.isLifecycle : Action → Bool
  | .start | .stop | .delete => true
  | .openIndex | .closeIndex => false

def Request.asksAll? : Request → Option Action
  | .start _ => some .start
  | .stop _ => some .stop
  | _ => none

def latestLifecycle? (calls : List Asked) : Option Asked :=
  (calls.filter (·.action.isLifecycle)).getLast?

def Site.NeverFailing {W : Type} (site : Site W) : Prop :=
  ∀ action i, action.isLifecycle = true → Call.act action i false ∉ site.journal

section Calls

variable {calls later : List Asked}

theorem latestLifecycle?_append (calls later : List Asked) :
    latestLifecycle? (calls ++ later) = (latestLifecycle? later).or (latestLifecycle? calls) := by
  unfold latestLifecycle?
  rw [List.filter_append, List.getLast?_append]

theorem latestLifecycle?_of_uses (hlater : ∀ a ∈ later, a.action.isLifecycle = false) :
    latestLifecycle? (calls ++ later) = latestLifecycle? calls := by
  have hnone : later.filter (·.action.isLifecycle) = [] := by
    apply List.filter_eq_nil_iff.mpr
    intro a ha
    simp [hlater a ha]
  rw [latestLifecycle?_append, latestLifecycle?, hnone]
  rfl

theorem latestLifecycle?_of_all {a : Asked} (ha : a.action.isLifecycle = true)
    (hlater : later ≠ []) (hall : ∀ b ∈ later, b = a) :
    latestLifecycle? (calls ++ later) = some a := by
  obtain ⟨n, rfl⟩ : ∃ n, later = List.replicate n a :=
    ⟨later.length, List.eq_replicate_iff.mpr ⟨rfl, hall⟩⟩
  have hn : n ≠ 0 := by simpa using hlater
  rw [latestLifecycle?_append, latestLifecycle?, List.filter_replicate, if_pos ha,
    List.getLast?_replicate, if_neg hn]
  rfl

namespace Request

variable {q : Request} {action other : Action}

theorem Passes.asksAll? (h : q.Passes action) (haction : action.isLifecycle = true) :
    q.asksAll? = some action := by
  cases h with
  | start order => rfl
  | stop order => rfl
  | openIndex c operation => cases haction
  | closeIndex c operation => cases haction

theorem eq_or_of_asksAll? (h : q.asksAll? = some action) :
    ∃ order, q = .start order ∧ action = .start ∨ q = .stop order ∧ action = .stop := by
  cases q with
  | start order => exact ⟨order, .inl ⟨rfl, (Option.some.inj h).symm⟩⟩
  | stop order => exact ⟨order, .inr ⟨rfl, (Option.some.inj h).symm⟩⟩
  | get c k => cases h
  | getNamed c name => cases h
  | hint c operation => cases h
  | delete c => cases h
  | reset order => cases h

theorem Passes.eq_of_asksAll? (hpasses : q.Passes other) (h : q.asksAll? = some action) :
    other = action := by
  obtain ⟨order, ⟨rfl, rfl⟩ | ⟨rfl, rfl⟩⟩ := eq_or_of_asksAll? h
  · cases hpasses
    rfl
  · cases hpasses
    rfl

end Request

theorem Live.of_append (h : Live (calls ++ later)) (hcalls : calls ≠ []) : Live calls := by
  obtain ⟨q, uses, hq, heq, huses⟩ := h
  cases calls with
  | nil => exact (hcalls rfl).elim
  | cons a rest =>
      rw [List.cons_append] at heq
      injection heq with hfirst hrest
      refine ⟨q, rest, hq, by rw [hfirst], ?_⟩
      intro b hb
      apply huses
      rw [← hrest]
      exact List.mem_append_left later hb

/-- Only a request to all instances changes whether one runs that runs on. -/
theorem Live.latest_of_request (h : Live (calls ++ later)) {q : Request}
    (hall : q.asksAll? = none) (hlater : ∀ a ∈ later, a.request = q) :
    if calls = [] then latestLifecycle? (calls ++ later) = some ⟨q, .start, true⟩
    else latestLifecycle? (calls ++ later) = latestLifecycle? calls := by
  have huse : ∀ a ∈ later, Request.Passes a.request a.action → a.action.isLifecycle = false := by
    intro a ha hpasses
    rw [← Bool.not_eq_true]
    intro haction
    rw [hlater a ha] at hpasses
    rw [hpasses.asksAll? haction] at hall
    cases hall
  split
  · rename_i hnone
    subst hnone
    obtain ⟨q', uses, -, rfl, huses⟩ := h
    obtain rfl : q' = q := hlater ⟨q', .start, true⟩ List.mem_cons_self
    have hlatest : latestLifecycle? ([⟨q', .start, true⟩] ++ uses) =
        latestLifecycle? [⟨q', .start, true⟩] :=
      latestLifecycle?_of_uses fun a ha => huse a (List.mem_cons_of_mem _ ha) (huses a ha)
    exact hlatest
  · rename_i hcalls
    have hpasses := (h.of_append hcalls).passes_of_append h
    exact latestLifecycle?_of_uses fun a ha => huse a ha (hpasses a ha)

end Calls

/-- Where an instance stands after the calls that it got: it was last started, but
if it is suspended, it was last stopped, with all others. -/
structure Standing (suspended : Prop) (calls : List Asked) : Prop where
  halted : suspended → ∃ order, latestLifecycle? calls = some ⟨.stop order, .stop, true⟩
  active : ¬ suspended → ∃ q, latestLifecycle? calls = some ⟨q, .start, true⟩

namespace System

variable {W : Type} [Backend W]

/-- An instance that was there when all were stopped, after which not all were
started. -/
def Suspended (s : System W) (events : List (Event W)) (i : Instance) : Prop :=
  ∃ before order after, events = before ++ .request (.stop order) :: after ∧
    (∀ order, Event.request (.start order) ∉ after) ∧
    (s.replay before).manager.running? i.record.id = some i

variable {s : System W} {events : List (Event W)} {i : Instance}

theorem suspended_concat_iff (e : Event W) :
    s.Suspended (events ++ [e]) i ↔
      (∃ order, e = .request (.stop order) ∧
        (s.replay events).manager.running? i.record.id = some i) ∨
      ((∀ order, e ≠ .request (.start order)) ∧ s.Suspended events i) := by
  constructor
  · rintro ⟨before, order, after, hsplit, hstart, hrunning⟩
    rcases List.eq_nil_or_concat after with rfl | ⟨rest, last, rfl⟩
    · obtain ⟨rfl, hlast⟩ := List.append_inj' hsplit rfl
      exact .inl ⟨order, List.singleton_inj.mp hlast, hrunning⟩
    · right
      rw [List.concat_eq_append, ← List.cons_append, ← List.append_assoc] at hsplit
      obtain ⟨hbefore, hlast⟩ := List.append_inj' hsplit rfl
      obtain rfl := List.singleton_inj.mp hlast
      simp only [List.concat_eq_append, List.mem_append, not_or, List.mem_singleton] at hstart
      exact ⟨fun other he => (hstart other).2 he.symm, before, order, rest, hbefore,
        fun other => (hstart other).1, hrunning⟩
  · rintro (⟨order, rfl, hrunning⟩ | ⟨hne, before, order, after, rfl, hstart, hrunning⟩)
    · exact ⟨events, order, [], rfl, by simp, hrunning⟩
    · refine ⟨before, order, after ++ [e], by simp, ?_, hrunning⟩
      intro other
      rw [List.mem_append, not_or]
      exact ⟨hstart other, by simpa using (hne other).symm⟩

theorem suspended_concat {e : Event W} (hstart : ∀ order, e ≠ .request (.start order))
    (hstop : ∀ order, e ≠ .request (.stop order)) :
    s.Suspended (events ++ [e]) i ↔ s.Suspended events i := by
  rw [suspended_concat_iff]
  simp [hstart, hstop]

theorem suspended_concat_request {q : Request} (hall : q.asksAll? = none) :
    s.Suspended (events ++ [.request q]) i ↔ s.Suspended events i := by
  apply suspended_concat
  · rintro order ⟨⟩
    cases hall
  · rintro order ⟨⟩
    cases hall

/-! ## Histories -/

variable {m : Manager} {w : W} {q : Request} {made : List Call}

theorem neverFailing_of_append {later : List (Event W)} (hm : m.Fresh)
    (hids : Event.NeverShared (events ++ later))
    (hnever : ((initial m w).replay (events ++ later)).site.NeverFailing) :
    ((initial m w).replay events).site.NeverFailing := by
  obtain ⟨-, hjournal, -⟩ := ledger_replay hm w hids.of_append
  obtain ⟨-, hjournal', -⟩ := ledger_replay hm w hids
  intro action i haction hmem
  apply hnever action i haction
  rw [hjournal, List.mem_reverse] at hmem
  rw [hjournal', List.mem_reverse, trace_append, List.map_append]
  exact List.mem_append_left _ hmem

theorem ok_of_lifecycle (hm : m.Fresh) (hids : Event.NeverShared events)
    (hnever : ((initial m w).replay events).site.NeverFailing) {a : Asked}
    (ha : a ∈ callsOn i ((initial m w).trace events)) (haction : a.action.isLifecycle = true) :
    a.ok = true := by
  obtain ⟨-, hjournal, -⟩ := ledger_replay hm w hids
  rw [← Bool.not_eq_false]
  intro hfailed
  have hcall := mem_callsOn_iff.mp ha
  rw [hfailed] at hcall
  apply hnever a.action i haction
  rw [hjournal, List.mem_reverse]
  exact List.mem_map_of_mem hcall

theorem running_iff_live (hm : m.Fresh) (w : W) (hids : Event.NeverShared events)
    (i : Instance) : ((initial m w).replay events).manager.running? i.record.id = some i ↔
      Live (callsOn i ((initial m w).trace events)) := by
  obtain ⟨-, -, hledger⟩ := ledger_replay hm w hids
  exact (Booked.of_ledger hledger).running_iff i

theorem Suspended.called (h : (initial m w).Suspended events i) (hm : m.Fresh)
    (hids : Event.NeverShared events) : callsOn i ((initial m w).trace events) ≠ [] := by
  obtain ⟨before, order, after, rfl, -, hrunning⟩ := h
  have hlive := (running_iff_live hm w hids.of_append i).mp hrunning
  rw [trace_append, callsOn_append]
  exact List.append_ne_nil_of_left_ne_nil hlive.ne_nil _

/-- While a request is served that neither starts nor stops all instances, those
that are there stand as before, and new ones were started. -/
theorem standing_within (hm : m.Fresh) (hids : Event.NeverShared events)
    (hbefore : Live (callsOn i ((initial m w).trace events)) →
      Standing ((initial m w).Suspended events i) (callsOn i ((initial m w).trace events)))
    (hall : q.asksAll? = none)
    (hlive : Live (callsOn i ((initial m w).trace events ++ made.map (q, ·)))) :
    Standing ((initial m w).Suspended events i)
      (callsOn i ((initial m w).trace events ++ made.map (q, ·))) := by
  rw [callsOn_append] at hlive ⊢
  have hlatest := hlive.latest_of_request hall fun a ha => request_of_mem_callsOn ha
  split at hlatest
  · rename_i hnew
    exact ⟨fun hsuspended => (hsuspended.called hm hids hnew).elim, fun _ => ⟨q, hlatest⟩⟩
  · rename_i hcalled
    have hstanding := hbefore (hlive.of_append hcalled)
    constructor
    · intro hsuspended
      obtain ⟨order, hstopped⟩ := hstanding.halted hsuspended
      exact ⟨order, hlatest.trans hstopped⟩
    · intro hactive
      obtain ⟨q', hstarted⟩ := hstanding.active hactive
      exact ⟨q', hlatest.trans hstarted⟩

theorem noted_of_asksAll {s : System W} {action : Action} (hall : q.asksAll? = some action) :
    ∃ order, s.noted (.request q) =
      (Site.asks action (s.manager.instances.visited order) s.site).map (q, ·) := by
  obtain ⟨order, hq⟩ := Request.eq_or_of_asksAll? hall
  refine ⟨order, ?_⟩
  rcases hq with ⟨rfl, rfl⟩ | ⟨rfl, rfl⟩
  · exact congrArg _ (Site.callsAfter_of_journal_eq (Site.journal_performAll _ _ _))
  · exact congrArg _ (Site.callsAfter_of_journal_eq (Site.journal_performAll _ _ _))

/-- A request to all instances reaches every one that is there, and starts none. -/
theorem latest_of_asksAll (hm : m.Fresh) {action : Action} (hall : q.asksAll? = some action)
    (hids : Event.NeverShared (events ++ [.request q]))
    (hnever : ((initial m w).replay (events ++ [.request q])).site.NeverFailing)
    (hlive : Live (callsOn i ((initial m w).trace (events ++ [.request q])))) :
    ((initial m w).replay events).manager.running? i.record.id = some i ∧
    latestLifecycle? (callsOn i ((initial m w).trace (events ++ [.request q]))) =
      some ⟨q, action, true⟩ := by
  have hok : ∀ a ∈ callsOn i ((initial m w).trace (events ++ [.request q])),
      a.action.isLifecycle = true → a.ok = true := fun a => ok_of_lifecycle hm hids hnever
  have hlifecycle : action.isLifecycle = true ∧ ¬ q.LooksUp := by
    obtain ⟨order, ⟨rfl, rfl⟩ | ⟨rfl, rfl⟩⟩ := Request.eq_or_of_asksAll? hall
    · exact ⟨rfl, id⟩
    · exact ⟨rfl, id⟩
  obtain ⟨order, hnoted⟩ := noted_of_asksAll (s := (initial m w).replay events) hall
  rw [trace_concat, callsOn_append, hnoted] at hlive hok ⊢
  have hcalled : callsOn i ((initial m w).trace events) ≠ [] := by
    intro hnone
    rw [hnone, List.nil_append] at hlive
    obtain ⟨q', uses, hq', heq, -⟩ := hlive
    have hfirst : (⟨q', .start, true⟩ : Asked) ∈ callsOn i (List.map (q, ·) _) :=
      heq ▸ List.mem_cons_self
    have hrequest : q' = q := request_of_mem_callsOn hfirst
    exact hlifecycle.2 (hrequest ▸ hq')
  have hbefore := hlive.of_append hcalled
  have hrunning := (running_iff_live hm w hids.of_append i).mpr hbefore
  refine ⟨hrunning, latestLifecycle?_of_all hlifecycle.1 ?_ ?_⟩
  · have hvisited := ((coherent_replay hm w hids.of_append).mem_visited_iff order).mpr hrunning
    obtain ⟨ok, hasked⟩ := Site.mem_asks action hvisited ((initial m w).replay events).site
    have hmem : (⟨q, action, ok⟩ : Asked) ∈ callsOn i _ :=
      mem_callsOn_iff.mpr (List.mem_map_of_mem hasked)
    exact List.ne_nil_of_mem hmem
  · intro a ha
    have hrequest : a.request = q := request_of_mem_callsOn ha
    have haction : a.action = action := by
      have hpasses := hbefore.passes_of_append hlive a ha
      rw [hrequest] at hpasses
      exact hpasses.eq_of_asksAll? hall
    have hsucceeded := hok a (List.mem_append_right _ ha) (haction ▸ hlifecycle.1)
    obtain ⟨request, asked, ok⟩ := a
    obtain rfl : request = q := hrequest
    obtain rfl : asked = action := haction
    obtain rfl : ok = true := hsucceeded
    rfl

/-- Whatever was before, a request to all instances decides where they stand. -/
theorem standing_of_asksAll (hm : m.Fresh) {action : Action} (hall : q.asksAll? = some action)
    (hids : Event.NeverShared (events ++ [.request q]))
    (hnever : ((initial m w).replay (events ++ [.request q])).site.NeverFailing)
    (hlive : Live (callsOn i ((initial m w).trace (events ++ [.request q])))) :
    Standing ((initial m w).Suspended (events ++ [.request q]) i)
      (callsOn i ((initial m w).trace (events ++ [.request q]))) := by
  obtain ⟨hrunning, hlatest⟩ := latest_of_asksAll hm hall hids hnever hlive
  obtain ⟨order, ⟨rfl, rfl⟩ | ⟨rfl, rfl⟩⟩ := Request.eq_or_of_asksAll? hall
  · refine ⟨fun hsuspended => ?_, fun _ => ⟨.start order, hlatest⟩⟩
    simp [suspended_concat_iff] at hsuspended
  · refine ⟨fun _ => ⟨order, hlatest⟩, fun hactive => (hactive ?_).elim⟩
    exact (suspended_concat_iff _).mpr (.inl ⟨order, rfl, hrunning⟩)

theorem standing_replay (hm : m.Fresh) (hids : Event.NeverShared events)
    (hnever : ((initial m w).replay events).site.NeverFailing)
    (hlive : Live (callsOn i ((initial m w).trace events))) :
    Standing ((initial m w).Suspended events i) (callsOn i ((initial m w).trace events)) := by
  revert hids hnever hlive
  induction events using List.reverseRecOn with
  | nil =>
      intro hids hnever hlive
      exact (hlive.ne_nil rfl).elim
  | append_singleton events e ih =>
      intro hids hnever hlive
      have hbefore := ih hids.of_append (neverFailing_of_append hm hids hnever)
      have hsilent : ((initial m w).replay events).noted e = [] →
          (∀ order, e ≠ .request (.start order)) → (∀ order, e ≠ .request (.stop order)) →
          Standing ((initial m w).Suspended (events ++ [e]) i)
            (callsOn i ((initial m w).trace (events ++ [e]))) := by
        intro hnoted hstart hstop
        rw [trace_concat, hnoted, List.append_nil] at hlive ⊢
        rw [suspended_concat hstart hstop]
        exact hbefore hlive
      cases e with
      | request q =>
          cases hall : q.asksAll? with
          | some action => exact standing_of_asksAll hm hall hids hnever hlive
          | none =>
              rw [trace_concat] at hlive ⊢
              rw [suspended_concat_request hall]
              exact standing_within hm hids.of_append hbefore hall hlive
      | enter rows => exact hsilent rfl (by simp) (by simp)
      | withdraw c => exact hsilent rfl (by simp) (by simp)
      | refuse text => exact hsilent rfl (by simp) (by simp)
      | regroup members => exact hsilent rfl (by simp) (by simp)
      | elapse change => exact hsilent rfl (by simp) (by simp)

theorem Coherent.running_of_reply {created : List Record} (hs : s.Coherent created)
    (hreply : (s.handle q).1 = .ok (.served i)) :
    q.asksAll? = none ∧ (s.handle q).2.manager.running? i.record.id = some i := by
  have hget : ∀ c k, (s.getSegment c k).1.map Reply.served = .ok (.served i) →
      (s.getSegment c k).2.manager.running? i.record.id = some i := by
    intro c k hanswer
    cases hfound : (s.getSegment c k).1 with
    | error fault =>
        rw [hfound] at hanswer
        cases hanswer
    | ok j =>
        rw [hfound] at hanswer
        cases hanswer
        exact hs.running_of_answer (by simp [hfound, Except.toOption])
  have hnone : ∀ {α : Type} (form : α → Reply) (outcome : Except Fault α),
      (∀ a, form a ≠ .served i) → outcome.map form ≠ .ok (.served i) := by
    intro α form outcome hform hanswer
    cases outcome with
    | error fault => cases hanswer
    | ok a => exact hform a (Except.ok.inj hanswer)
  cases q with
  | get c k => exact ⟨rfl, hget c k hreply⟩
  | getNamed c name =>
      change (s.getSegmentNamed c name).1.map Reply.served = _ at hreply
      refine ⟨rfl, ?_⟩
      change (s.getSegmentNamed c name).2.manager.running? i.record.id = some i
      unfold System.getSegmentNamed at hreply ⊢
      cases hname : Capability.ofName? name with
      | none =>
          rw [hname] at hreply
          cases hreply
      | some k =>
          rw [hname] at hreply
          exact hget c k hreply
  | hint c operation => exact (hnone _ _ (by simp) hreply).elim
  | delete c => exact (hnone _ _ (by simp) hreply).elim
  | start order => exact (hnone _ _ (by simp) hreply).elim
  | stop order => exact (hnone _ _ (by simp) hreply).elim
  | reset order => exact (hnone _ _ (by simp) hreply).elim

theorem live_of_opening {t : Roster} {own : Bool} {calls later : List Noted} {ok : Bool}
    (hledger : Ledger own .empty (calls ++ (q, .act .openIndex i ok) :: later) t) :
    q.asksAll? = none ∧ Live (callsOn i calls) := by
  obtain ⟨t₁, hcalls, hlater⟩ := hledger.split
  obtain ⟨t₂, hopening, -⟩ := hlater.of_cons
  cases hopening with
  | passed hidle hrunning hpasses =>
      cases hpasses
      exact ⟨rfl, ((Booked.of_ledger hcalls).running_iff i).mp hrunning⟩
  | ended hidle hrunning hends => cases hends

theorem standing_of_opening (hm : m.Fresh) {e : Event W} (hids : Event.NeverShared (events ++ [e]))
    (hnever : ((initial m w).replay events).site.NeverFailing) {calls later : List Noted} {ok : Bool}
    (hnoted : ((initial m w).replay events).noted e =
      calls ++ (q, .act .openIndex i ok) :: later) :
    Standing ((initial m w).Suspended events i)
      (callsOn i ((initial m w).trace events ++ calls)) := by
  obtain ⟨-, -, hledger⟩ := ledger_replay hm w hids
  rw [trace_concat, hnoted, ← List.append_assoc] at hledger
  obtain ⟨hall, hlive⟩ := live_of_opening hledger
  obtain ⟨made, rfl⟩ : ∃ made : List Call, calls = made.map (q, ·) := by
    cases e with
    | request q' =>
        obtain ⟨made, rest, -, rfl, hrest⟩ := List.map_eq_append_iff.mp hnoted
        obtain ⟨call, others, -, hcall, -⟩ := List.map_eq_cons_iff.mp hrest
        obtain rfl : q' = q := congrArg Prod.fst hcall
        exact ⟨made, rfl⟩
    | enter rows => simp [noted] at hnoted
    | withdraw c => simp [noted] at hnoted
    | refuse text => simp [noted] at hnoted
    | regroup members => simp [noted] at hnoted
    | elapse change => simp [noted] at hnoted
  exact standing_within hm hids.of_append (standing_replay hm hids.of_append hnever) hall hlive

/-- Unless a call fails that starts, stops or deletes an instance, each one that
a lookup hands out was last started, and so was each one whose index is opened,
except those that were there when all were stopped, after which not all were
started: those were last stopped then, and are handed out and opened as they are. -/
theorem handed_out_instances_run_unless_suspended (hm : m.Fresh) (w : W)
    (hids : Event.NeverShared events)
    (hnever : ((initial m w).replay events).site.NeverFailing) :
    (∀ before q after i, events = before ++ .request q :: after →
      (((initial m w).replay before).handle q).1 = .ok (.served i) →
      Standing ((initial m w).Suspended before i)
        (callsOn i ((initial m w).trace (before ++ [.request q])))) ∧
    ∀ before e after calls q i ok later, events = before ++ e :: after →
      ((initial m w).replay before).noted e = calls ++ (q, .act .openIndex i ok) :: later →
      Standing ((initial m w).Suspended before i)
        (callsOn i ((initial m w).trace before ++ calls)) := by
  constructor
  · rintro before q after i rfl hreply
    rw [List.append_cons] at hids hnever
    obtain ⟨hall, hrunning⟩ :=
      (coherent_replay hm w hids.of_append.of_append).running_of_reply hreply
    have hreplay := replay_concat before (.request q) (initial m w)
    have hlive := (running_iff_live hm w hids.of_append i).mp
      ((congrArg (·.manager.running? i.record.id) hreplay).trans hrunning)
    rw [← suspended_concat_request hall]
    exact standing_replay hm hids.of_append (neverFailing_of_append hm hids hnever) hlive
  · rintro before e after calls q i ok later rfl hnoted
    have hnever' := neverFailing_of_append hm hids hnever
    rw [List.append_cons] at hids
    exact standing_of_opening hm hids.of_append hnever' hnoted

open Simulation

def vectorsSought (n : Nat) : Request := .get (numberedCollection n).id .vectorReader

def halted : List (Event World) :=
  [.enter (numberedRows 0), .request (vectorsSought 0), .request (.stop [])]

def haltedVectors : Instance :=
  ⟨0, ⟨numberedSegment 0 .vector, .hnswPersisted, .vector, (numberedCollection 0).id, none⟩,
    ⟨true, false, true⟩⟩

def resumed : List (Event World) :=
  halted ++ [.request (vectorsSought 0), .request (.hint (numberedCollection 0).id .add),
    .request (.start []), .request (vectorsSought 0)]

theorem halted_vectors_are_handed_out :
    ∃ m, Manager.inProcess spaciousSettings keeperRegistry = .ok m ∧
      Event.NeverShared resumed ∧ ((initial m keeperWorld).replay resumed).site.NeverFailing ∧
      let s := (initial m keeperWorld).replay halted
      (s.handle (vectorsSought 0)).1 = .ok (.served haltedVectors) ∧
      latestLifecycle? (callsOn haltedVectors
        ((initial m keeperWorld).trace (halted ++ [.request (vectorsSought 0)]))) =
          some ⟨.stop [], .stop, true⟩ ∧
      (.hint (numberedCollection 0).id .add, .act .openIndex haltedVectors true) ∈
        s.noted (.request (.hint (numberedCollection 0).id .add)) ∧
      latestLifecycle? (callsOn haltedVectors ((initial m keeperWorld).trace
        (halted ++ [.request (.hint (numberedCollection 0).id .add)]))) =
          some ⟨.stop [], .stop, true⟩ := by
  refine ⟨_, rfl, by decide +kernel, ?_, ?_⟩
  · exact fun action i _ => Site.notMem_of_succeeded (by decide +kernel) action i
  · decide +kernel

theorem resumed_vectors_run :
    ∃ m, Manager.inProcess spaciousSettings keeperRegistry = .ok m ∧
      Event.NeverShared resumed ∧ ((initial m keeperWorld).replay resumed).site.NeverFailing ∧
      (∃ order, latestLifecycle? (callsOn haltedVectors
        ((initial m keeperWorld).trace (halted ++ [.request (vectorsSought 0)]))) =
          some ⟨.stop order, .stop, true⟩) ∧
      (∃ calls ok later, ((initial m keeperWorld).replay
        (halted ++ [.request (vectorsSought 0)])).noted
          (.request (.hint (numberedCollection 0).id .add)) =
            calls ++ (.hint (numberedCollection 0).id .add, .act .openIndex haltedVectors ok) ::
              later ∧
        ∃ order, latestLifecycle? (callsOn haltedVectors ((initial m keeperWorld).trace
          (halted ++ [.request (vectorsSought 0)]) ++ calls)) =
            some ⟨.stop order, .stop, true⟩) ∧
      ∃ q, latestLifecycle? (callsOn haltedVectors ((initial m keeperWorld).trace resumed)) =
        some ⟨q, .start, true⟩ := by
  obtain ⟨m, hm⟩ : ∃ m, Manager.inProcess spaciousSettings keeperRegistry = .ok m := ⟨_, rfl⟩
  have hids : Event.NeverShared resumed := by decide +kernel
  have hran : ∀ m, Manager.inProcess spaciousSettings keeperRegistry = .ok m →
      let hint := Request.hint (numberedCollection 0).id .add
      ((initial m keeperWorld).replay resumed).site.journal.all Call.succeeded = true ∧
      ((initial m keeperWorld).replay halted.dropLast).manager.running?
        haltedVectors.record.id = some haltedVectors ∧
      (((initial m keeperWorld).replay halted).handle (vectorsSought 0)).1 =
        .ok (.served haltedVectors) ∧
      (((initial m keeperWorld).replay resumed.dropLast).handle (vectorsSought 0)).1 =
        .ok (.served haltedVectors) ∧
      (hint, .act .openIndex haltedVectors true) ∈ ((initial m keeperWorld).replay
        (halted ++ [.request (vectorsSought 0)])).noted (.request hint) := by
    rintro m ⟨⟩
    decide +kernel
  obtain ⟨hjournal, hthere, hreply, hreply', hopened⟩ := hran m hm
  have hnever : ((initial m keeperWorld).replay resumed).site.NeverFailing :=
    fun action i _ => Site.notMem_of_succeeded hjournal action i
  obtain ⟨hserved, hopening⟩ :=
    handed_out_instances_run_unless_suspended (.inProcess hm) keeperWorld hids hnever
  have hsuspended : (initial m keeperWorld).Suspended halted haltedVectors :=
    ⟨halted.dropLast, [], [], rfl, by simp, hthere⟩
  have hactive : ¬ (initial m keeperWorld).Suspended resumed.dropLast haltedVectors := by
    have hstarted : resumed.dropLast = halted ++ [.request (vectorsSought 0),
      .request (.hint (numberedCollection 0).id .add)] ++ [.request (.start [])] := rfl
    rw [hstarted, suspended_concat_iff]
    simp
  obtain ⟨calls, later, hnoted⟩ := List.append_of_mem hopened
  refine ⟨m, hm, hids, hnever, ?_, ⟨calls, true, later, hnoted, ?_⟩, ?_⟩
  · exact (hserved halted _ _ _ rfl hreply).halted hsuspended
  · have hsplit : resumed = (halted ++ [.request (vectorsSought 0)]) ++
        .request (.hint (numberedCollection 0).id .add) ::
          [.request (.start []), .request (vectorsSought 0)] := rfl
    have hstanding := hopening _ _ _ calls _ _ _ later hsplit hnoted
    exact hstanding.halted ((suspended_concat_request rfl).mpr hsuspended)
  · exact (hserved resumed.dropLast _ [] _ rfl hreply').active hactive

end System

end SegmentManager
