import SegmentManager.Proofs.System.Lookup
import SegmentManager.System.Interleaving

/-!
# Calls that are left alone

A call whose steps nothing comes between does what the same request does at
once.  The runs in which calls are answered one after another are thus among
the interleaved ones.
-/

namespace SegmentManager

variable {W : Type} [Backend W]

namespace Job

inductive Leads : Job → System W → Job → System W → Prop
  | refl (job : Job) (s : System W) : Leads job s job s
  | next {job job' : Job} {s s' : System W}
      (hrest : Leads (job.step s).1 (job.step s).2 job' s') : Leads job s job' s'

namespace Leads

variable {job job' job'' : Job} {s s' s'' : System W}

theorem trans (h : Leads job s job' s') (h' : Leads job' s' job'' s'') :
    Leads job s job'' s'' := by
  induction h with
  | refl => exact h'
  | next hrest ih => exact .next (ih h')

theorem head (hstep : job.step s = (job', s')) (h : Leads job' s' job'' s'') :
    Leads job s job'' s'' := by
  apply next
  rw [hstep]
  exact h

theorem step (hstep : job.step s = (job', s')) : Leads job s job' s' :=
  head hstep (refl job' s')

end Leads

/-! ## Lookups -/

variable (errand : Errand) (c : CollectionId)

theorem leads_evicting (i : Instance) (gone : List (CollectionId × Record)) (s : System W) :
    Leads (follow errand c (Lookup.evicting i gone)) s
      (proceed errand c (.ok i)) (s.evictAll gone) := by
  induction gone generalizing s with
  | nil => exact .refl _ s
  | cons e gone ih =>
      obtain ⟨d, r⟩ := e
      rw [System.evictAll_cons]
      have huntrack : Leads (follow errand c (Lookup.evicting i ((d, r) :: gone))) s
          (lookup errand c (.unregister r gone i)) (s.untrack d) := .step rfl
      refine huntrack.trans (.next ?_)
      unfold System.evict
      simp only [step, Lookup.step]
      cases (s.untrack d).unregister r.id with
      | mk found s' =>
          cases found with
          | none => exact ih s'
          | some evicted => exact .next (ih (s'.retire evicted))

theorem leads_acquire (r : Record) (cached : Bool) (s : System W) :
    Leads (lookup errand c (.acquire r cached)) s
      (proceed errand c (s.acquire r).1)
      (match s.acquire r with
        | (.ok _, s) => if cached then s else s.remember r errand.capability.scope
        | (.error _, s) => if cached then s.forget r.collection errand.capability.scope else s) := by
  apply Leads.next
  simp only [step, Lookup.step]
  cases s.acquire r with
  | mk outcome s' =>
      cases outcome <;> cases cached
      case error.false => exact .refl _ s'
      case error.true => exact .step rfl
      case ok.true => exact .refl _ s'
      case ok.false =>
        rename_i i
        have hremember : Leads (lookup errand c (.remember r i)) s'
            (follow errand c (Lookup.evicting i (s'.displaced r errand.capability.scope)))
            (s'.caching r errand.capability.scope) := .step rfl
        exact hremember.trans (leads_evicting errand c i _ _)

theorem leads_getSegment (s : System W) :
    Leads (lookup errand c .consult) s
      (proceed errand c (s.getSegment c errand.capability).1)
      (s.getSegment c errand.capability).2 := by
  simp only [System.getSegment]
  cases hconsult : s.consult c errand.capability.scope with
  | mk found s₁ =>
      cases found with
      | some r =>
          have hstep : (lookup errand c .consult).step s =
              (lookup errand c (.acquire r true), s₁) := by
            simp [step, Lookup.step, hconsult, follow]
          have hacquire := leads_acquire errand c r true s₁
          refine .head hstep ?_
          cases hend : s₁.acquire r with
          | mk outcome s₂ => cases outcome <;> simpa [hend] using hacquire
      | none =>
          have hstep : (lookup errand c .consult).step s = (lookup errand c .fetch, s₁) := by
            simp [step, Lookup.step, hconsult, follow]
          refine .head hstep ?_
          simp only
          cases hfetch : s₁.fetch c errand.capability.scope with
          | mk answer s₂ =>
              cases answer with
              | error fault =>
                  exact .step (by simp [step, Lookup.step, hfetch, follow])
              | ok r =>
                  have hfetched : (lookup errand c .fetch).step s₁ =
                      (lookup errand c (.acquire r false), s₂) := by
                    simp [step, Lookup.step, hfetch, follow]
                  have hacquire := leads_acquire errand c r false s₂
                  refine .head hfetched ?_
                  simp only
                  cases hend : s₂.acquire r with
                  | mk outcome s₃ => cases outcome <;> simpa [hend] using hacquire

/-! ## Hints -/

theorem leads_closeIndexes (targets : List Instance) (closed : Nat) (s : System W) :
    Leads (closeIndexes targets closed) s (returned (.ok .done))
      { s with
        manager := s.manager.tally fun n => { n with handleEvictions := n.handleEvictions + closed }
        site := OpenIndexes.closeAll targets s.site } := by
  induction targets generalizing s with
  | nil => exact .step rfl
  | cons i targets ih =>
      apply Leads.next
      have hrest := ih (if i.views.persistentIndex then (s.perform .closeIndex i).2 else s)
      have hclose : OpenIndexes.closeAll (i :: targets) s.site = OpenIndexes.closeAll targets
          (if i.views.persistentIndex then (s.site.perform .closeIndex i).2 else s.site) := rfl
      simp only [step]
      rw [hclose]
      split at hrest
      · rename_i hpersistent
        simp only [hpersistent, if_true]
        exact hrest
      · rename_i hpersistent
        simp only [hpersistent]
        exact hrest

theorem leads_trackIndex (i : Instance) (s : System W) :
    Leads (openIndex c i) s (returned ((s.trackIndex c i).1.map fun _ => .done))
      (s.trackIndex c i).2 := by
  apply Leads.next
  unfold System.trackIndex
  simp only [step]
  cases hopen : s.manager.openIndexes with
  | none => exact .refl _ s
  | some o =>
      by_cases hpersistent : i.views.persistentIndex = true
      · simp only [OpenIndexes.track, hpersistent, if_true, Option.isSome_some, Bool.and_self,
          System.perform]
        cases hperform : s.site.perform .openIndex i with
        | mk outcome site =>
            cases outcome with
            | error fault =>
                have hsame : { s.manager with openIndexes := some o } = s.manager := by rw [← hopen]
                simp only [hsame]
                exact .refl _ _
            | ok done =>
                apply Leads.next
                simp only [step, hopen]
                simp only [List.length_map]
                exact leads_closeIndexes _ _ _
      · simp only [hpersistent]
        exact .refl _ s

theorem leads_hint (operation : Operation) (s : System W) :
    Leads (hint c) s (returned ((s.hint c operation).1.map fun _ => .done))
      (s.hint c operation).2 := by
  unfold System.hint
  cases hdeployment : s.manager.deployment with
  | distributed workers => exact .step (by simp [step, hdeployment, Except.map])
  | inProcess settings =>
      have hstep : (hint c).step s = (lookup .warmMetadata c .consult, s) := by
        simp [step, hdeployment]
      refine .head hstep ?_
      have hmetadata := leads_getSegment .warmMetadata c s
      simp only [Errand.capability] at hmetadata ⊢
      cases hfirst : s.getSegment c .metadataReader with
      | mk answer s₁ =>
          rw [hfirst] at hmetadata
          cases answer with
          | error fault => exact hmetadata
          | ok i =>
              have hvectors := leads_getSegment .warmVectors c s₁
              simp only [Errand.capability] at hvectors ⊢
              cases hsecond : s₁.getSegment c .vectorReader with
              | mk answer s₂ =>
                  rw [hsecond] at hvectors
                  cases answer with
                  | error fault => exact hmetadata.trans hvectors
                  | ok j => exact (hmetadata.trans hvectors).trans (leads_trackIndex c j s₂)

/-! ## Deletions -/

theorem leads_forgetVectors (answer : Except Fault (List SegmentId)) (s : System W) :
    Leads (forgetVectors c answer) s (returned (answer.map .deleted)) (s.forgetAll c) :=
  .next (.next (.step rfl))

theorem leads_releaseEach {workers : Workers} (all completed later : List SegmentId)
    (s : System W) (hdeployment : s.manager.deployment = .distributed workers) :
    Leads (removing c all completed later) s (forgetVectors c (.ok all))
      (s.releaseEach later) := by
  induction later generalizing s with
  | nil => exact .refl _ s
  | cons segment later ih =>
      unfold System.releaseEach
      cases hfound : s.unregister segment with
      | mk found s' =>
          have hstill : s'.manager.deployment = .distributed workers := by
            have hsame := congrArg (·.2.manager.deployment) hfound
            exact hsame.symm.trans hdeployment
          cases found with
          | none =>
              have hstep : (removing c all completed (segment :: later)).step s =
                  (removing c all completed later, s') := by
                simp [removing, step, takeOut, hfound]
              exact .head hstep (ih s' hstill)
          | some i =>
              have hstep : (removing c all completed (segment :: later)).step s =
                  (removing c all completed later, (s'.perform .stop i).2.countDeleted) := by
                simp [removing, step, takeOut, hfound, hstill]
              exact .head hstep (ih _ hstill)

def outcome (all completed : List SegmentId) :
    List SegmentId × Option (SegmentId × Fault) → Except Fault (List SegmentId)
  | (_, none) => .ok all
  | (deleted, some (failed, cause)) => .error (.partialDelete (completed ++ deleted) failed cause)

theorem leads_deleteEach {settings : Settings} (all completed later : List SegmentId)
    (s : System W) (hdeployment : s.manager.deployment = .inProcess settings) :
    Leads (removing c all completed later) s
      (forgetVectors c (outcome all completed (s.deleteEach later).1))
      (s.deleteEach later).2 := by
  induction later generalizing completed s with
  | nil => exact .refl _ s
  | cons segment later ih =>
      unfold System.deleteEach
      cases hfound : s.unregister segment with
      | mk found s₁ =>
          have hstill : s₁.manager.deployment = .inProcess settings := by
            have hsame := congrArg (·.2.manager.deployment) hfound
            exact hsame.symm.trans hdeployment
          cases found with
          | none =>
              have hstep : (removing c all completed (segment :: later)).step s =
                  (removing c all completed later, s₁) := by
                simp [removing, step, takeOut, hfound]
              exact .head hstep (ih completed s₁ hstill)
          | some i =>
              cases hperform : s₁.perform .delete i with
              | mk done s₂ =>
                  have hlast : s₂.manager.deployment = .inProcess settings := by
                    have hsame := congrArg (·.2.manager.deployment) hperform
                    exact hsame.symm.trans hstill
                  cases done with
                  | error fault =>
                      apply Leads.step
                      simp [removing, step, takeOut, hfound, hstill, hperform, outcome]
                  | ok done =>
                      have hstep : (removing c all completed (segment :: later)).step s =
                          (removing c all (completed ++ [segment]) later, s₂.countDeleted) := by
                        simp [removing, step, takeOut, hfound, hstill, hperform]
                      refine .head hstep ?_
                      have hrest := ih (completed ++ [segment]) s₂.countDeleted hlast
                      simp only [hperform]
                      cases hend : s₂.countDeleted.deleteEach later with
                      | mk answer s₃ =>
                          obtain ⟨deleted, failure⟩ := answer
                          rw [hend] at hrest
                          cases failure with
                          | none => exact hrest
                          | some failure => simpa [outcome] using hrest

theorem leads_deleteSegments (s : System W) :
    Leads (list c) s (returned ((s.deleteSegments c).1.map .deleted)) (s.deleteSegments c).2 := by
  unfold System.deleteSegments
  cases hread : s.readCatalog c none with
  | mk answer s₁ =>
      cases answer with
      | error fault => exact .step (by simp [step, hread, Except.map])
      | ok rows =>
          have hstep : (list c).step s =
              (removing c (rows.map (·.id)) [] (rows.map (·.id)), s₁) := by
            simp [step, hread]
          refine .head hstep ?_
          cases hdeployment : s₁.manager.deployment with
          | distributed workers =>
              have hrelease := leads_releaseEach c (rows.map (·.id)) [] (rows.map (·.id)) s₁
                hdeployment
              simp only [hdeployment]
              exact hrelease.trans (leads_forgetVectors c _ _)
          | inProcess settings =>
              have hdelete := leads_deleteEach c (rows.map (·.id)) [] (rows.map (·.id)) s₁
                hdeployment
              simp only [hdeployment]
              cases hend : s₁.deleteEach (rows.map (·.id)) with
              | mk answer s₂ =>
                  obtain ⟨deleted, failure⟩ := answer
                  rw [hend] at hdelete
                  cases failure with
                  | none => exact hdelete.trans (leads_forgetVectors c _ s₂)
                  | some failure => exact hdelete.trans (leads_forgetVectors c _ s₂)

theorem leads_query (q : Query) (s : System W) :
    Leads q.job s (returned (s.handle q.request).1) (s.handle q.request).2 := by
  cases q with
  | get c k =>
      have hlookup := leads_getSegment (.serve k) c s
      change Leads _ s (returned ((s.getSegment c k).1.map .served)) (s.getSegment c k).2
      change Leads _ s (proceed _ c (s.getSegment c k).1) (s.getSegment c k).2 at hlookup
      cases hanswer : (s.getSegment c k).1 with
      | error fault =>
          rw [hanswer] at hlookup
          exact hlookup
      | ok i =>
          rw [hanswer] at hlookup
          exact hlookup
  | hint c operation => exact leads_hint c operation s
  | delete c => exact leads_deleteSegments c s

end Job

namespace Traffic

theorem run_append (schedule later : List Nat) (x : Traffic W) :
    x.run (schedule ++ later) = (x.run schedule).run later :=
  List.foldl_append

theorem run_cons (n : Nat) (later : List Nat) (x : Traffic W) :
    x.run (n :: later) = (x.turn n).run later := rfl

theorem turn_of_some {x : Traffic W} {n : Nat} {job : Job} (hjob : x.jobs[n]? = some job) :
    x.turn n = ⟨x.jobs.set n (job.step x.system).1, (job.step x.system).2⟩ := by
  simp [turn, hjob]

section Turn

variable {x : Traffic W} {n : Nat} {job : Job} (hjob : x.jobs[n]? = some job)

include hjob

theorem system_turn : (x.turn n).system = (job.step x.system).2 := by rw [turn_of_some hjob]

theorem jobs_turn : (x.turn n).jobs = x.jobs.set n (job.step x.system).1 := by
  rw [turn_of_some hjob]

theorem job_turn : (x.turn n).jobs[n]? = some (job.step x.system).1 := by
  obtain ⟨hn, -⟩ := List.getElem?_eq_some_iff.mp hjob
  rw [jobs_turn hjob]
  exact List.getElem?_set_self hn

end Turn

theorem turn_of_none {x : Traffic W} {n : Nat} (hjob : x.jobs[n]? = none) : x.turn n = x := by
  simp [turn, hjob]

theorem job_turn_ne {x : Traffic W} {n m : Nat} (hn : n ≠ m) :
    (x.turn n).jobs[m]? = x.jobs[m]? := by
  cases hjob : x.jobs[n]? with
  | none => rw [turn_of_none hjob]
  | some job => rw [jobs_turn hjob, List.getElem?_set_ne hn]

theorem run_concat (schedule : List Nat) (n : Nat) (x : Traffic W) :
    x.run (schedule ++ [n]) = (x.run schedule).turn n := by
  rw [run_append]
  rfl

theorem run_leads {job job' : Job} {s s' : System W} (hleads : job.Leads s job' s') {n : Nat}
    {jobs : List Job} (hjob : jobs[n]? = some job) :
    ∃ schedule, run schedule ⟨jobs, s⟩ = ⟨jobs.set n job', s'⟩ := by
  induction hleads generalizing jobs with
  | refl job s =>
      refine ⟨[], ?_⟩
      obtain ⟨hn, rfl⟩ := List.getElem?_eq_some_iff.mp hjob
      rw [List.set_getElem_self hn]
      rfl
  | next hrest ih =>
      rename_i job job' s s'
      obtain ⟨hn, -⟩ := List.getElem?_eq_some_iff.mp hjob
      obtain ⟨schedule, hrun⟩ := ih (List.getElem?_set_self (a := (job.step s).1) hn)
      refine ⟨n :: schedule, ?_⟩
      rw [run_cons, turn_of_some hjob, hrun, List.set_set]

/-- Calls may be run one after another, as their requests are. -/
theorem run_in_turn (queries : List Query) (s : System W) :
    ∃ schedule, (start queries s).run schedule =
      ⟨(s.run (queries.map Query.request)).1.map .returned,
        (s.run (queries.map Query.request)).2⟩ := by
  have hgeneral : ∀ done : List Job, ∃ schedule,
      run schedule ⟨done ++ queries.map Query.job, s⟩ =
        ⟨done ++ (s.run (queries.map Query.request)).1.map .returned,
          (s.run (queries.map Query.request)).2⟩ := by
    induction queries generalizing s with
    | nil => exact fun done => ⟨[], rfl⟩
    | cons q queries ih =>
        intro done
        have hjob : (done ++ (q :: queries).map Query.job)[done.length]? = some q.job := by simp
        obtain ⟨first, hfirst⟩ := run_leads (Job.leads_query q s) hjob
        obtain ⟨rest, hrest⟩ := ih (s.handle q.request).2
          (done ++ [.returned (s.handle q.request).1])
        refine ⟨first ++ rest, ?_⟩
        rw [run_append, hfirst]
        simpa [System.run] using hrest
  exact hgeneral []

end Traffic

end SegmentManager
