import SegmentManager.Proofs.System.Interleaving
import SegmentManager.Proofs.System.Rush

/-!
# Shared instances

Where no memory budget makes records leave, lookups may be under way at the same
time in any number and take their steps in any order.  Whatever fails among
them, each segment is started once for all, and what they leave behind is what
one lookup after another would have left.
-/

namespace SegmentManager

open Simulation

variable {W : Type} [Backend W]

def Call.starts (segment : SegmentId) : Call → Bool
  | .act .start i true => i.record.id = segment
  | _ => false

namespace Traffic

def Answered (x : Traffic W) (n : Nat) (answer : Except Fault Reply) : Prop :=
  x.jobs[n]? = some (.returned answer)

theorem Answered.turn {x : Traffic W} {n : Nat} {answer : Except Fault Reply}
    (hanswered : x.Answered n answer) (m : Nat) : (x.turn m).Answered n answer := by
  unfold Answered at hanswered ⊢
  by_cases hn : m = n
  · subst hn
    exact job_turn hanswered
  · rw [job_turn_ne hn]
    exact hanswered

end Traffic

namespace System

/-- Since a state, the segments that came to run were started once and the
others never. -/
def StartsOnce (s₀ s : System W) : Prop :=
  ∃ calls : List Call, s.site.journal = calls.reverse ++ s₀.site.journal ∧
    ∀ segment, calls.countP (Call.starts segment) =
      if s₀.manager.running? segment = none ∧ (s.manager.running? segment).isSome then 1 else 0

omit [Backend W] in
theorem startsOnce_refl (s : System W) : StartsOnce s s := by
  refine ⟨[], rfl, ?_⟩
  intro segment
  cases hrunning : s.manager.running? segment <;> simp

omit [Backend W] in
theorem StartsOnce.step {created : List Record} {s₀ s s' : System W} {c : CollectionId}
    {k : Capability} {job : Job} (h : StartsOnce s₀ s) (hgrows : s₀.Grows s)
    (hbrings : job.Brings created s₀ s s' c k) : StartsOnce s₀ s' := by
  obtain ⟨made, hmade, hcount⟩ := h
  cases hbrings with
  | nothing hrunning hcached hjournal hcalls =>
      rename_i calls
      refine ⟨made ++ calls, by rw [hjournal, hmade, List.reverse_append, List.append_assoc], ?_⟩
      intro segment
      have hnone : calls.countP (Call.starts segment) = 0 := by
        rw [List.countP_eq_zero]
        intro call hmem
        have hfruitless := hcalls call hmem
        cases call with
        | build r ok => simp [Call.starts]
        | act action i ok =>
            cases action with
            | start => simp [Call.starts, hfruitless.1]
            | _ => simp [Call.starts]
      rw [List.countP_append, hcount, hnone, hrunning, Nat.add_zero]
  | launch habsent hrecord hrunning hcached hjournal howes =>
      rename_i r i
      refine ⟨made ++ [.build r true, .act .start i true], by simp [hjournal, hmade], ?_⟩
      intro segment
      have hadded : [Call.build r true, .act .start i true].countP (Call.starts segment) =
          if segment = r.id then 1 else 0 := by
        simp [List.countP_cons, Call.starts, hrecord, eq_comm]
      rw [List.countP_append, hcount, hadded, hrunning]
      by_cases hsegment : segment = r.id
      · subst hsegment
        have hbefore : s₀.manager.running? r.id = none := by
          cases hstart : s₀.manager.running? r.id with
          | none => rfl
          | some j =>
              rw [hgrows.running r.id j hstart] at habsent
              cases habsent
        simp [habsent, hbefore]
      · simp [hsegment]
  | entry hchosen hkept hrunning hcached hjournal =>
      refine ⟨made, hjournal.trans hmade, ?_⟩
      intro segment
      rw [hcount, hrunning]

end System

structure Rushing (created : List Record) (s₀ : System W)
    (calls : List (CollectionId × Capability)) (x : Traffic W) : Prop where
  coherent : x.system.Coherent created
  keeps : s₀.Keeps x.system
  grows : s₀.Grows x.system
  stands : ∀ (n : Nat) (job : Job), x.jobs[n]? = some job →
    ∃ c k, calls[n]? = some (c, k) ∧ job.Stands created s₀ x.system c k
  cached : ∀ k c r, x.system.manager.cached? k c = some r →
    s₀.manager.cached? k c = some r ∨ s₀.Chosen created c k r ∧
      ∃ n i, calls[n]? = some (c, k) ∧ x.Answered n (.ok (.served i))
  started : s₀.StartsOnce x.system

namespace Rushing

variable {created : List Record} {s₀ : System W} {calls : List (CollectionId × Capability)}
  {x : Traffic W}

omit [Backend W] in
theorem start (hs : s₀.Coherent created) (calls : List (CollectionId × Capability)) :
    Rushing created s₀ calls (.start (calls.map fun call => .get call.1 call.2) s₀) := by
  refine ⟨hs, .refl s₀, .refl s₀, ?_, fun k c r hcached => .inl hcached,
    System.startsOnce_refl s₀⟩
  intro n job hjob
  simp only [Traffic.start, List.map_map, List.getElem?_map, Option.map_eq_some_iff] at hjob
  obtain ⟨⟨c, k⟩, hcall, rfl⟩ := hjob
  exact ⟨c, k, hcall, .consult⟩

omit [Backend W] in
theorem limits (hx : Rushing created s₀ calls x)
    (hlimit : ∀ k, s₀.manager.deployment.limit? k = none) (k : Capability) :
    x.system.manager.deployment.limit? k = none := by
  rw [hx.keeps.setup.deployment]
  exact hlimit k

theorem advances (hx : Rushing created s₀ calls x)
    (hlimit : ∀ k, s₀.manager.deployment.limit? k = none) {n : Nat} {job : Job}
    (hjob : x.jobs[n]? = some job) :
    ∃ c k, calls[n]? = some (c, k) ∧
      Job.Advances created s₀ x.system (job.step x.system).2 c k (job.step x.system).1 := by
  obtain ⟨c, k, hcall, hstands⟩ := hx.stands n job hjob
  refine ⟨c, k, hcall, hstands.advances hx.coherent (hx.limits hlimit k) hx.keeps hx.grows ?_⟩
  intro r hcached
  exact (hx.cached k c r hcached).imp id And.left

/-- What is cached after a turn was cached before, or the turn is that of a call
which then has its answer. -/
theorem cached_turn (hx : Rushing created s₀ calls x)
    (hlimit : ∀ k, s₀.manager.deployment.limit? k = none) {n : Nat} {job : Job}
    (hjob : x.jobs[n]? = some job) {j : Capability} {d : CollectionId} {r : Record}
    (hcached : (job.step x.system).2.manager.cached? j d = some r) :
    s₀.manager.cached? j d = some r ∨ s₀.Chosen created d j r ∧
      ∃ n' i, calls[n']? = some (d, j) ∧ (x.turn n).Answered n' (.ok (.served i)) := by
  have hold : x.system.manager.cached? j d = some r →
      s₀.manager.cached? j d = some r ∨ s₀.Chosen created d j r ∧
        ∃ n' i, calls[n']? = some (d, j) ∧ (x.turn n).Answered n' (.ok (.served i)) := by
    intro hbefore
    refine (hx.cached j d r hbefore).imp id ?_
    rintro ⟨hchosen, n', i, hcall, hanswered⟩
    exact ⟨hchosen, n', i, hcall, hanswered.turn n⟩
  obtain ⟨c, k, hcall, hadvances⟩ := hx.advances hlimit hjob
  have hnext := Traffic.job_turn hjob
  have hbrings := hadvances.brings
  generalize (job.step x.system).1 = next at hnext hbrings
  cases hbrings with
  | nothing hrunning hsame hjournal hcalls =>
      rw [hsame] at hcached
      exact hold hcached
  | launch habsent hrecord hrunning hsame hjournal howes =>
      rw [hsame] at hcached
      exact hold hcached
  | entry hchosen hkept hrunning hentry hjournal =>
      rename_i written i
      rw [hentry] at hcached
      split at hcached
      · rename_i hplace
        obtain ⟨rfl, rfl⟩ := hplace
        obtain rfl := Option.some.inj hcached
        exact .inr ⟨hchosen, n, i, hcall, hnext⟩
      · exact hold hcached

theorem turn (hx : Rushing created s₀ calls x)
    (hlimit : ∀ k, s₀.manager.deployment.limit? k = none) (n : Nat) :
    Rushing created s₀ calls (x.turn n) := by
  cases hjob : x.jobs[n]? with
  | none =>
      rw [Traffic.turn_of_none hjob]
      exact hx
  | some job =>
      obtain ⟨c, k, hcall, hadvances⟩ := hx.advances hlimit hjob
      have hgrows := hadvances.brings.grows
      have hsystem := Traffic.system_turn hjob
      rw [← hsystem] at hgrows
      refine ⟨?_, ?_, hx.grows.trans hgrows, ?_, ?_, ?_⟩
      · rw [hsystem]
        exact hadvances.coherent
      · rw [hsystem]
        exact hx.keeps.trans (job.affects_step x.system).keeps
      · intro n' job' hjob'
        by_cases hn : n = n'
        · subst hn
          rw [Traffic.job_turn hjob] at hjob'
          obtain rfl := Option.some.inj hjob'
          rw [hsystem]
          exact ⟨c, k, hcall, hadvances.stands⟩
        · rw [Traffic.job_turn_ne hn] at hjob'
          obtain ⟨d, j, hcall', hstands⟩ := hx.stands n' job' hjob'
          exact ⟨d, j, hcall', hstands.mono hgrows⟩
      · intro j d r hcached
        rw [hsystem] at hcached
        exact hx.cached_turn hlimit hjob hcached
      · rw [hsystem]
        exact hx.started.step hx.grows hadvances.brings

theorem run (hx : Rushing created s₀ calls x)
    (hlimit : ∀ k, s₀.manager.deployment.limit? k = none) (schedule : List Nat) :
    Rushing created s₀ calls (x.run schedule) := by
  induction schedule generalizing x with
  | nil => exact hx
  | cons n schedule ih => exact ih (hx.turn hlimit n)

theorem owes_turn (hx : Rushing created s₀ calls x)
    (hlimit : ∀ k, s₀.manager.deployment.limit? k = none) {n : Nat} {job : Job} {i : Instance}
    (hjob : x.jobs[n]? = some job) (howes : job.Owes x.system i) (m : Nat) :
    ∃ job', (x.turn m).jobs[n]? = some job' ∧ job'.Owes (x.turn m).system i := by
  by_cases hm : m = n
  · subst hm
    refine ⟨_, Traffic.job_turn hjob, ?_⟩
    rw [Traffic.system_turn hjob]
    exact howes.step hx.coherent (hx.limits hlimit)
  · refine ⟨job, (Traffic.job_turn_ne hm).trans hjob, ?_⟩
    cases hturning : x.jobs[m]? with
    | none =>
        rw [Traffic.turn_of_none hturning]
        exact howes
    | some turning =>
        obtain ⟨c, k, -, hadvances⟩ := hx.advances hlimit hturning
        rw [Traffic.system_turn hturning]
        exact howes.mono hadvances.brings.grows

/-- A lookup that owes an instance comes to answer with no other. -/
theorem owes_run (hx : Rushing created s₀ calls x)
    (hlimit : ∀ k, s₀.manager.deployment.limit? k = none) {n : Nat} {job : Job} {i : Instance}
    (hjob : x.jobs[n]? = some job) (howes : job.Owes x.system i) (schedule : List Nat) :
    ∃ job', (x.run schedule).jobs[n]? = some job' ∧ job'.Owes (x.run schedule).system i := by
  induction schedule generalizing x job with
  | nil => exact ⟨job, hjob, howes⟩
  | cons m schedule ih =>
      obtain ⟨job', hjob', howes'⟩ := hx.owes_turn hlimit hjob howes m
      exact ih (hx.turn hlimit m) hjob' howes'

end Rushing

namespace System

def rush (calls : List (CollectionId × Capability)) (schedule : List Nat) (s : System W) :
    Traffic W :=
  (Traffic.start (calls.map fun call => .get call.1 call.2) s).run schedule

structure SharesInstances (calls : List (CollectionId × Capability)) (schedule : List Nat)
    (s : System W) : Prop where
  /-- A segment that came to run was started successfully once, and any other
  segment never. -/
  starts : ∀ segment,
    ((s.rush calls schedule).system.site.callsAfter s.site.journal.length).countP
        (Call.starts segment) =
      if s.manager.running? segment = none ∧
        ((s.rush calls schedule).system.manager.running? segment).isSome then 1 else 0
  /-- No step tries to start a segment that runs. -/
  attempts : ∀ before n later, schedule = before ++ n :: later → ∀ i ok,
    Call.act .start i ok ∈ (s.rush calls (before ++ [n])).system.site.callsAfter
        (s.rush calls before).system.site.journal.length →
      (s.rush calls before).system.manager.running? i.record.id = none
  /-- Callers that are served from one segment get the same instance. -/
  shared : ∀ n n' i i', (s.rush calls schedule).Answered n (.ok (.served i)) →
    (s.rush calls schedule).Answered n' (.ok (.served i')) → i.record.id = i'.record.id → i = i'
  /-- A lookup that is about to acquire a segment that runs does not fail. -/
  served : ∀ before later n c k r cached i, schedule = before ++ later →
    (s.rush calls before).jobs[n]? = some (.lookup (.serve k) c (.acquire r cached)) →
    (s.rush calls before).system.manager.running? r.id = some i →
    ∀ answer, (s.rush calls schedule).Answered n answer → answer = .ok (.served i)
  /-- No step of a lookup that fails has changed what runs or is cached. -/
  failed : ∀ before n later fault, schedule = before ++ n :: later →
    (s.rush calls schedule).Answered n (.error fault) →
    (∀ segment, (s.rush calls (before ++ [n])).system.manager.running? segment =
      (s.rush calls before).system.manager.running? segment) ∧
    ∀ k c, (s.rush calls (before ++ [n])).system.manager.cached? k c =
      (s.rush calls before).system.manager.cached? k c
  grows : s.Grows (s.rush calls schedule).system
  /-- What is cached runs, and was cached before or by a lookup that has returned. -/
  cached : ∀ k c r, (s.rush calls schedule).system.manager.cached? k c = some r →
    (∃ i, (s.rush calls schedule).system.manager.running? r.id = some i) ∧
      (s.manager.cached? k c = some r ∨ ∃ n i, calls[n]? = some (c, k) ∧
        (s.rush calls schedule).Answered n (.ok (.served i)))
  /-- What a caller was served with is what serves later lookups. -/
  remembered : ∀ n c k i, calls[n]? = some (c, k) →
    (s.rush calls schedule).Answered n (.ok (.served i)) →
    (s.rush calls schedule).system.manager.Serving k c i

/-- The states between calls: events come one at a time, and lookups also many
at a time.  Lookups that cross a deletion or an eviction are not among the ways to such
a state; what they may leave behind is the subject of `Proofs.System.Ghosts`. -/
inductive Quiescent (m : Manager) (w : W) : List Record → System W → Prop
  | initial : Quiescent m w [] (initial m w)
  | event {created : List Record} {s : System W} (hs : Quiescent m w created s) (e : Event W)
      (hids : ((created ++ e.entered).map (·.id)).Nodup) :
      Quiescent m w (created ++ e.entered) (s.after e)
  | rush {created : List Record} {s : System W} (hs : Quiescent m w created s)
      (calls : List (CollectionId × Capability)) (schedule : List Nat)
      (hdone : ∀ job ∈ (s.rush calls schedule).jobs, ∃ answer, job = .returned answer) :
      Quiescent m w created (s.rush calls schedule).system

theorem Coherent.limit?_after {created : List Record} {s : System W} (hs : s.Coherent created)
    (e : Event W) (k : Capability) :
    (s.after e).manager.deployment.limit? k = s.manager.deployment.limit? k := by
  cases e with
  | request q => exact congrArg (·.limit? k) (hs.sameSetup_handle q).deployment
  | regroup members => exact s.manager.limit?_withMembers members k
  | enter rows => rfl
  | withdraw c => rfl
  | refuse text => rfl
  | elapse change => rfl

section

variable {created : List Record} {s : System W} {calls : List (CollectionId × Capability)}

theorem Coherent.rushing (hs : s.Coherent created)
    (hlimit : ∀ k, s.manager.deployment.limit? k = none)
    (calls : List (CollectionId × Capability)) (schedule : List Nat) :
    Rushing created s calls (s.rush calls schedule) :=
  (Rushing.start hs calls).run hlimit schedule

theorem Quiescent.coherent {m : Manager} (hm : m.Fresh)
    (hlimit : ∀ k, m.deployment.limit? k = none) {w : W} (hs : Quiescent m w created s) :
    s.Coherent created ∧ ∀ k, s.manager.deployment.limit? k = none := by
  induction hs with
  | initial => exact ⟨coherent_initial hm w, hlimit⟩
  | event hs e hids ih =>
      obtain ⟨hcoherent, hnone⟩ := ih
      refine ⟨hcoherent.after e hids, ?_⟩
      intro k
      rw [hcoherent.limit?_after]
      exact hnone k
  | rush hs calls schedule hdone ih =>
      obtain ⟨hcoherent, hnone⟩ := ih
      have hrushing := hcoherent.rushing hnone calls schedule
      exact ⟨hrushing.coherent, hrushing.limits hnone⟩

theorem rush_append (calls : List (CollectionId × Capability)) (before later : List Nat)
    (s : System W) : s.rush calls (before ++ later) = (s.rush calls before).run later :=
  Traffic.run_append before later _

theorem rush_concat (calls : List (CollectionId × Capability)) (before : List Nat) (n : Nat)
    (s : System W) : s.rush calls (before ++ [n]) = (s.rush calls before).turn n :=
  Traffic.run_concat before n _

theorem absent_of_attempt (hs : s.Coherent created)
    (hlimit : ∀ k, s.manager.deployment.limit? k = none) (before : List Nat) (n : Nat)
    {i : Instance} {ok : Bool}
    (hmem : Call.act .start i ok ∈ (s.rush calls (before ++ [n])).system.site.callsAfter
      (s.rush calls before).system.site.journal.length) :
    (s.rush calls before).system.manager.running? i.record.id = none := by
  have hrushing := hs.rushing hlimit calls before
  cases hjob : (s.rush calls before).jobs[n]? with
  | none =>
      have hcalls : (s.rush calls before).system.site.journal =
          ([] : List Call).reverse ++ (s.rush calls before).system.site.journal := rfl
      rw [rush_concat, Traffic.turn_of_none hjob, Site.callsAfter_of_journal_eq hcalls] at hmem
      cases hmem
  | some job =>
      obtain ⟨c, k, -, hadvances⟩ := hrushing.advances hlimit hjob
      rw [rush_concat, Traffic.system_turn hjob] at hmem
      exact hadvances.brings.absent_of_start hmem

theorem served_of_running (hs : s.Coherent created)
    (hlimit : ∀ k, s.manager.deployment.limit? k = none) (before later : List Nat) {n : Nat}
    {job : Job} {i : Instance} (hjob : (s.rush calls before).jobs[n]? = some job)
    (howes : job.Owes (s.rush calls before).system i) {answer : Except Fault Reply}
    (hanswered : (s.rush calls (before ++ later)).Answered n answer) :
    answer = .ok (.served i) := by
  have hrushing := hs.rushing hlimit calls before
  obtain ⟨job', hjob', howes'⟩ := hrushing.owes_run hlimit hjob howes later
  rw [← rush_append] at hjob'
  unfold Traffic.Answered at hanswered
  rw [hanswered] at hjob'
  obtain rfl := Option.some.inj hjob'
  exact howes'.eq

theorem same_of_failed (hs : s.Coherent created)
    (hlimit : ∀ k, s.manager.deployment.limit? k = none) (before later : List Nat) {n : Nat}
    {fault : Fault}
    (hanswered : (s.rush calls (before ++ n :: later)).Answered n (.error fault)) :
    (∀ segment, (s.rush calls (before ++ [n])).system.manager.running? segment =
      (s.rush calls before).system.manager.running? segment) ∧
    ∀ k c, (s.rush calls (before ++ [n])).system.manager.cached? k c =
      (s.rush calls before).system.manager.cached? k c := by
  have hrushing := hs.rushing hlimit calls before
  cases hjob : (s.rush calls before).jobs[n]? with
  | none =>
      rw [rush_concat, Traffic.turn_of_none hjob]
      exact ⟨fun _ => rfl, fun _ _ => rfl⟩
  | some job =>
      obtain ⟨c, k, -, hadvances⟩ := hrushing.advances hlimit hjob
      have hsystem := Traffic.system_turn hjob
      have hnext := Traffic.job_turn hjob
      rw [← rush_concat] at hsystem hnext
      rcases hadvances.brings.owes_or_same with ⟨i, howes⟩ | hsame
      · rw [← hsystem] at howes
        rw [List.append_cons] at hanswered
        cases served_of_running hs hlimit (before ++ [n]) later hnext howes hanswered
      · rw [hsystem]
        exact hsame

theorem serving_of_answered (hs : s.Coherent created)
    (hlimit : ∀ k, s.manager.deployment.limit? k = none) {schedule : List Nat} {n : Nat}
    {i : Instance} (hanswered : (s.rush calls schedule).Answered n (.ok (.served i))) :
    ∃ c k, calls[n]? = some (c, k) ∧ (s.rush calls schedule).system.manager.Serving k c i := by
  obtain ⟨c, k, hcall, hstands⟩ := (hs.rushing hlimit calls schedule).stands n _ hanswered
  refine ⟨c, k, hcall, ?_⟩
  cases hstands with
  | served hserving => exact hserving

end

/-- Lookups at the same time share instances: in whatever order they take their
steps, and whatever fails, each segment is started once for all of them. -/
theorem concurrent_lookups_share_instances {m : Manager} (hm : m.Fresh)
    (hlimit : ∀ k, m.deployment.limit? k = none) {w : W} {created : List Record} {s : System W}
    (hs : Quiescent m w created s) (calls : List (CollectionId × Capability))
    (schedule : List Nat) : s.SharesInstances calls schedule := by
  obtain ⟨hcoherent, hnone⟩ := hs.coherent hm hlimit
  have hrushing := hcoherent.rushing hnone calls schedule
  refine ⟨?_, ?_, ?_, ?_, ?_, hrushing.grows, ?_, ?_⟩
  · intro segment
    obtain ⟨made, hjournal, hcount⟩ := hrushing.started
    rw [Site.callsAfter_of_journal_eq hjournal]
    exact hcount segment
  · intro before n later hschedule i ok hmem
    exact absent_of_attempt hcoherent hnone before n hmem
  · intro n n' i i' hanswered hanswered' hid
    obtain ⟨c, k, -, hserving⟩ := serving_of_answered hcoherent hnone hanswered
    obtain ⟨c', k', -, hserving'⟩ := serving_of_answered hcoherent hnone hanswered'
    have hrunning := hrushing.coherent.running_of_serving hserving
    have hrunning' := hrushing.coherent.running_of_serving hserving'
    rw [← hid, hrunning] at hrunning'
    exact Option.some.inj hrunning'
  · rintro before later n c k r cached i rfl hjob hrunning answer hanswered
    exact served_of_running hcoherent hnone before later hjob (.acquire hrunning) hanswered
  · rintro before n later fault rfl hanswered
    exact same_of_failed hcoherent hnone before later hanswered
  · intro k c r hcached
    refine ⟨(hrushing.coherent.manager.cached k c r hcached).2, ?_⟩
    exact (hrushing.cached k c r hcached).imp id And.right
  · intro n c k i hcall hanswered
    obtain ⟨c', k', hcall', hserving⟩ := serving_of_answered hcoherent hnone hanswered
    rw [hcall] at hcall'
    obtain ⟨rfl, rfl⟩ := Prod.mk.inj (Option.some.inj hcall')
    exact hserving

def servedWith? (x : Traffic W) (n : Nat) : Option Instance :=
  match x.jobs[n]? with
  | some (.returned (.ok (.served i))) => some i
  | _ => none

omit [Backend W] in
theorem answered_of_servedWith? {x : Traffic W} {n : Nat} {i : Instance}
    (hserved : servedWith? x n = some i) : x.Answered n (.ok (.served i)) := by
  unfold servedWith? at hserved
  split at hserved
  · rename_i j hjob
    obtain rfl := Option.some.inj hserved
    exact hjob
  · cases hserved

def threeCalls : List (CollectionId × Capability) :=
  [((numberedCollection 0).id, .vectorReader), ((numberedCollection 0).id, .vectorReader),
   ((numberedCollection 1).id, .vectorReader)]

theorem two_callers_share_vectors :
    ∃ m, Manager.inProcess spaciousSettings keeperRegistry = .ok m ∧
      (∀ k, m.deployment.limit? k = none) ∧
      let s := (initial m keeperWorld).after (.enter (numberedRows 0))
      let x := s.rush threeCalls [0, 1, 2, 0, 1, 2, 1, 0, 0, 1]
      ∃ i, x.Answered 0 (.ok (.served i)) ∧ x.Answered 1 (.ok (.served i)) ∧
        x.system.manager.Serving .vectorReader (numberedCollection 0).id i := by
  have hready : ∀ m, Manager.inProcess spaciousSettings keeperRegistry = .ok m →
      let s := (initial m keeperWorld).after (.enter (numberedRows 0))
      let x := s.rush threeCalls [0, 1, 2, 0, 1, 2, 1, 0, 0, 1]
      (servedWith? x 0).isSome = true ∧ (servedWith? x 1).isSome = true := by
    rintro m ⟨⟩
    decide +kernel
  have hlimits : ∀ m, Manager.inProcess spaciousSettings keeperRegistry = .ok m →
      ∀ k, m.deployment.limit? k = none := by
    rintro m ⟨⟩ k
    cases k <;> rfl
  obtain ⟨m, hm⟩ : ∃ m, Manager.inProcess spaciousSettings keeperRegistry = .ok m := ⟨_, rfl⟩
  have hlimit := hlimits m hm
  have hids : ((([] : List Record) ++ numberedRows 0).map (·.id)).Nodup := by decide +kernel
  have hquiet : Quiescent m keeperWorld ([] ++ numberedRows 0)
      ((initial m keeperWorld).after (.enter (numberedRows 0))) :=
    .event .initial (.enter (numberedRows 0)) hids
  have hshares := concurrent_lookups_share_instances (.inProcess hm) hlimit hquiet threeCalls
    [0, 1, 2, 0, 1, 2, 1, 0, 0, 1]
  obtain ⟨hfirst, hsecond⟩ := hready m hm
  obtain ⟨i, hi⟩ := Option.isSome_iff_exists.mp hfirst
  obtain ⟨i', hi'⟩ := Option.isSome_iff_exists.mp hsecond
  have hserving := hshares.remembered 0 _ _ i rfl (answered_of_servedWith? hi)
  have hserving' := hshares.remembered 1 _ _ i' rfl (answered_of_servedWith? hi')
  obtain ⟨r, hcached, hrunning⟩ := hserving
  obtain ⟨r', hcached', hrunning'⟩ := hserving'
  rw [hcached] at hcached'
  obtain rfl := Option.some.inj hcached'
  rw [hrunning] at hrunning'
  obtain rfl := Option.some.inj hrunning'
  exact ⟨m, hm, hlimit, i, answered_of_servedWith? hi, answered_of_servedWith? hi', r, hcached,
    hrunning⟩

end System

end SegmentManager
