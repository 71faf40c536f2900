import SegmentManager.Proofs.System.Accounts

/-!
# The life of an instance

All calls of a history, taken together, are one ledger.  So every instance that
a manager ever makes is started once, used while it runs, and ended at most
once, by the request that takes it out of the running ones.
-/

namespace SegmentManager.System

open Simulation

variable {W : Type} [Backend W]

def noted (s : System W) : Event W → List Noted
  | .request q => ((s.handle q).2.site.callsAfter s.site.journal.length).map (q, ·)
  | _ => []

def trace : List (Event W) → System W → List Noted
  | [], _ => []
  | e :: events, s => s.noted e ++ trace events (s.after e)

theorem trace_append (events later : List (Event W)) (s : System W) :
    s.trace (events ++ later) = s.trace events ++ (s.replay events).trace later := by
  induction events generalizing s with
  | nil => rfl
  | cons e rest ih =>
      rw [List.cons_append, trace, ih, trace, List.append_assoc]
      rfl

theorem trace_concat (events : List (Event W)) (e : Event W) (s : System W) :
    s.trace (events ++ [e]) = s.trace events ++ (s.replay events).noted e := by
  rw [trace_append, trace, trace, List.append_nil]

variable {created : List Record} {s : System W} {own : Bool}

theorem Coherent.ownProcess_after (hs : s.Coherent created) (e : Event W) :
    (s.after e).manager.deployment.ownProcess = s.manager.deployment.ownProcess := by
  cases e with
  | request q => exact congrArg _ (hs.sameSetup_handle q).deployment
  | regroup members => exact s.manager.ownProcess_withMembers members
  | enter rows => rfl
  | withdraw c => rfl
  | refuse text => rfl
  | elapse change => rfl

theorem Coherent.ledger_noted (hs : s.Coherent created)
    (hown : s.manager.deployment.ownProcess = own) (e : Event W) :
    (s.after e).site.journal = ((s.noted e).map Prod.snd).reverse ++ s.site.journal ∧
      Ledger own s.roster (s.noted e) (s.after e).roster := by
  cases e with
  | request q =>
      obtain ⟨calls, hjournal, hledger⟩ := hs.accounts_handle hown q
      have hnoted : s.noted (.request q) = calls.map (q, ·) :=
        congrArg (List.map (q, ·)) (Site.callsAfter_of_journal_eq hjournal)
      have hcalls : (calls.map (q, ·)).map Prod.snd = calls := by
        rw [List.map_map]
        exact List.map_id calls
      rw [hnoted, hcalls]
      exact ⟨hjournal, hledger⟩
  | regroup members =>
      have hroster : (s.after (.regroup members)).roster = s.roster :=
        Accounts.roster_eq (s.manager.running?_withMembers members) rfl
      refine ⟨rfl, ?_⟩
      rw [hroster]
      exact .nil
  | enter rows => exact ⟨rfl, .nil⟩
  | withdraw c => exact ⟨rfl, .nil⟩
  | refuse text => exact ⟨rfl, .nil⟩
  | elapse change => exact ⟨rfl, .nil⟩

theorem ledger_replay {m : Manager} (hm : m.Fresh) (w : W) {events : List (Event W)}
    (hids : Event.NeverShared events) :
    ((initial m w).replay events).manager.deployment.ownProcess = m.deployment.ownProcess ∧
      ((initial m w).replay events).site.journal =
        (((initial m w).trace events).map Prod.snd).reverse ∧
      Ledger m.deployment.ownProcess .empty ((initial m w).trace events)
        ((initial m w).replay events).roster := by
  revert hids
  induction events using List.reverseRecOn with
  | nil =>
      intro hids
      refine ⟨rfl, rfl, ?_⟩
      have hempty : ((initial m w).replay []).roster = .empty := by
        cases hm with
        | distributed workers g => rfl
        | inProcess hsetup =>
            obtain ⟨openIndexes, rfl, -⟩ := Manager.inProcess_eq_ok hsetup
            rfl
      rw [hempty]
      exact .nil
  | append_singleton events e ih =>
      intro hids
      obtain ⟨hown, hjournal, hledger⟩ := ih hids.of_append
      have hcoherent := coherent_replay hm w hids.of_append
      obtain ⟨hjournal', hledger'⟩ := hcoherent.ledger_noted hown e
      rw [replay_concat, trace_concat]
      refine ⟨(hcoherent.ownProcess_after e).trans hown, ?_, hledger.append hledger'⟩
      rw [hjournal', hjournal, List.map_append, List.reverse_append]

/-- In every history, whatever fails, each instance leads one life: what the
journal tells of it is a start, then uses while it runs, then at most one end.
It runs as long as it lives, and the request that takes it out of the running
ones is the one that ends it. -/
theorem every_instance_leads_one_life {m : Manager} (hm : m.Fresh) (w : W)
    {events : List (Event W)} (hids : Event.NeverShared events) :
    let s := (initial m w).replay events
    let calls := (initial m w).trace events
    let own := m.deployment.ownProcess
    s.site.journal = (calls.map Prod.snd).reverse ∧
    Lifecycles own calls ∧
    (∀ i, s.manager.running? i.record.id = some i ↔ Live (callsOn i calls)) ∧
    ∀ before e after i, events = before ++ e :: after →
      ((initial m w).replay before).manager.running? i.record.id = some i →
      ((initial m w).replay (before ++ [e])).manager.running? i.record.id ≠ some i →
      ∃ uses last, callsOn i (((initial m w).replay before).noted e) = uses ++ [last] ∧
        (∀ a ∈ uses, Request.Passes a.request a.action) ∧
        Request.Ends own last.request last.action := by
  obtain ⟨-, hjournal, hledger⟩ := ledger_replay hm w hids
  refine ⟨hjournal, hledger.lifecycles rfl, (Booked.of_ledger hledger).running_iff, ?_⟩
  rintro before e after i rfl hbefore hafter
  have hids' : Event.NeverShared (before ++ [e]) := by
    rw [List.append_cons] at hids
    exact hids.of_append
  obtain ⟨-, -, hledger⟩ := ledger_replay hm w hids'.of_append
  obtain ⟨-, -, hledger'⟩ := ledger_replay hm w hids'
  rw [trace_concat] at hledger'
  exact (Booked.of_ledger hledger).ended_of_gone (Booked.of_ledger hledger') hbefore hafter

theorem crowded_instance_is_ended :
    ∃ m : Manager, m.Fresh ∧ Event.NeverShared crowded ∧
      let s := (initial m keeperWorld).replay crowded.dropLast
      ∃ i uses last, s.manager.running? i.record.id = some i ∧
        callsOn i (s.noted (.request (.hint (numberedCollection 1).id .add))) = uses ++ [last] ∧
        Request.Ends m.deployment.ownProcess last.request last.action := by
  have hids : Event.NeverShared crowded := by decide +kernel
  have hids' : Event.NeverShared crowded.dropLast := by decide +kernel
  have hgone : ∀ m, Manager.inProcess crowdedSettings keeperRegistry = .ok m →
      (((initial m keeperWorld).replay crowded.dropLast).manager.running?
        (numberedSegment 0 .vector)).isSome = true ∧
      ((initial m keeperWorld).replay crowded).manager.running?
        (numberedSegment 0 .vector) = none := by
    rintro m ⟨⟩
    decide +kernel
  have hm : Manager.inProcess crowdedSettings keeperRegistry = .ok _ := rfl
  refine ⟨_, .inProcess hm, hids, ?_⟩
  obtain ⟨hsome, hnone⟩ := hgone _ hm
  obtain ⟨i, hi⟩ := Option.isSome_iff_exists.mp hsome
  obtain ⟨hid, -⟩ := (coherent_replay (.inProcess hm) keeperWorld hids').manager.running _ i hi
  obtain ⟨-, -, -, hends⟩ := every_instance_leads_one_life (.inProcess hm) keeperWorld hids
  obtain ⟨uses, last, hcalls, -, hlast⟩ := hends crowded.dropLast
    (.request (.hint (numberedCollection 1).id .add)) [] i rfl (by rw [hid]; exact hi) (by
      rw [hid]
      exact hnone.trans_ne (by simp))
  refine ⟨i, uses, last, ?_, hcalls, hlast⟩
  rw [hid]
  exact hi

end SegmentManager.System
