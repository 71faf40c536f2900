import SegmentManager.Proofs.System.Alterations
import SegmentManager.Proofs.System.History

/-!
# What was counted before

Nothing that a manager does depends on what it has counted.  A manager that starts
with a credit on its counters goes through every history as one without, with the
same answers and the same calls, and at the end the credit is still there.
-/

namespace SegmentManager

def OpenIndexes.credited (undersized : Nat) (o : OpenIndexes) : OpenIndexes :=
  { o with undersized := o.undersized + undersized }

def Manager.credited (extra : Counters) (undersized : Nat) (m : Manager) : Manager :=
  { m with
    openIndexes := m.openIndexes.map (·.credited undersized)
    counters := m.counters + extra }

namespace System

variable {W : Type}

def credited (extra : Counters) (undersized : Nat) (s : System W) : System W :=
  { s with manager := s.manager.credited extra undersized }

variable (extra : Counters) (undersized : Nat)

theorem tally_credited (amount : Counters) (s : System W) :
    { s.credited extra undersized with
      manager := (s.credited extra undersized).manager.tally (· + amount) } =
    credited extra undersized { s with manager := s.manager.tally (· + amount) } := by
  unfold credited Manager.credited Manager.tally
  rw [Counters.add_right_comm]

theorem untrack_credited (c : CollectionId) (s : System W) :
    (s.credited extra undersized).untrack c = (s.untrack c).credited extra undersized := by
  unfold untrack credited Manager.credited
  cases s.manager.openIndexes <;> rfl

theorem commutes_credited : Commutes (credited extra undersized : System W → System W) where
  kinds _ := rfl
  root _ := rfl
  instances _ := rfl
  site _ := rfl
  settle _ _ _ := rfl
  untrack s c := untrack_credited extra undersized c s
  tally amount s := tally_credited extra undersized amount s

theorem records_credited (scope : Scope) (s : System W) :
    (s.credited extra undersized).manager.records scope = s.manager.records scope := by
  cases scope <;> rfl

theorem withRecords_credited (scope : Scope) (cache : RecordCache) (s : System W) :
    { s.credited extra undersized with
      manager := (s.credited extra undersized).manager.withRecords scope cache } =
    credited extra undersized { s with manager := s.manager.withRecords scope cache } := by
  cases scope <;> rfl

/-! ## Lookups -/

theorem consult_credited (c : CollectionId) (scope : Scope) (s : System W) :
    (s.credited extra undersized).consult c scope =
      ((s.consult c scope).1, (s.consult c scope).2.credited extra undersized) := by
  unfold consult
  rw [records_credited]
  cases (s.manager.records scope).touch c with
  | mk found cache =>
      have hcached := withRecords_credited extra undersized scope cache s
      refine congrArg (Prod.mk found) ?_
      cases found with
      | none =>
          have hcounted := tally_credited extra undersized { misses := 1 }
            { s with manager := s.manager.withRecords scope cache }
          rw [← hcached] at hcounted
          exact hcounted
      | some r =>
          have hcounted := tally_credited extra undersized { hits := 1 }
            { s with manager := s.manager.withRecords scope cache }
          rw [← hcached] at hcounted
          exact hcounted

theorem readCatalog_credited (c : CollectionId) (scope : Option Scope) (s : System W) :
    (s.credited extra undersized).readCatalog c scope =
      ((s.readCatalog c scope).1, (s.readCatalog c scope).2.credited extra undersized) := by
  have hcounted := tally_credited extra undersized { fetches := 1 }
    { s with catalog := (s.catalog.read c scope).2 }
  exact Prod.ext rfl hcounted

theorem fetch_credited (c : CollectionId) (scope : Scope) (s : System W) :
    (s.credited extra undersized).fetch c scope =
      ((s.fetch c scope).1, (s.fetch c scope).2.credited extra undersized) := by
  unfold fetch
  rw [readCatalog_credited]
  cases s.readCatalog c (some scope) with
  | mk answer next => cases answer <;> rfl

theorem forget_credited (c : CollectionId) (scope : Scope) (s : System W) :
    (s.credited extra undersized).forget c scope =
      (s.forget c scope).credited extra undersized := by
  unfold forget
  rw [records_credited, withRecords_credited]

variable [Backend W]

theorem remember_credited (r : Record) (scope : Scope) (s : System W) :
    (s.credited extra undersized).remember r scope =
      (s.remember r scope).credited extra undersized := by
  have hfootprint := (commutes_credited extra undersized).footprint s r
  have hdisplaced : (s.credited extra undersized).displaced r scope = s.displaced r scope := by
    unfold displaced
    rw [hfootprint, records_credited]
  have hcaching : (s.credited extra undersized).caching r scope =
      (s.caching r scope).credited extra undersized := by
    unfold caching
    simp only [hfootprint, records_credited, withRecords_credited]
  rw [remember_eq, remember_eq, hdisplaced, hcaching,
    (commutes_credited extra undersized).evictAll]

theorem getSegment_credited (c : CollectionId) (k : Capability) (s : System W) :
    (s.credited extra undersized).getSegment c k =
      ((s.getSegment c k).1, (s.getSegment c k).2.credited extra undersized) := by
  simp only [getSegment, consult_credited]
  cases s.consult c k.scope with
  | mk found next =>
      cases found with
      | some r =>
          simp only [(commutes_credited extra undersized).acquire]
          cases next.acquire r with
          | mk answer last =>
              cases answer with
              | ok i => rfl
              | error fault =>
                  exact congrArg (Prod.mk _) (forget_credited extra undersized _ _ last)
      | none =>
          simp only [fetch_credited]
          cases next.fetch c k.scope with
          | mk answer later =>
              cases answer with
              | error fault => rfl
              | ok r =>
                  simp only [(commutes_credited extra undersized).acquire]
                  cases later.acquire r with
                  | mk answer last =>
                      cases answer with
                      | ok i =>
                          exact congrArg (Prod.mk _) (remember_credited extra undersized r _ last)
                      | error fault => rfl

theorem getSegmentNamed_credited (c : CollectionId) (name : String) (s : System W) :
    (s.credited extra undersized).getSegmentNamed c name =
      ((s.getSegmentNamed c name).1, (s.getSegmentNamed c name).2.credited extra undersized) := by
  unfold getSegmentNamed
  cases Capability.ofName? name with
  | none => rfl
  | some k => exact getSegment_credited extra undersized c k s

/-! ## Hints -/

theorem track_credited (c : CollectionId) (i : Instance) (o : OpenIndexes) (site : Site W) :
    (o.credited undersized).track c i site =
      ((o.track c i site).1, (o.track c i site).2.1.credited undersized,
        (o.track c i site).2.2) := by
  unfold OpenIndexes.track
  split
  · cases site.perform .openIndex i with
    | mk outcome site =>
        cases outcome with
        | error fault => rfl
        | ok done =>
            by_cases hmore : o.handlesPerIndex.any (· < site.heldHandles i) = true
            · simp [OpenIndexes.credited, hmore, Nat.add_right_comm]
            · simp [OpenIndexes.credited, hmore]
  · rfl

theorem trackIndex_credited (c : CollectionId) (i : Instance) (s : System W) :
    (s.credited extra undersized).trackIndex c i =
      ((s.trackIndex c i).1, (s.trackIndex c i).2.credited extra undersized) := by
  have hopen : (s.credited extra undersized).manager.openIndexes =
      s.manager.openIndexes.map (·.credited undersized) := rfl
  have hsite : (s.credited extra undersized).site = s.site := rfl
  unfold trackIndex
  rw [hopen, hsite]
  cases s.manager.openIndexes with
  | none => rfl
  | some o =>
      simp only [Option.map_some, track_credited]
      split
      · cases o.track c i s.site with
        | mk outcome rest =>
            obtain ⟨tracked, site⟩ := rest
            cases outcome with
            | error fault => rfl
            | ok closed =>
                exact congrArg (Prod.mk _) (tally_credited extra undersized
                  { handleEvictions := closed.length }
                  { s with manager := { s.manager with openIndexes := some tracked }, site })
      · rfl

theorem hint_credited (c : CollectionId) (operation : Operation) (s : System W) :
    (s.credited extra undersized).hint c operation =
      ((s.hint c operation).1, (s.hint c operation).2.credited extra undersized) := by
  have hdeployment : (s.credited extra undersized).manager.deployment = s.manager.deployment := rfl
  unfold hint
  rw [hdeployment]
  cases s.manager.deployment with
  | distributed workers => rfl
  | inProcess settings =>
      simp only [getSegment_credited]
      cases s.getSegment c .metadataReader with
      | mk answer next =>
          cases answer with
          | error fault => rfl
          | ok i =>
              simp only [getSegment_credited]
              cases next.getSegment c .vectorReader with
              | mk answer last =>
                  cases answer with
                  | error fault => rfl
                  | ok j => exact trackIndex_credited extra undersized c j last

/-! ## Taking down -/

omit [Backend W] in
theorem forgetAll_credited (c : CollectionId) (s : System W) :
    (s.credited extra undersized).forgetAll c =
      (s.forgetAll c).credited extra undersized := by
  unfold forgetAll
  rw [forget_credited, forget_credited, untrack_credited]

theorem deleteSegments_credited (c : CollectionId) (s : System W) :
    (s.credited extra undersized).deleteSegments c =
      ((s.deleteSegments c).1, (s.deleteSegments c).2.credited extra undersized) := by
  unfold deleteSegments
  rw [readCatalog_credited]
  cases s.readCatalog c none with
  | mk answer next =>
      cases answer with
      | error fault => rfl
      | ok rows =>
          have hdeployment : (next.credited extra undersized).manager.deployment =
              next.manager.deployment := rfl
          simp only [hdeployment]
          cases next.manager.deployment with
          | distributed workers =>
              simp only [(commutes_credited extra undersized).releaseEach, forgetAll_credited]
          | inProcess settings =>
              simp only [(commutes_credited extra undersized).deleteEach]
              cases deleteEach (rows.map (·.id)) next with
              | mk outcome last =>
                  obtain ⟨completed, failure⟩ := outcome
                  cases failure <;> simp only [forgetAll_credited]

theorem reset_credited (order : List SegmentId) (s : System W) :
    (s.credited extra undersized).reset order =
      ((s.reset order).1, (s.reset order).2.credited extra undersized) := by
  unfold reset performAll credited Manager.credited
  cases s.manager.openIndexes <;> rfl

/-! ## Histories -/

theorem handle_credited (q : Request) (s : System W) :
    (s.credited extra undersized).handle q =
      ((s.handle q).1, (s.handle q).2.credited extra undersized) := by
  have hreply : ∀ {α : Type} {form : α → Reply} {outcome outcome' : Except Fault α × System W},
      outcome' = (outcome.1, outcome.2.credited extra undersized) →
      reply form outcome' =
        ((reply form outcome).1, (reply form outcome).2.credited extra undersized) := by
    rintro α form outcome _ rfl
    rfl
  cases q with
  | get c k => exact hreply (getSegment_credited extra undersized c k s)
  | getNamed c name => exact hreply (getSegmentNamed_credited extra undersized c name s)
  | hint c operation => exact hreply (hint_credited extra undersized c operation s)
  | delete c => exact hreply (deleteSegments_credited extra undersized c s)
  | start order => exact hreply ((commutes_credited extra undersized).performAll s .start _)
  | stop order => exact hreply ((commutes_credited extra undersized).performAll s .stop _)
  | reset order => exact hreply (reset_credited extra undersized order s)

theorem after_credited (e : Event W) (s : System W) :
    (s.credited extra undersized).after e = (s.after e).credited extra undersized := by
  cases e with
  | request q => exact congrArg Prod.snd (handle_credited extra undersized q s)
  | regroup members =>
      have hmembers : (s.manager.credited extra undersized).withMembers members =
          (s.manager.withMembers members).credited extra undersized := by
        cases hdeployment : s.manager.deployment with
        | inProcess settings =>
            have hcredited : (s.manager.credited extra undersized).deployment =
                .inProcess settings := hdeployment
            rw [Manager.withMembers_of_inProcess hdeployment,
              Manager.withMembers_of_inProcess hcredited]
        | distributed workers => simp [Manager.withMembers, Manager.credited, hdeployment]
      exact congrArg (fun m => { s with manager := m }) hmembers
  | enter rows => rfl
  | withdraw c => rfl
  | refuse text => rfl
  | elapse change => rfl

theorem replay_credited (events : List (Event W)) (s : System W) :
    (s.credited extra undersized).replay events =
      (s.replay events).credited extra undersized := by
  induction events generalizing s with
  | nil => rfl
  | cons e rest ih =>
      have hfirst := after_credited extra undersized e s
      have hrest := ih (s.after e)
      rw [← hfirst] at hrest
      exact hrest

end System

end SegmentManager
