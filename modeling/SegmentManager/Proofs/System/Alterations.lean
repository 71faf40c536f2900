import SegmentManager.Proofs.System.Lookup
import SegmentManager.Proofs.System.Teardown

/-!
# Alterations that go unnoticed

Most steps look at the instances, the open indexes, the counters and the site
only, and change nothing else.  A system may be altered in anything else, and
such a step does the same: altering it before or after makes no difference.
-/

namespace SegmentManager

namespace Counters

protected def add (n extra : Counters) : Counters where
  hits := n.hits + extra.hits
  misses := n.misses + extra.misses
  fetches := n.fetches + extra.fetches
  started := n.started + extra.started
  memoryEvictions := n.memoryEvictions + extra.memoryEvictions
  handleEvictions := n.handleEvictions + extra.handleEvictions
  failedEvictions := n.failedEvictions + extra.failedEvictions
  deleted := n.deleted + extra.deleted

instance : Add Counters := ⟨Counters.add⟩

theorem add_right_comm (n a b : Counters) : n + a + b = n + b + a := by
  change Counters.add (Counters.add n a) b = Counters.add (Counters.add n b) a
  simp only [Counters.add, Nat.add_right_comm]

theorem zero_add (n : Counters) : {} + n = n := by
  change Counters.add {} n = n
  simp only [Counters.add, Nat.zero_add]

end Counters

namespace System

variable {W : Type}

def refit (instances : Instances) (openIndexes : Option OpenIndexes) (counters : Counters)
    (site : Site W) (s : System W) : System W :=
  { s with manager := { s.manager with instances, openIndexes, counters }, site }

def Refitted (s s' : System W) : Prop :=
  ∃ instances openIndexes counters site, s' = s.refit instances openIndexes counters site

/-- An alteration with which the single accesses to the instances, the open indexes,
the counters and the site commute.  Counters are only ever added to. -/
structure Commutes (alter : System W → System W) : Prop where
  kinds : ∀ s, (alter s).manager.kinds = s.manager.kinds
  root : ∀ s, (alter s).manager.persistDirectory = s.manager.persistDirectory
  instances : ∀ s, (alter s).manager.instances = s.manager.instances
  site : ∀ s, (alter s).site = s.site
  settle : ∀ instances site s,
    { alter s with manager := { (alter s).manager with instances }, site } =
      alter { s with manager := { s.manager with instances }, site }
  untrack : ∀ s c, (alter s).untrack c = alter (s.untrack c)
  tally : ∀ (amount : Counters) s,
    { alter s with manager := (alter s).manager.tally (· + amount) } =
      alter { s with manager := s.manager.tally (· + amount) }

namespace Commutes

variable {alter : System W → System W} (h : Commutes alter) (s : System W)

include h

theorem running? (segment : SegmentId) :
    (alter s).manager.running? segment = s.manager.running? segment := by
  unfold Manager.running?
  rw [h.instances]

theorem atSite (site : Site W) : { alter s with site } = alter { s with site } := by
  have hsame : { (alter s).manager with instances := s.manager.instances } = (alter s).manager := by
    rw [← h.instances s]
  have hsettle := h.settle s.manager.instances site s
  rwa [hsame] at hsettle

theorem unregister (segment : SegmentId) :
    (alter s).unregister segment =
      ((s.unregister segment).1, alter (s.unregister segment).2) := by
  have hsettle := h.settle (s.manager.instances.erase segment) (alter s).site s
  rw [h.site] at hsettle
  refine Prod.ext (h.running? s segment) (Eq.trans ?_ hsettle)
  unfold System.unregister Table.pop
  simp only [h.instances, ← h.site s]

theorem countDeleted : (alter s).countDeleted = alter s.countDeleted :=
  h.tally { deleted := 1 } s

variable [Backend W]

theorem perform (action : Action) (i : Instance) :
    (alter s).perform action i = ((s.perform action i).1, alter (s.perform action i).2) := by
  unfold System.perform
  rw [h.site]
  exact congrArg (Prod.mk _) (h.atSite s _)

theorem performAll (action : Action) (targets : List Instance) :
    (alter s).performAll action targets =
      ((s.performAll action targets).1, alter (s.performAll action targets).2) := by
  unfold System.performAll
  rw [h.site]
  exact congrArg (Prod.mk _) (h.atSite s _)

/-! ## Launching and evicting -/

theorem launch (r : Record) (site : Site W) :
    System.launch (alter s).manager r site = System.launch s.manager r site := by
  unfold System.launch
  rw [h.kinds, h.root]

theorem acquire (r : Record) :
    (alter s).acquire r = ((s.acquire r).1, alter (s.acquire r).2) := by
  cases hrunning : s.manager.running? r.id with
  | some i =>
      have hrunning' := (h.running? s r.id).trans hrunning
      rw [acquire_of_running hrunning, acquire_of_running hrunning']
  | none =>
      have hrunning' := (h.running? s r.id).trans hrunning
      rw [acquire_of_absent hrunning, acquire_of_absent hrunning', h.launch, h.site]
      cases System.launch s.manager r s.site with
      | mk outcome site =>
          cases outcome with
          | error fault => exact congrArg (Prod.mk _) (h.atSite s site)
          | ok i =>
              have hentered := h.settle (s.manager.instances.insert r.id i) site s
              have hcounted := h.tally { started := 1 } { s with
                manager := { s.manager with instances := s.manager.instances.insert r.id i }, site }
              rw [← hentered] at hcounted
              rw [h.instances]
              exact congrArg (Prod.mk _) hcounted

theorem retire (i : Instance) : (alter s).retire i = alter (s.retire i) := by
  unfold System.retire
  rw [h.perform]
  cases s.perform .stop i with
  | mk outcome next =>
      cases outcome with
      | ok done => exact h.tally { memoryEvictions := 1 } next
      | error fault => exact h.tally { failedEvictions := 1 } next

theorem evict (c : CollectionId) (r : Record) : (alter s).evict c r = alter (s.evict c r) := by
  unfold System.evict
  rw [h.untrack, h.unregister]
  cases (s.untrack c).unregister r.id with
  | mk found next =>
      cases found with
      | none => rfl
      | some i => exact h.retire next i

theorem evictAll (gone : List (CollectionId × Record)) :
    (alter s).evictAll gone = alter (s.evictAll gone) := by
  induction gone generalizing s with
  | nil => rfl
  | cons e rest ih => rw [evictAll_cons, evictAll_cons, h.evict, ih]

theorem footprint (r : Record) : (alter s).footprint r = s.footprint r := by
  unfold System.footprint
  rw [h.root, h.site]

/-! ## Taking down -/

theorem deleteEach (segments : List SegmentId) :
    System.deleteEach segments (alter s) =
      ((System.deleteEach segments s).1, alter (System.deleteEach segments s).2) := by
  induction segments generalizing s with
  | nil => rfl
  | cons segment rest ih =>
      unfold System.deleteEach
      rw [h.unregister]
      cases s.unregister segment with
      | mk found next =>
          cases found with
          | none => exact ih next
          | some i =>
              simp only [h.perform]
              cases next.perform .delete i with
              | mk outcome last =>
                  cases outcome with
                  | error fault => rfl
                  | ok done => simp only [h.countDeleted, ih]

theorem releaseEach (segments : List SegmentId) :
    System.releaseEach segments (alter s) = alter (System.releaseEach segments s) := by
  induction segments generalizing s with
  | nil => rfl
  | cons segment rest ih =>
      unfold System.releaseEach
      rw [h.unregister]
      cases s.unregister segment with
      | mk found next =>
          cases found with
          | none => exact ih next
          | some i => simp only [h.perform, h.countDeleted, ih]

end Commutes

/-- An alteration of what neither runs nor is open nor counted. -/
structure Unnoticed (alter : System W → System W) : Prop where
  kinds : ∀ s, (alter s).manager.kinds = s.manager.kinds
  root : ∀ s, (alter s).manager.persistDirectory = s.manager.persistDirectory
  instances : ∀ s, (alter s).manager.instances = s.manager.instances
  openIndexes : ∀ s, (alter s).manager.openIndexes = s.manager.openIndexes
  counters : ∀ s, (alter s).manager.counters = s.manager.counters
  site : ∀ s, (alter s).site = s.site
  refit : ∀ instances openIndexes counters site s,
    alter (s.refit instances openIndexes counters site) =
      (alter s).refit instances openIndexes counters site

namespace Unnoticed

variable {alter : System W → System W} (h : Unnoticed alter) (s : System W)

include h

theorem refit_congr (step : Instances → Option OpenIndexes → Counters → Site W →
    Instances × Option OpenIndexes × Counters × Site W) :
    let made := step s.manager.instances s.manager.openIndexes s.manager.counters s.site
    let made' := step (alter s).manager.instances (alter s).manager.openIndexes
      (alter s).manager.counters (alter s).site
    (alter s).refit made'.1 made'.2.1 made'.2.2.1 made'.2.2.2 =
      alter (s.refit made.1 made.2.1 made.2.2.1 made.2.2.2) := by
  simp only
  rw [h.refit, h.instances, h.openIndexes, h.counters, h.site]

theorem commutes : Commutes alter where
  kinds := h.kinds
  root := h.root
  instances := h.instances
  site := h.site
  settle instances site s := h.refit_congr s fun _ openIndexes counters _ =>
    (instances, openIndexes, counters, site)
  untrack s c := h.refit_congr s fun instances openIndexes counters site =>
    (instances, openIndexes.map (OpenIndexes.without · c), counters, site)
  tally amount s := h.refit_congr s fun instances openIndexes counters site =>
    (instances, openIndexes, counters + amount, site)

variable [Backend W]

theorem trackIndex (c : CollectionId) (i : Instance) :
    (alter s).trackIndex c i = ((s.trackIndex c i).1, alter (s.trackIndex c i).2) := by
  unfold System.trackIndex
  rw [h.openIndexes, h.site]
  cases s.manager.openIndexes with
  | none => rfl
  | some o =>
      simp only
      split
      · cases o.track c i s.site with
        | mk outcome rest =>
            obtain ⟨tracked, site⟩ := rest
            cases outcome with
            | error fault =>
                exact congrArg (Prod.mk _) (h.refit_congr s fun instances _ counters _ =>
                  (instances, some tracked, counters, site))
            | ok closed =>
                exact congrArg (Prod.mk _) (h.refit_congr s fun instances _ counters _ =>
                  (instances, some tracked, { counters with
                    handleEvictions := counters.handleEvictions + closed.length }, site))
      · rfl

end Unnoticed

/-! ## Steps that change nothing else -/

namespace Refitted

variable {s s' s'' : System W}

theorem refl (s : System W) : Refitted s s := ⟨_, _, _, _, rfl⟩

theorem trans (h : Refitted s s') (h' : Refitted s' s'') : Refitted s s'' := by
  obtain ⟨_, _, _, _, rfl⟩ := h
  obtain ⟨_, _, _, _, rfl⟩ := h'
  exact ⟨_, _, _, _, rfl⟩

theorem root (h : Refitted s s') :
    s'.manager.persistDirectory = s.manager.persistDirectory := by
  obtain ⟨_, _, _, _, rfl⟩ := h
  rfl

theorem records (h : Refitted s s') (scope : Scope) :
    s'.manager.records scope = s.manager.records scope := by
  obtain ⟨_, _, _, _, rfl⟩ := h
  cases scope <;> rfl

theorem catalog (h : Refitted s s') : s'.catalog = s.catalog := by
  obtain ⟨_, _, _, _, rfl⟩ := h
  rfl

end Refitted

variable [Backend W]

theorem refitted_acquire (r : Record) (s : System W) : Refitted s (s.acquire r).2 := by
  have hacquires := acquires_acquire r s
  generalize (s.acquire r).1 = answer, (s.acquire r).2 = s' at hacquires ⊢
  cases hacquires <;> exact ⟨_, _, _, _, rfl⟩

theorem refitted_retire (i : Instance) (s : System W) : Refitted s (s.retire i) := by
  unfold retire perform
  cases s.site.perform .stop i with
  | mk outcome site => cases outcome <;> exact ⟨_, _, _, _, rfl⟩

theorem refitted_evictAll (gone : List (CollectionId × Record)) (s : System W) :
    Refitted s (s.evictAll gone) := by
  induction gone generalizing s with
  | nil => exact .refl s
  | cons e rest ih =>
      refine Refitted.trans ?_ (ih (s.evict e.1 e.2))
      have htaken : Refitted s ((s.untrack e.1).unregister e.2.id).2 := ⟨_, _, _, _, rfl⟩
      unfold evict
      generalize (s.untrack e.1).unregister e.2.id = taken at htaken ⊢
      obtain ⟨found, next⟩ := taken
      cases found with
      | none => exact htaken
      | some i => exact htaken.trans (refitted_retire i next)

theorem refitted_trackIndex (c : CollectionId) (i : Instance) (s : System W) :
    Refitted s (s.trackIndex c i).2 := by
  have htracks := tracks_trackIndex c i s
  generalize (s.trackIndex c i).1 = answer, (s.trackIndex c i).2 = s' at htracks ⊢
  cases htracks <;> exact ⟨_, _, _, _, rfl⟩

theorem refitted_deleteEach (segments : List SegmentId) (s : System W) :
    Refitted s (deleteEach segments s).2 := by
  induction segments generalizing s with
  | nil => exact .refl s
  | cons segment rest ih =>
      have htaken : Refitted s (s.unregister segment).2 := ⟨_, _, _, _, rfl⟩
      unfold deleteEach
      generalize s.unregister segment = taken at htaken ⊢
      obtain ⟨found, next⟩ := taken
      cases found with
      | none => exact htaken.trans (ih next)
      | some i =>
          have hasked : Refitted next (next.perform .delete i).2 := ⟨_, _, _, _, rfl⟩
          simp only
          generalize next.perform .delete i = asked at hasked ⊢
          obtain ⟨outcome, last⟩ := asked
          cases outcome with
          | error fault => exact htaken.trans hasked
          | ok done =>
              have hcounted : Refitted last last.countDeleted := ⟨_, _, _, _, rfl⟩
              exact htaken.trans (hasked.trans (hcounted.trans (ih _)))

theorem refitted_releaseEach (segments : List SegmentId) (s : System W) :
    Refitted s (releaseEach segments s) := by
  induction segments generalizing s with
  | nil => exact .refl s
  | cons segment rest ih =>
      have htaken : Refitted s (s.unregister segment).2 := ⟨_, _, _, _, rfl⟩
      unfold releaseEach
      generalize s.unregister segment = taken at htaken ⊢
      obtain ⟨found, next⟩ := taken
      cases found with
      | none => exact htaken.trans (ih next)
      | some i =>
          have hasked : Refitted next (next.perform .stop i).2.countDeleted := ⟨_, _, _, _, rfl⟩
          exact htaken.trans (hasked.trans (ih _))

end System

end SegmentManager
