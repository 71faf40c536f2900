import SegmentManager.Proofs.System.OpenIndexes
import SegmentManager.Proofs.System.Since

/-!
# Indexes that a broken deletion leaves open

A deletion that breaks off leaves the segments behind the failure as they are, and
forgets the whole collection all the same.  An instance among them runs on with its
index open, and the budget of open indexes does not know of it any more.
-/

namespace SegmentManager

open Simulation Tracking

theorem Site.indexOpen_performAll_of_ne {W : Type} [Backend W] (action : Action)
    {targets : List Instance} {n : Nat} (hne : ∀ i ∈ targets, i.serial ≠ n) (site : Site W) :
    (site.performAll action targets).2.indexOpen n = site.indexOpen n := by
  induction targets generalizing site with
  | nil => rfl
  | cons i rest ih =>
      have hfirst := hne i List.mem_cons_self
      rw [performAll_cons_snd, ih fun j hj => hne j (List.mem_cons_of_mem _ hj), indexOpen_perform,
        if_neg fun h => hfirst h.2]

namespace System

variable {W : Type}

def RunsOpen (s : System W) (i : Instance) : Prop :=
  s.manager.running? i.record.id = some i ∧ s.site.indexOpen i.serial = true

instance (s : System W) (i : Instance) : Decidable (s.RunsOpen i) :=
  inferInstanceAs (Decidable (_ ∧ _))

theorem runsOpen_congr {s s' : System W} (hinstances : s'.manager.instances = s.manager.instances)
    (hjournal : s'.site.journal = s.site.journal) (i : Instance) :
    s'.RunsOpen i ↔ s.RunsOpen i := by
  unfold RunsOpen Manager.running?
  rw [hinstances, Site.indexOpen_congr hjournal]

theorem runsOpen_forgetAll (c : CollectionId) (s : System W) (i : Instance) :
    (s.forgetAll c).RunsOpen i ↔ s.RunsOpen i := runsOpen_congr rfl rfl i

theorem runsOpen_listing (c : CollectionId) (s : System W) (i : Instance) :
    (s.listing c).RunsOpen i ↔ s.RunsOpen i := runsOpen_congr rfl rfl i

variable [Backend W] {s s' : System W} {c : CollectionId}

/-- Segments that are not visited run on as they did: the instances that were asked
have other serial numbers. -/
theorem Walks.runsOpen {first : Nat} {older : List Call} (hs : Since first older s)
    {action : Action} {visited : List SegmentId} (h : Walks action visited s s') (i : Instance) :
    s'.RunsOpen i ↔ s.RunsOpen i ∧ i.record.id ∉ visited := by
  obtain ⟨asked, counted, hdown, hasked⟩ := h
  have hrunning : s'.manager.running? i.record.id = some i ↔
      s.manager.running? i.record.id = some i ∧ i.record.id ∉ visited := by
    rw [hdown.running]
    split <;> simp_all
  have hopen : s.manager.running? i.record.id = some i → i.record.id ∉ visited →
      s'.site.indexOpen i.serial = s.site.indexOpen i.serial := by
    intro hi hvisited
    rw [hdown.site]
    refine Site.indexOpen_performAll_of_ne action ?_ s.site
    intro j hj hserial
    obtain ⟨segment, hsegment, hruns⟩ := hasked j hj
    obtain rfl : j = i := hs.serials hruns hi hserial
    rw [(hs.registered hruns).1] at hvisited
    exact hvisited hsegment
  unfold RunsOpen
  rw [hrunning]
  constructor
  · rintro ⟨⟨hi, hvisited⟩, hstill⟩
    exact ⟨⟨hi, hopen hi hvisited ▸ hstill⟩, hvisited⟩
  · rintro ⟨⟨hi, hbefore⟩, hvisited⟩
    exact ⟨⟨hi, hvisited⟩, (hopen hi hvisited).trans hbefore⟩

/-- A deletion that breaks off visits the rows up to the one that failed, and then the
collection is forgotten. -/
theorem walks_of_partialDelete {completed : List SegmentId} {failed : SegmentId} {cause : Fault}
    (hpartial : (s.deleteSegments c).1 = .error (.partialDelete completed failed cause)) :
    ∃ rows before after s₁, (s.catalog.read c none).1 = .ok rows ∧
      rows.map (·.id) = before ++ failed :: after ∧
      Walks .delete (before ++ [failed]) (s.listing c) s₁ ∧
      (s.deleteSegments c).2 = s₁.forgetAll c := by
  have hdisposes := disposes_deleteSegments c s
  rw [hpartial] at hdisposes
  generalize (s.deleteSegments c).2 = s' at hdisposes ⊢
  cases hdisposes with
  | broken hrows hdeployment hend =>
      rename_i settings rows s₁
      have hwalks := walks_deleteEach (rows.map (·.id)) (s.listing c)
      rw [hend] at hwalks
      obtain ⟨before, after, hsplit, hwalks⟩ := hwalks
      exact ⟨rows, before, after, s₁, hrows, hsplit, hwalks, rfl⟩

/-- After a deletion that broke off exactly those instances run with their index open
that did so before and come behind the failed row, or not among the rows at all.  Of
these the one that was tracked for the collection is tracked no more, so that its open
index takes up nothing of the budget; every other one is tracked as before. -/
theorem broken_deletion_strands_unvisited_indexes {m : Manager} (hm : m.Fresh) (w : W)
    (events : List (Event W)) {completed : List SegmentId} {failed : SegmentId} {cause : Fault}
    (hpartial : (((initial m w).replay events).deleteSegments c).1 =
      .error (.partialDelete completed failed cause)) :
    let s := (initial m w).replay events
    let s' := (s.deleteSegments c).2
    ∃ rows before after, (s.catalog.read c none).1 = .ok rows ∧
      rows.map (·.id) = before ++ failed :: after ∧
      (∀ i, s'.RunsOpen i ↔ s.RunsOpen i ∧ i.record.id ∉ before ++ [failed]) ∧
      (∀ d i, s.manager.tracked? d = some i →
        (s'.RunsOpen i ∧ s'.manager.tracked? d ≠ some i ↔
          d = c ∧ s.RunsOpen i ∧ i.record.id ∉ before ++ [failed])) ∧
      s'.manager.openIndexes.map (·.collections) =
        s.manager.openIndexes.map (·.collections.filter (· ≠ c)) := by
  have hs := (since_initial hm w).replay events
  simp only
  generalize (initial m w).replay events = s at hs hpartial ⊢
  obtain ⟨rows, before, after, s₁, hrows, hsplit, hwalks, hforgets⟩ := walks_of_partialDelete hpartial
  have hlisting : Since 0 [] (s.listing c) := hs.of_same rfl rfl rfl rfl
  have hopen : ∀ i, (s₁.forgetAll c).RunsOpen i ↔
      s.RunsOpen i ∧ i.record.id ∉ before ++ [failed] := by
    intro i
    rw [runsOpen_forgetAll, hwalks.runsOpen hlisting, runsOpen_listing]
  obtain ⟨asked, counted, hdown, -⟩ := hwalks
  have hindexes : s₁.manager.openIndexes = s.manager.openIndexes := hdown.caches.openIndexes
  have htracked : ∀ d, (s₁.forgetAll c).manager.tracked? d =
      if d = c then none else s.manager.tracked? d := by
    intro d
    rw [tracked?_forgetAll, hdown.caches.tracked?]
    rfl
  rw [hforgets]
  refine ⟨rows, before, after, hrows, hsplit, hopen, ?_, ?_⟩
  · intro d i hi
    rw [hopen, htracked, hi]
    split <;> simp_all
  · change Option.map _ (s₁.manager.openIndexes.map (·.without c)) = _
    rw [hindexes, Option.map_map]
    congr 1
    funext o
    exact RecencyCache.keys_drop o.tracked c

/-! ## Metadata that cannot be deleted -/

def narrowSettings : Settings := { spaciousSettings with maxFileHandles := some keeperHandles }

def metadataFirst : List (Event World) :=
  [.enter (numberedRows 1).reverse, .enter (numberedRows 3),
   .request (.hint (numberedCollection 1).id .add),
   .elapse fun w => w.fail ⟨.act .delete, some (numberedSegment 1 .metadata)⟩]

def metadataRefuses : Fault :=
  .partialDelete [] (numberedSegment 1 .metadata)
    (.deleteFailed (numberedSegment 1 .metadata) "injected delete failure")

theorem metadata_refusal_strands_vectors :
    ∃ m rows before after, Manager.inProcess narrowSettings keeperRegistry = .ok m ∧
      let s := (initial m keeperWorld).replay metadataFirst
      let deleted := s.deleteSegments (numberedCollection 1).id
      deleted.1 = .error metadataRefuses ∧
      s.manager.tracked? (numberedCollection 1).id = some (keeperOf 1) ∧
      (s.catalog.read (numberedCollection 1).id none).1 = .ok rows ∧
      rows.map (·.id) = before ++ numberedSegment 1 .metadata :: after ∧
      (keeperOf 1).record.id ∉ before ++ [numberedSegment 1 .metadata] ∧
      deleted.2.manager.openIndexes.map (·.collections) =
        s.manager.openIndexes.map (·.collections.filter (· ≠ (numberedCollection 1).id)) := by
  have hran : ∀ m, Manager.inProcess narrowSettings keeperRegistry = .ok m →
      let s := (initial m keeperWorld).replay metadataFirst
      let deleted := s.deleteSegments (numberedCollection 1).id
      deleted.1 = .error metadataRefuses ∧
      s.manager.tracked? (numberedCollection 1).id = some (keeperOf 1) ∧
      deleted.2.RunsOpen (keeperOf 1) ∧
      deleted.2.manager.tracked? (numberedCollection 1).id ≠ some (keeperOf 1) := by
    rintro m ⟨⟩
    decide +kernel
  obtain ⟨m, hm⟩ : ∃ m, Manager.inProcess narrowSettings keeperRegistry = .ok m := ⟨_, rfl⟩
  obtain ⟨hpartial, htracked, hopen, hforgotten⟩ := hran m hm
  obtain ⟨rows, before, after, hrows, hsplit, -, hstranded, hcollections⟩ :=
    broken_deletion_strands_unvisited_indexes (.inProcess hm) keeperWorld metadataFirst hpartial
  obtain ⟨-, -, hunvisited⟩ := (hstranded _ _ htracked).mp ⟨hopen, hforgotten⟩
  exact ⟨m, rows, before, after, hm, hpartial, htracked, hrows, hsplit, hunvisited, hcollections⟩

/-- The vectors run on with their index open, no collection is tracked, and with the
next collection two indexes are open where one is allowed. -/
theorem stranded_index_exceeds_budget :
    ∃ m, Manager.inProcess narrowSettings keeperRegistry = .ok m ∧
      Event.NeverShared metadataFirst ∧
      let s := (initial m keeperWorld).replay metadataFirst
      let deleted := s.deleteSegments (numberedCollection 1).id
      let next := deleted.2.hint (numberedCollection 3).id .add
      deleted.1 = .error metadataRefuses ∧
      s.manager.tracked? (numberedCollection 1).id = some (keeperOf 1) ∧
      deleted.2.RunsOpen (keeperOf 1) ∧
      deleted.2.manager.openIndexes.map (·.collections) = some [] ∧
      next.1 = .ok () ∧ next.2.manager.openIndexes.map (·.budget) = some 1 ∧
      next.2.RunsOpen (keeperOf 1) ∧ next.2.RunsOpen (keeperOf 3) := by
  refine ⟨_, rfl, ?_⟩
  decide +kernel

end System

end SegmentManager
