import SegmentManager.Proofs.System.Coherence

/-!
# Deleting a collection

In its own process a manager deletes the segments of a collection in the order
of its rows.  Either all of them are gone and all rows are named, or the first
instance that refuses ends the deletion and the answer tells the deleted
segments from the one that failed.  Either way the collection is forgotten, and
nothing of another one changes.
-/

namespace SegmentManager.System

open Simulation

variable {W : Type} [Backend W]

/-- What is left of a system when segments of a collection are gone, with the
calls that were made for it and the number of successes among them. -/
structure Cleared (c : CollectionId) (gone : List SegmentId) (calls : List Call)
    (deleted : Nat) (s s' : System W) : Prop where
  calls : s'.site.callsAfter s.site.journal.length = calls
  running : ∀ segment, s'.manager.running? segment =
    if segment ∈ gone then none else s.manager.running? segment
  /-- Whatever runs for another collection runs on. -/
  neighbours : ∀ segment i, s.manager.running? segment = some i → i.record.collection ≠ c →
    s'.manager.running? segment = some i
  forgotten : s'.manager.tracked? c = none ∧ ∀ k, s'.manager.cached? k c = none
  others : ∀ d, d ≠ c → s'.manager.tracked? d = s.manager.tracked? d ∧
    ∀ k, s'.manager.cached? k d = s.manager.cached? k d
  /-- Other collections keep their places among those used recently. -/
  recordOrder : ∀ k : Capability, (s'.manager.records k.scope).collections =
    (s.manager.records k.scope).collections.filter (· ≠ c)
  /-- Other vectors stay charged with what they were charged with. -/
  charges : ∀ records, s.manager.vectorRecords = .bounded records →
    ∃ records', s'.manager.vectorRecords = .bounded records' ∧
      records'.entries = records.entries.filter (·.key ≠ c)
  indexOrder : s'.manager.openIndexes.map (·.collections) =
    s.manager.openIndexes.map (·.collections.filter (· ≠ c))
  counters : s'.manager.counters = { s.manager.counters with
    fetches := s.manager.counters.fetches + 1
    deleted := s.manager.counters.deleted + deleted }
  rows : s'.catalog.rows = s.catalog.rows

variable {created : List Record} {s s' : System W} {c : CollectionId}

theorem Coherent.cleared (hs : s.Coherent created) {action : Action}
    {gone : List SegmentId} {asked : List Instance} {calls : List Call} {deleted : Nat}
    (hdown : TakenDown action gone asked deleted (s.listing c) s')
    (hgone : ∀ segment ∈ gone, segment ∈ (s.catalog.rowsOf c).map (·.id))
    (hjournal : s'.site.journal = calls.reverse ++ s.site.journal) :
    Cleared c gone calls deleted s (s'.forgetAll c) := by
  have hrunning : ∀ segment, (s'.forgetAll c).manager.running? segment =
      if segment ∈ gone then none else s.manager.running? segment := hdown.running
  refine ⟨?_, hrunning, ?_, ?_, ?_, ?_, ?_, ?_, ?_, ?_⟩
  · exact Site.callsAfter_of_journal_eq hjournal
  · intro segment i hruns hother
    rw [hrunning, if_neg]
    · exact hruns
    · intro hmem
      obtain ⟨hid, hserved⟩ := hs.manager.running segment i hruns
      exact hother (hs.collection_of_served hserved (hid ▸ hgone segment hmem))
  · refine ⟨?_, fun k => ?_⟩
    · rw [tracked?_forgetAll, if_pos rfl]
    · rw [cached?_forgetAll, if_pos rfl]
  · intro d hd
    refine ⟨?_, fun k => ?_⟩
    · rw [tracked?_forgetAll, if_neg hd]
      exact hdown.caches.tracked? d
    · rw [cached?_forgetAll, if_neg hd]
      exact hdown.caches.cached? k d
  · intro k
    have hbefore : s'.manager.records k.scope = s.manager.records k.scope :=
      hdown.caches.records k.scope
    have hafter : (s'.forgetAll c).manager.records k.scope =
        (s'.manager.records k.scope).without c := by cases k <;> rfl
    rw [hafter, hbefore, RecordCache.collections_without]
  · intro records hrecords
    have hbefore : s'.manager.vectorRecords = s.manager.vectorRecords :=
      hdown.caches.vectorRecords
    have hafter : (s'.forgetAll c).manager.vectorRecords = s'.manager.vectorRecords.without c :=
      rfl
    rw [hafter, hbefore, hrecords]
    exact ⟨records.drop c, rfl, RecencyCache.entries_drop records c⟩
  · have hbefore : s'.manager.openIndexes = s.manager.openIndexes := hdown.caches.openIndexes
    change Option.map _ (s'.manager.openIndexes.map (·.without c)) = _
    rw [hbefore, Option.map_map]
    congr 1
    funext o
    exact RecencyCache.keys_drop o.tracked c
  · exact hdown.counters
  · have hrows : s'.catalog.rows = (s.listing c).catalog.rows := by rw [hdown.catalog]
    exact hrows.trans (rows_listing c s)

/-- A deletion in the manager's own process, from any state that a history leads
to.  If every instance of the collection's rows lets itself be deleted, all rows
are named; if not, the answer says which were deleted before the first that
refused, and those after it are left as they were. -/
theorem deleteSegments_completes_or_stops {settings : Settings} {g : Registry} {m : Manager}
    (hm : Manager.inProcess settings g = .ok m) (w : W) {events : List (Event W)}
    (hids : Event.NeverShared events) (c : CollectionId) :
    let s := (initial m w).replay events
    let ids := (s.catalog.rowsOf c).map (·.id)
    let answer := (s.deleteSegments c).1
    let s' := (s.deleteSegments c).2
    (∃ text, s.catalog.refusal = some text ∧ answer = .error (.catalog text) ∧
      s' = s.listing c) ∨
    ((s.site.performAll .delete (s.targets ids)).1 = .ok () ∧ answer = .ok ids ∧
      Cleared c ids ((s.targets ids).map (Call.act .delete · true)) (s.targets ids).length
        s s') ∨
    ∃ before failed after i cause, ids = before ++ failed :: after ∧
      s.manager.running? failed = some i ∧
      (s.site.performAll .delete (s.targets before)).1 = .ok () ∧
      ((s.site.performAll .delete (s.targets before)).2.perform .delete i).1 = .error cause ∧
      answer = .error (.partialDelete (before.filter s.manager.isRunning) failed cause) ∧
      (∀ id ∈ after, s'.manager.running? id = s.manager.running? id) ∧
      Cleared c (before ++ [failed])
        ((s.targets before).map (Call.act .delete · true) ++ [Call.act .delete i false])
        (s.targets before).length s s' := by
  have hs := coherent_replay (.inProcess hm) w hids
  have hdeployment := deployment_replay hm w hids
  simp only
  have hclears := hs.clears_deleteSegments c
  have hnodup := hs.nodup_rowsOf c
  generalize (initial m w).replay events = s at hs hdeployment hclears hnodup ⊢
  generalize (s.deleteSegments c).1 = answer, (s.deleteSegments c).2 = s' at hclears ⊢
  cases hclears with
  | refused hrefusal => exact .inl ⟨_, hrefusal, rfl, rfl⟩
  | released hdistributed hdown =>
      rw [hdeployment] at hdistributed
      cases hdistributed
  | deleted hsame hdeletes =>
      rename_i completed failure s'
      right
      cases hdeletes with
      | complete hok hdown =>
          left
          refine ⟨hok, rfl, hs.cleared hdown (fun segment hmem => hmem) ?_⟩
          rw [hdown.site]
          exact Site.journal_performAll_of_ok hok
      | broken hsplit hrunning hok hfails hdown =>
          rename_i before after failed i cause
          right
          refine ⟨before, failed, after, i, cause, hsplit, hrunning, hok, hfails, rfl, ?_, ?_⟩
          · intro id hid
            rw [hsplit, List.append_cons, List.nodup_append] at hnodup
            have hrunning' := hdown.running id
            rw [if_neg fun hmem => hnodup.2.2 id hmem id hid rfl] at hrunning'
            exact hrunning'
          · apply hs.cleared hdown
            · intro segment hmem
              rw [hsplit, List.append_cons]
              exact List.mem_append_left after hmem
            · rw [hdown.site]
              exact Site.journal_performAll_concat hok hfails

/-- The crowded budget, with a metadata segment that refuses to be deleted. -/
def stubborn : List (Event World) :=
  crowded ++ [.elapse fun w => w.fail ⟨.act .delete, some (numberedSegment 1 .metadata)⟩]

theorem stubborn_deletion_stops :
    ∃ m, Manager.inProcess crowdedSettings keeperRegistry = .ok m ∧
      Event.NeverShared stubborn ∧
      let s := (initial m keeperWorld).replay stubborn
      let c := (numberedCollection 1).id
      ∃ completed failed cause,
        (s.deleteSegments c).1 = .error (.partialDelete completed failed cause) ∧
          s.manager.isRunning failed = true ∧
          (s.deleteSegments c).2.manager.isRunning failed = false := by
  have hids : Event.NeverShared stubborn := by decide +kernel
  have hfails : ∀ m, Manager.inProcess crowdedSettings keeperRegistry = .ok m →
      ((initial m keeperWorld).replay stubborn).catalog.refusal = none ∧
        (((initial m keeperWorld).replay stubborn).deleteSegments
          (numberedCollection 1).id).1.isOk = false := by
    rintro m ⟨⟩
    decide +kernel
  have hm : Manager.inProcess crowdedSettings keeperRegistry = .ok _ := rfl
  obtain ⟨hserves, hnot⟩ := hfails _ hm
  refine ⟨_, hm, hids, ?_⟩
  rcases deleteSegments_completes_or_stops hm keeperWorld hids (numberedCollection 1).id with
    ⟨text, hrefusal, -⟩ | ⟨-, hanswer, -⟩ |
    ⟨before, failed, after, i, cause, -, hrunning, -, -, hanswer, -, hcleared⟩
  · rw [hserves] at hrefusal
    cases hrefusal
  · rw [hanswer] at hnot
    cases hnot
  · refine ⟨_, failed, cause, hanswer, ?_, ?_⟩
    · rw [isRunning_eq, hrunning, Option.isSome_some]
    · rw [isRunning_eq, hcleared.running, if_pos (by simp), Option.isSome_none]

end SegmentManager.System
