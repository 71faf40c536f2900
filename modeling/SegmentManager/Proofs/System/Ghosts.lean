import Mathlib.Data.List.Induction
import SegmentManager.Proofs.System.Accesses
import SegmentManager.Proofs.System.Coherence
import SegmentManager.Proofs.System.Interleaving

/-!
# Records whose instance is gone

While several calls are under way, a record may come to be cached whose segment
does not run any more.  This takes a removal that crosses a write: the segment is
taken out between the time when a lookup acquires its instance and the time when
it writes the record, or it is taken out for an eviction whose collection was
loaded again in the meantime.  Without such a crossing all that is cached runs,
whenever no call is under way.
-/

namespace SegmentManager

open Simulation

variable {W : Type}

def Call.ok : Call → Bool
  | .build _ ok => ok
  | .act _ _ ok => ok

namespace Job

def atRest : Job → Bool
  | lookup (.serve _) _ .consult => true
  | hint _ => true
  | list _ => true
  | returned _ => true
  | _ => false

def Clears (k : Capability) (c : CollectionId) : Job → Prop
  | remove d _ _ _ _ => d = c
  | forgetVectors d _ => d = c
  | forgetMetadata d _ => d = c ∧ k = .metadataReader
  | _ => False

def Writes (segment : SegmentId) : Job → Prop
  | lookup _ _ (.remember r _) => r.id = segment
  | _ => False

def Evicts (segment : SegmentId) : Job → Prop
  | lookup _ _ (.unregister r _ _) => r.id = segment
  | _ => False

/-- What a job rests on: a record that it will write belongs to its place and
runs, unless that is excused, and what it deletes is of its collection. -/
def Holds (created : List Record) (excused : SegmentId → Prop) (s : System W) : Job → Prop
  | lookup errand c (.acquire r _) => s.manager.Admits created errand.capability c r
  | lookup errand c (.remember r _) => s.manager.Admits created errand.capability c r ∧
      ((∃ i, s.manager.running? r.id = some i) ∨ excused r.id)
  | remove c segment later _ _ =>
      ∀ other ∈ segment :: later, ∃ row ∈ created, row.id = other ∧ row.collection = c
  | _ => True

theorem not_clears_of_atRest {job : Job} (hrest : job.atRest = true) (k : Capability)
    (c : CollectionId) : ¬ job.Clears k c := by
  cases job with
  | remove | forgetVectors | forgetMetadata => cases hrest
  | _ => exact id

end Job

variable [Backend W]

namespace Traffic

/-- The turn of a call takes a segment out while another call has yet to write
its record, or, for an eviction, though a record of it is cached again. -/
structure Crossed (x : Traffic W) (n : Nat) (segment : SegmentId) : Prop where
  before : ∃ i, x.system.manager.running? segment = some i
  after : (x.turn n).system.manager.running? segment = none
  written : (∃ job ∈ x.jobs, job.Writes segment) ∨
    (∃ job, x.jobs[n]? = some job ∧ job.Evicts segment) ∧
      ∃ k c r, x.system.manager.cached? k c = some r ∧ r.id = segment

def CrossedIn (schedule : List Nat) (x : Traffic W) (segment : SegmentId) : Prop :=
  ∃ before n later, schedule = before ++ n :: later ∧ (x.run before).Crossed n segment

theorem CrossedIn.append {schedule : List Nat} {x : Traffic W} {segment : SegmentId}
    (h : x.CrossedIn schedule segment) (rest : List Nat) :
    x.CrossedIn (schedule ++ rest) segment := by
  obtain ⟨before, n, later, rfl, hcrossed⟩ := h
  exact ⟨before, n, later ++ rest, by simp, hcrossed⟩

theorem crossedIn_concat {schedule : List Nat} {x : Traffic W} {n : Nat} {segment : SegmentId}
    (hcrossed : (x.run schedule).Crossed n segment) :
    x.CrossedIn (schedule ++ [n]) segment :=
  ⟨schedule, n, [], rfl, hcrossed⟩

end Traffic

/-- What is cached runs, but for segments that are excused and collections that
a deletion is about to clear. -/
structure Guarded (created : List Record) (excused : SegmentId → Prop) (x : Traffic W) : Prop where
  wellFormed : x.system.manager.WellFormed
  filtering : x.system.catalog.filtering = true
  recorded : x.system.catalog.rows.Sublist created
  distinct : (created.map (·.id)).Nodup
  cached : ∀ k c r, x.system.manager.cached? k c = some r →
    x.system.manager.Admits created k c r ∧
      ((∃ i, x.system.manager.running? r.id = some i) ∨ excused r.id ∨
        ∃ (n : Nat) (job : Job), x.jobs[n]? = some job ∧ job.Clears k c)
  holds : ∀ job ∈ x.jobs, job.Holds created excused x.system

namespace Job

variable {created : List Record} {excused excused' : SegmentId → Prop} {s s' : System W}

/-! ## Jobs that stay -/

omit [Backend W] in
theorem Holds.mono {job : Job} (h : job.Holds created excused s) (hkeeps : s.Keeps s')
    (hruns : ∀ segment, job.Writes segment → (∃ i, s.manager.running? segment = some i) →
      (∃ i, s'.manager.running? segment = some i) ∨ excused' segment)
    (hexcused : ∀ segment, excused segment → excused' segment) :
    job.Holds created excused' s' := by
  cases job with
  | lookup errand c stage =>
      cases stage with
      | acquire r cached => exact Manager.Admits.congr h hkeeps.setup
      | remember r i =>
          obtain ⟨hadmits, hrunning⟩ := h
          refine ⟨hadmits.congr hkeeps.setup, ?_⟩
          rcases hrunning with hrunning | hexcuse
          · exact hruns r.id rfl hrunning
          · exact .inr (hexcused r.id hexcuse)
      | _ => trivial
  | remove => exact h
  | _ => trivial

/-! ## What a step leaves of its own job -/

omit [Backend W] in
theorem holds_evicting (errand : Errand) (c : CollectionId) (i : Instance)
    (gone : List (CollectionId × Record)) :
    (follow errand c (Lookup.evicting i gone)).Holds created excused s := by
  cases gone with
  | nil => cases errand <;> trivial
  | cons e gone => trivial

omit [Backend W] in
theorem holds_proceed (errand : Errand) (c : CollectionId) (answer : Except Fault Instance) :
    (proceed errand c answer).Holds created excused s := by
  cases answer with
  | error fault => trivial
  | ok i => cases errand <;> trivial

omit [Backend W] in
theorem holds_removing {c : CollectionId} {all completed later : List SegmentId}
    (hlater : ∀ other ∈ later, ∃ row ∈ created, row.id = other ∧ row.collection = c) :
    (removing c all completed later).Holds created excused s := by
  cases later with
  | nil => trivial
  | cons segment later => exact hlater

omit [Backend W] in
theorem clears_removing (k : Capability) (c : CollectionId)
    (all completed later : List SegmentId) :
    (removing c all completed later).Clears k c := by
  cases later <;> rfl

theorem takeOut_fst (c : CollectionId) (segment : SegmentId)
    (later all completed : List SegmentId) (s : System W) :
    (∃ completed', (takeOut c segment later all completed s).1 =
      removing c all completed' later) ∨
    ∃ fault, (takeOut c segment later all completed s).1 = forgetVectors c (.error fault) := by
  unfold takeOut
  split
  · exact .inl ⟨_, rfl⟩
  · split
    · exact .inl ⟨_, rfl⟩
    · split
      · exact .inl ⟨_, rfl⟩
      · exact .inr ⟨_, rfl⟩

theorem clears_takeOut (k : Capability) (c : CollectionId) (segment : SegmentId)
    (later all completed : List SegmentId) (s : System W) :
    (takeOut c segment later all completed s).1.Clears k c := by
  rcases takeOut_fst c segment later all completed s with ⟨completed', hnext⟩ | ⟨fault, hnext⟩
  · rw [hnext]
    exact clears_removing k c all completed' later
  · rw [hnext]
    rfl

theorem Clears.step {job : Job} {k : Capability} {c : CollectionId} (h : job.Clears k c)
    (s : System W) :
    (job.step s).1.Clears k c ∨ (job.step s).2.manager.cached? k c = none := by
  cases job with
  | remove d segment later all completed =>
      obtain rfl : d = c := h
      exact .inl (clears_takeOut k d segment later all completed s)
  | forgetVectors d answer =>
      obtain rfl : d = c := h
      cases k with
      | metadataReader => exact .inl ⟨rfl, rfl⟩
      | vectorReader =>
          have hforget := s.cached?_forget d d .vectorReader .vectorReader
          rw [if_pos ⟨rfl, rfl⟩] at hforget
          exact .inr hforget
  | forgetMetadata d answer =>
      obtain ⟨rfl, rfl⟩ := h
      have hforget := s.cached?_forget d d .metadataReader .metadataReader
      rw [if_pos ⟨rfl, rfl⟩] at hforget
      exact .inr hforget
  | _ => cases h

end Job

namespace Guarded

variable {created : List Record} {excused : SegmentId → Prop} {x : Traffic W}

theorem holds_lookup (hx : Guarded created excused x) {errand : Errand} {c : CollectionId}
    {stage : Lookup} (hjob : (Job.lookup errand c stage).Holds created excused x.system) :
    ((Job.lookup errand c stage).step x.system).1.Holds created excused
      ((Job.lookup errand c stage).step x.system).2 := by
  have hkeeps := ((Job.lookup errand c stage).affects_step x.system).keeps
  cases stage with
  | consult =>
      have hfound := System.consult_fst c errand.capability x.system
      simp only [Job.step, Lookup.step] at hkeeps ⊢
      cases hconsult : x.system.consult c errand.capability.scope with
      | mk found s' =>
          rw [hconsult] at hfound hkeeps
          cases found with
          | none => trivial
          | some r => exact (hx.cached _ c r hfound.symm).1.congr hkeeps.setup
  | fetch =>
      simp only [Job.step, Lookup.step] at hkeeps ⊢
      cases hfetch : x.system.fetch c errand.capability.scope with
      | mk answer s' =>
          rw [hfetch] at hkeeps
          cases answer with
          | error fault => exact Job.holds_proceed errand c (.error fault)
          | ok r =>
              have hadmits := (System.admits_of_fetch hx.filtering hfetch).mono
                fun row hrow => hx.recorded.subset hrow
              exact hadmits.congr hkeeps.setup
  | acquire r cached =>
      have hacquires := System.acquires_acquire r x.system
      simp only [Job.step, Lookup.step] at hkeeps ⊢
      cases hend : x.system.acquire r with
      | mk answer s' =>
          rw [hend] at hkeeps hacquires
          cases answer with
          | error fault =>
              cases cached with
              | true => trivial
              | false => exact Job.holds_proceed errand c (.error fault)
          | ok i =>
              cases cached with
              | true => exact Job.holds_proceed errand c (.ok i)
              | false => exact ⟨Manager.Admits.congr hjob hkeeps.setup,
                  .inl ⟨i, hacquires.running_of_ok⟩⟩
  | forget r fault => exact Job.holds_proceed errand c (.error fault)
  | remember r i => exact Job.holds_evicting errand c i _
  | untrack d r gone i => trivial
  | unregister r gone i =>
      simp only [Job.step, Lookup.step]
      cases x.system.unregister r.id with
      | mk found s' =>
          cases found with
          | none => exact Job.holds_evicting errand c i gone
          | some evicted => trivial
  | retire evicted gone i => exact Job.holds_evicting errand c i gone

theorem holds_step (hx : Guarded created excused x) {job : Job}
    (hjob : job.Holds created excused x.system) :
    (job.step x.system).1.Holds created excused (job.step x.system).2 := by
  cases job with
  | lookup errand c stage => exact hx.holds_lookup hjob
  | list c =>
      simp only [Job.step]
      cases hread : x.system.readCatalog c none with
      | mk answer s' =>
          cases answer with
          | error fault => trivial
          | ok rows =>
              apply Job.holds_removing
              intro other hother
              obtain ⟨row, hrow, rfl⟩ := List.mem_map.mp hother
              have hrows : (x.system.catalog.read c none).1 = .ok rows :=
                congrArg Prod.fst hread
              obtain ⟨hmem, hcollection, -⟩ := Catalog.mem_of_read hx.filtering hrows hrow
              exact ⟨row, hx.recorded.subset hmem, rfl, hcollection⟩
  | remove c segment later all completed =>
      rcases Job.takeOut_fst c segment later all completed x.system with
        ⟨completed', hnext⟩ | ⟨fault, hnext⟩
      · simp only [Job.step, hnext]
        exact Job.holds_removing fun other hother => hjob other (List.mem_cons_of_mem _ hother)
      · simp only [Job.step, hnext]
        trivial
  | hint c =>
      simp only [Job.step]
      split <;> trivial
  | openIndex c i =>
      simp only [Job.step]
      split
      · split <;> trivial
      · trivial
  | track c i =>
      simp only [Job.step]
      split <;> trivial
  | closeIndexes targets closed => cases targets <;> trivial
  | _ => trivial

/-- What stops running was crossed by a job that has yet to write its record. -/
theorem runs_or_crossed {n : Nat} {segment : SegmentId} {job : Job} (hjob : job ∈ x.jobs)
    (hwrites : job.Writes segment)
    (hrunning : ∃ i, x.system.manager.running? segment = some i) :
    (∃ i, (x.turn n).system.manager.running? segment = some i) ∨ x.Crossed n segment := by
  cases hafter : (x.turn n).system.manager.running? segment with
  | some i => exact .inl ⟨i, rfl⟩
  | none => exact .inr ⟨hrunning, hafter, .inl ⟨job, hjob, hwrites⟩⟩

/-- A record that is cached after a step was cached before, or the step wrote it. -/
theorem cached_before (hx : Guarded created excused x) {job : Job} (hjob : job ∈ x.jobs)
    {k : Capability} {c : CollectionId} {r : Record}
    (hcached : (job.step x.system).2.manager.cached? k c = some r) :
    x.system.manager.cached? k c = some r ∨
      job.Writes r.id ∧ x.system.manager.Admits created k c r ∧
        ((∃ i, x.system.manager.running? r.id = some i) ∨ excused r.id) := by
  have halters := (job.affects_step x.system).alters
  generalize (job.step x.system).2 = s' at halters hcached
  cases halters with
  | nothing hrunning hsame => exact .inl ((hsame k c).symm.trans hcached)
  | acquired hacquires => exact .inl ((hacquires.cached?_eq k c).symm.trans hcached)
  | written hcaching =>
      rename_i errand d written i
      obtain ⟨hadmits, hruns⟩ := hx.holds _ hjob
      rw [hcaching] at hcached
      rcases System.cached?_caching hx.wellFormed hcached with ⟨rfl, rfl, rfl⟩ | hbefore
      · rw [hadmits.collection]
        exact .inr ⟨rfl, hadmits, hruns⟩
      · exact .inl hbefore
  | dropped hdrops hforget =>
      rw [hforget, System.cached?_forget] at hcached
      split at hcached
      · cases hcached
      · exact .inl hcached
  | takenOut htakes hrunning hsame => exact .inl ((hsame k c).symm.trans hcached)

/-- A cached record whose segment is taken out is one that the deletion will
clear, or one that was cached again before its eviction was over. -/
theorem taken_out (hx : Guarded created excused x) {n : Nat} {job : Job}
    (hjob : x.jobs[n]? = some job) {k : Capability} {c : CollectionId} {r : Record}
    (hcached : x.system.manager.cached? k c = some r)
    (hrunning : ∃ i, x.system.manager.running? r.id = some i)
    (hafter : (x.turn n).system.manager.running? r.id = none) :
    (job.step x.system).1.Clears k c ∨ x.Crossed n r.id := by
  obtain ⟨i, hi⟩ := hrunning
  have halters := (job.affects_step x.system).alters
  have hgone := hafter
  rw [Traffic.turn_of_some hjob] at hgone
  simp only at hgone
  generalize hnext : (job.step x.system).2 = s' at halters hgone
  cases halters with
  | nothing hsame hcaches =>
      rw [hsame, hi] at hgone
      cases hgone
  | acquired hacquires =>
      rw [hacquires.still_running hi] at hgone
      cases hgone
  | written hcaching =>
      rw [hcaching, System.running?_caching, hi] at hgone
      cases hgone
  | dropped hdrops hforget =>
      rw [hforget, System.running?_forget, hi] at hgone
      cases hgone
  | takenOut htakes hsame hcaches =>
      rename_i segment
      have hsegment : r.id = segment := by
        by_contra hne
        rw [hsame, if_neg hne, hi] at hgone
        cases hgone
      subst hsegment
      cases job with
      | lookup errand d stage =>
          cases stage with
          | unregister evicted gone j =>
              exact .inr ⟨⟨i, hi⟩, hafter, .inr ⟨⟨_, hjob, htakes⟩, k, c, r, hcached, rfl⟩⟩
          | _ => cases htakes
      | remove d segment later all completed =>
          obtain rfl : segment = r.id := htakes
          -- Identifiers are never shared, so the deletion is of the record's collection.
          obtain ⟨row, hrow, hid, hcollection⟩ :=
            hx.holds _ (List.mem_of_getElem? hjob) r.id List.mem_cons_self
          have hadmits := (hx.cached k c r hcached).1
          obtain ⟨origin, horigin, hserves⟩ := hadmits.served
          have hsameRow : row = origin := by
            apply List.inj_on_of_nodup_map hx.distinct hrow horigin
            rw [hid, hserves.id_eq]
          have hd : d = c := by
            rw [← hcollection, hsameRow, ← hserves.collection_eq, hadmits.collection]
          subst hd
          exact .inl (Job.clears_takeOut k d r.id later all completed x.system)
      | _ => cases htakes

omit [Backend W] in
theorem mono {excused' : SegmentId → Prop} (hx : Guarded created excused x)
    (hexcused : ∀ segment, excused segment → excused' segment) : Guarded created excused' x := by
  refine ⟨hx.wellFormed, hx.filtering, hx.recorded, hx.distinct, ?_, ?_⟩
  · intro k c r hcached
    obtain ⟨hadmits, hruns⟩ := hx.cached k c r hcached
    exact ⟨hadmits, hruns.imp id (Or.imp (hexcused r.id) id)⟩
  · intro job hjob
    exact (hx.holds job hjob).mono (.refl x.system) (fun segment _ hrunning => .inl hrunning)
      hexcused

theorem cached_turn (hx : Guarded created excused x) {n : Nat} {job : Job}
    (hjob : x.jobs[n]? = some job) {k : Capability} {c : CollectionId} {r : Record}
    (hcached : (x.turn n).system.manager.cached? k c = some r) :
    x.system.manager.Admits created k c r ∧
      ((∃ i, (x.turn n).system.manager.running? r.id = some i) ∨
        (excused r.id ∨ x.Crossed n r.id) ∨
        ∃ (m : Nat) (job : Job), (x.turn n).jobs[m]? = some job ∧ job.Clears k c) := by
  have hmem := List.mem_of_getElem? hjob
  have hnext := Traffic.job_turn hjob
  rw [Traffic.system_turn hjob] at hcached
  rcases hx.cached_before hmem hcached with hbefore | ⟨hwrites, hadmits, hruns⟩
  · obtain ⟨hadmits, hruns⟩ := hx.cached k c r hbefore
    refine ⟨hadmits, ?_⟩
    rcases hruns with hrunning | hexcused | ⟨m, clearing, hclearing, hclears⟩
    · cases hafter : (x.turn n).system.manager.running? r.id with
      | some i => exact .inl ⟨i, rfl⟩
      | none =>
          rcases hx.taken_out hjob hbefore hrunning hafter with hclears | hcrossed
          · exact .inr (.inr ⟨n, _, hnext, hclears⟩)
          · exact .inr (.inl (.inr hcrossed))
    · exact .inr (.inl (.inl hexcused))
    · by_cases hm : n = m
      · subst hm
        rw [hjob] at hclearing
        obtain rfl := Option.some.inj hclearing
        rcases hclears.step x.system with hstill | hnone
        · exact .inr (.inr ⟨n, _, hnext, hstill⟩)
        · rw [hcached] at hnone
          cases hnone
      · exact .inr (.inr ⟨m, clearing, (Traffic.job_turn_ne hm).trans hclearing, hclears⟩)
  · refine ⟨hadmits, ?_⟩
    rcases hruns with hrunning | hexcused
    · exact (runs_or_crossed hmem hwrites hrunning).imp id fun hcrossed => .inl (.inr hcrossed)
    · exact .inr (.inl (.inl hexcused))

theorem turn (hx : Guarded created excused x) (n : Nat) :
    Guarded created (fun segment => excused segment ∨ x.Crossed n segment) (x.turn n) := by
  cases hjob : x.jobs[n]? with
  | none =>
      have hsame : Guarded created (fun segment => excused segment ∨ x.Crossed n segment) x :=
        hx.mono fun segment => Or.inl
      rw [Traffic.turn_of_none hjob]
      exact hsame
  | some job =>
      have hsystem := Traffic.system_turn hjob
      have hkeeps := (job.affects_step x.system).keeps
      rw [← hsystem] at hkeeps
      refine ⟨hkeeps.wellFormed hx.wellFormed, hkeeps.filtering.trans hx.filtering,
        hkeeps.rows ▸ hx.recorded, hx.distinct, ?_, ?_⟩
      · intro k c r hcached
        obtain ⟨hadmits, hruns⟩ := hx.cached_turn hjob hcached
        exact ⟨hadmits.congr hkeeps.setup, hruns⟩
      · intro job' hjob'
        rw [Traffic.jobs_turn hjob] at hjob'
        rcases List.mem_or_eq_of_mem_set hjob' with hold | rfl
        · exact (hx.holds job' hold).mono hkeeps
            (fun segment hwrites hrunning =>
              (runs_or_crossed hold hwrites hrunning).imp id Or.inr)
            fun segment => Or.inl
        · rw [hsystem]
          exact (hx.holds_step (hx.holds job (List.mem_of_getElem? hjob))).mono (.refl _)
            (fun segment _ hrunning => .inl hrunning) fun segment => Or.inl

theorem run {s : System W} {queries : List Query} (hs : s.Coherent created)
    (schedule : List Nat) :
    Guarded created ((Traffic.start queries s).CrossedIn schedule)
      ((Traffic.start queries s).run schedule) := by
  induction schedule using List.reverseRecOn with
  | nil =>
      refine ⟨hs.manager.wellFormed, hs.filtering, hs.recorded, hs.distinct, ?_, ?_⟩
      · intro k c r hcached
        obtain ⟨hadmits, hruns⟩ := hs.manager.cached k c r hcached
        exact ⟨hadmits, .inl hruns⟩
      · intro job hjob
        obtain ⟨q, -, rfl⟩ := List.mem_map.mp hjob
        cases q <;> trivial
  | append_singleton schedule n ih =>
      rw [Traffic.run_concat]
      apply (ih.turn n).mono
      rintro segment (hbefore | hnow)
      · exact hbefore.append [n]
      · exact Traffic.crossedIn_concat hnow

end Guarded

namespace System

/-- What is cached when no call is under way runs, unless its segment was taken
out across a write of its record. -/
theorem ghosts_come_from_crossed_removals {m : Manager} (hm : m.Fresh) (w : W)
    {events : List (Event W)} (hids : Event.NeverShared events) (queries : List Query)
    (schedule : List Nat) :
    let start := Traffic.start queries ((initial m w).replay events)
    (∀ job ∈ (start.run schedule).jobs, job.atRest = true) →
    ∀ k c r, (start.run schedule).system.manager.cached? k c = some r →
      (∃ i, (start.run schedule).system.manager.running? r.id = some i) ∨
        start.CrossedIn schedule r.id := by
  intro start hrest k c r hcached
  have hguarded : Guarded _ (start.CrossedIn schedule) (start.run schedule) :=
    Guarded.run (coherent_replay hm w hids) schedule
  obtain ⟨-, hruns⟩ := hguarded.cached k c r hcached
  rcases hruns with hrunning | hcrossed | ⟨n, job, hjob, hclears⟩
  · exact .inl hrunning
  · exact .inr hcrossed
  · cases Job.not_clears_of_atRest (hrest job (List.mem_of_getElem? hjob)) k c hclears

/-! ### Crossings

A deletion comes in before a lookup of the same collection has cached its
record.  With a memory budget it takes two lookups only. -/

def lonely : List (Event World) := [.enter (numberedRows 0)]

/-- The lookup acquires, the deletion runs from its first step to its last, and
the lookup caches its record. -/
def lookupAndDeletion : List Query :=
  [.get (numberedCollection 0).id .vectorReader, .delete (numberedCollection 0).id]

def deletionBetween : List Nat := [0, 0, 0, 1, 1, 1, 1, 1, 1, 0]

theorem crossed_deletion_leaves_record :
    ∃ m, Manager.inProcess spaciousSettings keeperRegistry = .ok m ∧
      Event.NeverShared lonely ∧
      let x := (Traffic.start lookupAndDeletion ((initial m keeperWorld).replay lonely)).run
        deletionBetween
      let again := x.system.getSegment (numberedCollection 0).id .vectorReader
      (∀ job ∈ x.jobs, job.atRest = true) ∧ (∀ call ∈ x.system.site.journal, call.ok = true) ∧
      ∃ r, x.system.manager.cached? .vectorReader (numberedCollection 0).id = some r ∧
        x.system.manager.running? r.id = none ∧
        again.2.catalog.reads = x.system.catalog.reads ∧ ∃ i, again.1 = .ok i ∧ i.record = r := by
  have hghost : ∀ m, Manager.inProcess spaciousSettings keeperRegistry = .ok m →
      let x := (Traffic.start lookupAndDeletion ((initial m keeperWorld).replay lonely)).run
        deletionBetween
      let again := x.system.getSegment (numberedCollection 0).id .vectorReader
      (∀ job ∈ x.jobs, job.atRest = true) ∧ (∀ call ∈ x.system.site.journal, call.ok = true) ∧
      ∃ r ∈ numberedRows 0,
        x.system.manager.cached? .vectorReader (numberedCollection 0).id = some r ∧
        x.system.manager.running? r.id = none ∧
        again.2.catalog.reads = x.system.catalog.reads ∧
        again.1.toOption.map (·.record) = some r := by
    rintro m ⟨⟩
    decide +kernel
  obtain ⟨m, hm⟩ : ∃ m, Manager.inProcess spaciousSettings keeperRegistry = .ok m := ⟨_, rfl⟩
  obtain ⟨hrest, hok, r, -, hcached, habsent, hreads, hagain⟩ := hghost m hm
  refine ⟨m, hm, by decide +kernel, hrest, hok, r, hcached, habsent, hreads, ?_⟩
  generalize ((Traffic.start lookupAndDeletion ((initial m keeperWorld).replay lonely)).run
    deletionBetween).system.getSegment (numberedCollection 0).id .vectorReader = again at hagain ⊢
  obtain ⟨answer, s⟩ := again
  cases answer with
  | error fault => cases hagain
  | ok i => exact ⟨i, rfl, Option.some.inj hagain⟩

theorem crossed_deletion_is_found :
    ∃ m, Manager.inProcess spaciousSettings keeperRegistry = .ok m ∧
      Event.NeverShared lonely ∧
      let start := Traffic.start lookupAndDeletion ((initial m keeperWorld).replay lonely)
      (∀ job ∈ (start.run deletionBetween).jobs, job.atRest = true) ∧
      ∃ r, (start.run deletionBetween).system.manager.cached? .vectorReader
          (numberedCollection 0).id = some r ∧
        start.CrossedIn deletionBetween r.id := by
  have hghost : ∀ m, Manager.inProcess spaciousSettings keeperRegistry = .ok m →
      let x := (Traffic.start lookupAndDeletion ((initial m keeperWorld).replay lonely)).run
        deletionBetween
      (∀ job ∈ x.jobs, job.atRest = true) ∧ ∃ r ∈ numberedRows 0,
        x.system.manager.cached? .vectorReader (numberedCollection 0).id = some r ∧
        x.system.manager.running? r.id = none := by
    rintro m ⟨⟩
    decide +kernel
  have hids : Event.NeverShared lonely := by decide +kernel
  obtain ⟨m, hm⟩ : ∃ m, Manager.inProcess spaciousSettings keeperRegistry = .ok m := ⟨_, rfl⟩
  obtain ⟨hrest, r, -, hcached, habsent⟩ := hghost m hm
  refine ⟨m, hm, hids, hrest, r, hcached, ?_⟩
  rcases ghosts_come_from_crossed_removals (.inProcess hm) keeperWorld hids lookupAndDeletion
    deletionBetween hrest .vectorReader (numberedCollection 0).id r hcached with
    ⟨i, hrunning⟩ | hcrossed
  · rw [habsent] at hrunning
    cases hrunning
  · exact hcrossed

/-- With room for one of two collections, a second lookup that loads the evicted
one again before its eviction is over leaves it cached and not running. -/
example : ∀ m, Manager.inProcess crowdedSettings keeperRegistry = .ok m →
    let served : List (Event World) :=
      [.enter (numberedRows 0), .enter (numberedRows 1), vectorsWritten 0 6, vectorsWritten 1 7,
       .request (.get (numberedCollection 0).id .vectorReader)]
    let x := (Traffic.start [.get (numberedCollection 1).id .vectorReader,
        .get (numberedCollection 0).id .vectorReader] ((initial m keeperWorld).replay served)).run
      [0, 0, 0, 0, 1, 1, 1, 1, 0, 0, 0, 1, 1, 1]
    (∀ job ∈ x.jobs, job.atRest = true) ∧ (∀ call ∈ x.system.site.journal, call.ok = true) ∧
      ∃ r ∈ numberedRows 0,
        x.system.manager.cached? .vectorReader (numberedCollection 0).id = some r ∧
        x.system.manager.running? r.id = none := by
  rintro m ⟨⟩
  decide +kernel

end System

end SegmentManager
