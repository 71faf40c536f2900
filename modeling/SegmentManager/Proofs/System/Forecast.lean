import SegmentManager.Proofs.System.Transparency
import SegmentManager.Proofs.Usage

/-!
# Forecasts of evictions

A report on a persist directory says which segments would leave a cache of a
given limit if all were loaded in its order.  A manager that is asked for them in
this order, while the files stay as they are, evicts these and runs the others.
-/

namespace SegmentManager

open Simulation

/-! ## Rows of reported segments -/

structure Housed (rows : List Record) (row : SegmentId → Record)
    (segments : List SegmentId) : Prop where
  distinct : (rows.map (·.id)).Nodup
  id : ∀ segment ∈ segments, (row segment).id = segment
  kind : ∀ segment ∈ segments, (row segment).kind = .hnswPersisted
  alone : ∀ segment ∈ segments, (rows.filter fun r =>
    r.collection = (row segment).collection ∧ r.scope = .vector) = [row segment]

namespace Housed

variable {rows : List Record} {row : SegmentId → Record} {segments : List SegmentId}
  {segment other : SegmentId}

theorem mono {fewer : List SegmentId} (h : Housed rows row segments)
    (hsub : ∀ segment ∈ fewer, segment ∈ segments) : Housed rows row fewer :=
  ⟨h.distinct, fun segment hmem => h.id segment (hsub segment hmem),
    fun segment hmem => h.kind segment (hsub segment hmem),
    fun segment hmem => h.alone segment (hsub segment hmem)⟩

theorem first? (h : Housed rows row segments) {g : Registry}
    (hknown : g.knows .hnswPersisted = true) (hsegment : segment ∈ segments) :
    g.first? rows (row segment).collection .vector = some (row segment) := by
  have hfind : (rows.filter fun r => r.collection = (row segment).collection ∧
      r.scope = .vector).find? (fun r => g.knows r.kind) =
      g.first? rows (row segment).collection .vector := by
    unfold Registry.first?
    rw [List.find?_filter]
    congr 1
    funext r
    simp [and_assoc]
  rw [← hfind, h.alone segment hsegment, List.find?_cons_of_pos]
  rw [h.kind segment hsegment, hknown]

theorem eq_of_collection (h : Housed rows row segments) (hsegment : segment ∈ segments)
    (hother : other ∈ segments) (hsame : (row segment).collection = (row other).collection) :
    segment = other := by
  have hrow := h.alone segment hsegment
  rw [hsame, h.alone other hother] at hrow
  rw [← h.id segment hsegment, ← h.id other hother, List.singleton_inj.mp hrow]

end Housed

/-- The cache of vector records holds the rows of the segments in the other
cache, or has no limit if there is none. -/
def Pictures (row : SegmentId → Record) : Option Usage.SegmentCache → RecordCache → Prop
  | some cache, .bounded records =>
      records = cache.relabel (fun segment => (row segment).collection) row
  | none, .unbounded _ => True
  | _, _ => False

theorem Pictures.insert {row : SegmentId → Record} {cache : Option Usage.SegmentCache}
    {records : RecordCache} (h : Pictures row cache records) {f : Usage.Found}
    (habsent : ∀ held, cache = some held → f.segment ∉ held.keys ∧
      (row f.segment).collection ∉ held.keys.map fun segment => (row segment).collection) :
    records.evicted (row f.segment).collection (row f.segment) f.bytes =
      (Usage.load f cache).1.map (fun segment => ((row segment).collection, row segment)) ∧
    Pictures row (Usage.load f cache).2
      (records.insert (row f.segment).collection (row f.segment) f.bytes).2 := by
  cases records with
  | unbounded table =>
      cases cache with
      | none => exact ⟨rfl, trivial⟩
      | some held => exact h.elim
  | bounded records =>
      cases cache with
      | none => exact h.elim
      | some held =>
          obtain rfl : records = _ := h
          obtain ⟨hnew, hnew'⟩ := habsent held rfl
          have hinsert := RecencyCache.insert_relabel row hnew hnew' () f.bytes
          constructor
          · unfold RecordCache.evicted RecordCache.insert
            simp only [hinsert, Usage.load, List.map_map]
            rfl
          · unfold RecordCache.insert
            simp only [hinsert, Usage.load]
            rfl

namespace System

variable {W : Type} [Backend W]

/-! ## What is counted -/

theorem memoryEvictions_acquire (r : Record) (s : System W) :
    (s.acquire r).2.manager.counters.memoryEvictions =
      s.manager.counters.memoryEvictions := by
  cases hrunning : s.manager.running? r.id with
  | some i => rw [acquire_of_running hrunning]
  | none =>
      rw [acquire_of_absent hrunning]
      cases launch s.manager r s.site with
      | mk outcome site => cases outcome <;> rfl

theorem memoryEvictions_load {c : CollectionId} {k : Capability} {s : System W}
    (habsent : s.manager.cached? k c = none) :
    (s.load c k).2.manager.counters.memoryEvictions = s.manager.counters.memoryEvictions := by
  have hfetch : ((s.consult c k.scope).2.fetch c k.scope).2.manager.counters.memoryEvictions =
      s.manager.counters.memoryEvictions := by
    rw [fetch_snd, consult_of_absent habsent]
    rfl
  unfold load
  generalize (s.consult c k.scope).2.fetch c k.scope = fetched at hfetch ⊢
  obtain ⟨answer, next⟩ := fetched
  cases answer with
  | error fault => exact hfetch
  | ok r =>
      have hacquire := memoryEvictions_acquire r next
      simp only
      generalize next.acquire r = acquired at hacquire ⊢
      obtain ⟨outcome, last⟩ := acquired
      cases outcome <;> exact hacquire.trans hfetch

theorem memoryEvictions_evict {c : CollectionId} {r : Record} {i : Instance} {s : System W}
    (hrunning : s.manager.running? r.id = some i)
    (hall : (s.evict c r).site.journal.all Call.succeeded = true) :
    (s.evict c r).manager.counters.memoryEvictions =
      s.manager.counters.memoryEvictions + 1 := by
  rw [site_evict, hrunning] at hall
  have hstopped := performAll_of_succeeded hall
  rw [Option.toList_some, Site.performAll_cons_ok_iff] at hstopped
  rw [counters_evict c hrunning, hstopped.1]

theorem succeeded_of_evictAll {gone : List (CollectionId × Record)} {s : System W}
    (hall : (s.evictAll gone).site.journal.all Call.succeeded = true) :
    s.site.journal.all Call.succeeded = true := by
  induction gone generalizing s with
  | nil => exact hall
  | cons e rest ih =>
      have hfirst := ih hall
      rw [site_evict, Site.journal_performAll, List.all_append] at hfirst
      exact (Bool.and_eq_true_iff.mp hfirst).2

theorem memoryEvictions_evictAll {gone : List (CollectionId × Record)} {s : System W}
    (hdistinct : (gone.map (·.2.id)).Nodup)
    (hrunning : ∀ e ∈ gone, ∃ i, s.manager.running? e.2.id = some i)
    (hall : (s.evictAll gone).site.journal.all Call.succeeded = true) :
    (s.evictAll gone).manager.counters.memoryEvictions =
      s.manager.counters.memoryEvictions + gone.length := by
  induction gone generalizing s with
  | nil => rfl
  | cons e rest ih =>
      obtain ⟨hnotMem, hrest⟩ := List.nodup_cons.mp hdistinct
      obtain ⟨i, hi⟩ := hrunning e List.mem_cons_self
      have hlater : ∀ e' ∈ rest, ∃ i, (s.evict e.1 e.2).manager.running? e'.2.id = some i := by
        intro e' he'
        have hne : e'.2.id ≠ e.2.id := by
          intro heq
          exact hnotMem (List.mem_map.mpr ⟨e', he', heq⟩)
        rw [running?_evict, if_neg hne]
        exact hrunning e' (List.mem_cons_of_mem _ he')
      rw [evictAll_cons] at hall ⊢
      rw [ih hrest hlater hall, memoryEvictions_evict hi (succeeded_of_evictAll hall),
        List.length_cons]
      omega

theorem Coherent.memoryEvictions_remember {created : List Record} {k : Capability} {r : Record}
    {s : System W} (hs : s.Coherent created)
    (hall : (s.remember r k.scope).site.journal.all Call.succeeded = true) :
    (s.remember r k.scope).manager.counters.memoryEvictions =
      s.manager.counters.memoryEvictions + (s.displaced r k.scope).length := by
  have hrunning : ∀ e ∈ s.displaced r k.scope,
      ∃ i, (s.caching r k.scope).manager.running? e.2.id = some i := by
    intro e he
    obtain ⟨-, hheld⟩ := mem_displaced r k hs.manager.wellFormed he
    simp only [running?_caching]
    exact (hs.manager.cached _ _ _ hheld).2
  have hcaching : (s.caching r k.scope).manager.counters = s.manager.counters := by
    cases k <;> rfl
  rw [remember_eq] at hall ⊢
  rw [memoryEvictions_evictAll (hs.nodup_displaced r k) hrunning hall, hcaching]

/-! ## One more segment -/

variable {created : List Record} {settings : Settings} {s : System W} {c : CollectionId}
  {k : Capability}

theorem Faithful.load_of_first? (hs : s.Faithful created settings)
    (habsent : s.manager.cached? k c = none) {r : Record}
    (hfirst : s.manager.kinds.first? s.catalog.rows c k.scope = some r)
    (hall : (s.getSegment c k).2.site.journal.all Call.succeeded = true) :
    ∃ i next, s.load c k = (.ok (r, i), next) ∧ Loads c k s (.ok (r, i)) next ∧
      (s.getSegment c k).2 = next.remember r k.scope := by
  have hanswer := hs.answer_getSegment hall
  have hload := loads_load c k hs.filtering
  rw [Registry.sought, hfirst, getSegment_of_absent habsent] at hanswer
  rw [getSegment_of_absent habsent]
  cases hend : s.load c k with
  | mk answer next =>
      rw [hend] at hanswer hload
      cases answer with
      | error fault => cases hanswer
      | ok loaded =>
          obtain ⟨row, i⟩ := loaded
          have hrow := hs.first?_of_selects (first?_of_fetch hs.filtering (fetch_of_load hend))
          rw [hfirst] at hrow
          obtain rfl := Option.some.inj hrow
          exact ⟨i, next, rfl, hload, rfl⟩

structure Forecast (row : SegmentId → Record) (limit : Option Nat) (found : List Usage.Found)
    (s : System W) : Prop where
  running : ∀ segment, (∃ i, s.manager.running? segment = some i) ↔
    segment ∈ found.map (·.segment) ∧ segment ∉ (Usage.loadAll limit found).1
  evictions : s.manager.counters.memoryEvictions = (Usage.loadAll limit found).1.length
  pictured : Pictures row (Usage.loadAll limit found).2 s.manager.vectorRecords

variable {row : SegmentId → Record} {rows : List Record} {limit : Option Nat}
  {found : List Usage.Found} {f : Usage.Found}

namespace Forecast

omit [Backend W] in
theorem absent (h : s.Forecast row limit found) (hs : s.Faithful created settings)
    (hfirst : s.manager.kinds.first? s.catalog.rows (row f.segment).collection .vector =
      some (row f.segment))
    (hid : (row f.segment).id = f.segment) (hfresh : f.segment ∉ found.map (·.segment)) :
    s.manager.cached? .vectorReader (row f.segment).collection = none := by
  cases hcached : s.manager.cached? .vectorReader (row f.segment).collection with
  | none => rfl
  | some r =>
      have hrow := (hs.cached _ _ r hcached).symm.trans hfirst
      obtain rfl := Option.some.inj hrow
      have hruns := (hs.manager.cached _ _ _ hcached).2
      rw [hid] at hruns
      exact (hfresh ((h.running f.segment).mp hruns).1).elim

variable {segments : List SegmentId}

theorem displaced_eq (h : s.Forecast row limit found) (hrows : Housed rows row segments)
    (hdistinct : ((found ++ [f]).map (·.segment)).Nodup)
    (hfound : ∀ segment ∈ (found ++ [f]).map (·.segment), segment ∈ segments)
    {next : System W} (hvectors : next.manager.vectorRecords = s.manager.vectorRecords)
    (hbytes : next.footprint (row f.segment) = f.bytes) :
    next.displaced (row f.segment) .vector =
      (Usage.load f (Usage.loadAll limit found).2).1.map
        (fun segment => ((row segment).collection, row segment)) ∧
    Pictures row (Usage.load f (Usage.loadAll limit found).2).2
      (next.remember (row f.segment) .vector).manager.vectorRecords := by
  obtain ⟨hbefore, hfresh⟩ := Usage.nodup_of_concat hdistinct
  obtain ⟨kept, hsplit, hkeys⟩ := Usage.loadAll_split limit hbefore
  have hlast : f.segment ∈ segments := hfound _ (by simp)
  have hnew : ∀ segment ∈ kept, segment ∈ segments ∧ segment ≠ f.segment := by
    intro segment hmem
    have hearlier : segment ∈ found.map (·.segment) := hsplit ▸ List.mem_append_right _ hmem
    refine ⟨hfound _ (by rw [List.map_append]; exact List.mem_append_left _ hearlier), ?_⟩
    rintro rfl
    exact hfresh hearlier
  have hinsert := h.pictured.insert (f := f) (by
    intro held hheld
    rw [hkeys held hheld]
    refine ⟨fun hmem => (hnew _ hmem).2 rfl, ?_⟩
    intro hmem
    obtain ⟨segment, hsegment, hplace⟩ := List.mem_map.mp hmem
    obtain ⟨hin, hne⟩ := hnew segment hsegment
    exact hne (hrows.eq_of_collection hin hlast hplace))
  have hrecords : next.manager.records .vector = s.manager.vectorRecords := hvectors
  have hafter : (next.remember (row f.segment) .vector).manager.vectorRecords =
      (next.manager.vectorRecords.insert (row f.segment).collection (row f.segment)
        (next.footprint (row f.segment))).2 :=
    records_evictAll (next.displaced _ .vector) (next.caching _ .vector) .vector
  unfold displaced
  rw [hafter, hrecords, hvectors, hbytes]
  exact hinsert

theorem displaced_ids (h : s.Forecast row limit found) (hrows : Housed rows row segments)
    (hdistinct : ((found ++ [f]).map (·.segment)).Nodup)
    (hfound : ∀ segment ∈ (found ++ [f]).map (·.segment), segment ∈ segments)
    {next : System W} (hvectors : next.manager.vectorRecords = s.manager.vectorRecords)
    (hbytes : next.footprint (row f.segment) = f.bytes) :
    (next.displaced (row f.segment) .vector).map (·.2.id) =
      (Usage.load f (Usage.loadAll limit found).2).1 := by
  rw [(h.displaced_eq hrows hdistinct hfound hvectors hbytes).1, List.map_map]
  refine (List.map_congr_left ?_).trans (List.map_id _)
  intro segment hmem
  apply hrows.id segment
  apply hfound
  apply Usage.mem_of_mem_loadAll hdistinct
  rw [Usage.loadAll_concat]
  exact List.mem_append_right _ hmem

omit [Backend W] in
theorem running_concat (h : s.Forecast row limit found)
    (hdistinct : ((found ++ [f]).map (·.segment)).Nodup) {i : Instance} (segment : SegmentId) :
    (∃ j, (if segment ∈ (Usage.load f (Usage.loadAll limit found).2).1 then none
      else if segment = f.segment then some i else s.manager.running? segment) = some j) ↔
      segment ∈ (found ++ [f]).map (·.segment) ∧
        segment ∉ (Usage.loadAll limit (found ++ [f])).1 := by
  obtain ⟨hbefore, hfresh⟩ := Usage.nodup_of_concat hdistinct
  have hran := h.running segment
  rw [Usage.loadAll_concat]
  by_cases hout : segment ∈ (Usage.load f (Usage.loadAll limit found).2).1
  · simp [hout]
  · by_cases hsegment : segment = f.segment
    · subst hsegment
      have hstays : f.segment ∉ (Usage.loadAll limit found).1 :=
        fun hmem => hfresh (Usage.mem_of_mem_loadAll hbefore hmem)
      simp [hout, hstays]
    · rw [if_neg hout, if_neg hsegment, hran]
      simp [hout, hsegment]

theorem next (h : s.Forecast row limit found) (hs : s.Faithful created settings)
    (hrows : Housed rows row segments)
    (hdistinct : ((found ++ [f]).map (·.segment)).Nodup)
    (hfound : ∀ segment ∈ (found ++ [f]).map (·.segment), segment ∈ segments)
    (hfirst : s.manager.kinds.first? s.catalog.rows (row f.segment).collection .vector =
      some (row f.segment))
    (hbytes : (s.load (row f.segment).collection .vectorReader).2.footprint (row f.segment) =
      f.bytes)
    (hall : (s.getSegment (row f.segment).collection .vectorReader).2.site.journal.all
      Call.succeeded = true) :
    (s.getSegment (row f.segment).collection .vectorReader).2.Forecast row limit
      (found ++ [f]) := by
  -- The lookup misses, so it loads what the report loads and evicts what leaves there.
  have hid : (row f.segment).id = f.segment := hrows.id f.segment (hfound _ (by simp))
  have habsent := h.absent hs hfirst hid (Usage.nodup_of_concat hdistinct).2
  obtain ⟨i, next, hend, hload, hafter⟩ := hs.load_of_first? habsent hfirst hall
  obtain ⟨hcoherent, hcaches, -⟩ := hs.toCoherent.loads habsent hload
  have hcounted := memoryEvictions_load habsent
  rw [hend] at hbytes hcounted
  have hgone := h.displaced_ids hrows hdistinct hfound hcaches.vectorRecords hbytes
  rw [hafter] at hall ⊢
  refine ⟨?_, ?_, ?_⟩
  · intro segment
    rw [running?_remember, Capability.scope, hgone, hload.running?_eq, hid]
    exact h.running_concat hdistinct segment
  · have hlength := congrArg List.length hgone
    rw [List.length_map] at hlength
    rw [hcoherent.memoryEvictions_remember hall, hcounted, h.evictions, Capability.scope,
      hlength, Usage.loadAll_concat, List.length_append]
  · rw [Usage.loadAll_concat]
    exact (h.displaced_eq hrows hdistinct hfound hcaches.vectorRecords hbytes).2

end Forecast

/-! ## All segments in turn -/

def visits (rows : List Record) (row : SegmentId → Record) (segments : List SegmentId) :
    List (Event W) :=
  .enter rows :: segments.map fun segment =>
    .request (.get (row segment).collection .vectorReader)

/-- Whenever a lookup of vectors measures a segment, the files are those of the
tree. -/
def Undisturbed (tree : FileTree) (events : List (Event W)) (s : System W) : Prop :=
  ∀ before c after, events = before ++ .request (.get c .vectorReader) :: after →
    Backend.files ((s.replay before).load c .vectorReader).2.site.world = tree

omit [Backend W] in
theorem visits_concat (rows : List Record) (row : SegmentId → Record)
    (segments : List SegmentId) (segment : SegmentId) :
    (visits rows row (segments ++ [segment]) : List (Event W)) =
      visits rows row segments ++ [.request (.get (row segment).collection .vectorReader)] := by
  simp [visits]

omit [Backend W] in
theorem created_visits (rows : List Record) (row : SegmentId → Record)
    (segments : List SegmentId) :
    Event.created (visits rows row segments : List (Event W)) = rows := by
  induction segments using List.reverseRecOn with
  | nil => simp [visits, Event.created, Event.entered]
  | append_singleton segments segment ih =>
      rw [visits_concat, Event.created_concat, ih]
      exact List.append_nil rows

omit [Backend W] in
theorem rewrite_visits (rows : List Record) (row : SegmentId → Record)
    (segments : List SegmentId) :
    (visits rows row segments : List (Event W)).foldl Event.rewrite [] = rows := by
  induction segments using List.reverseRecOn with
  | nil => rfl
  | append_singleton segments segment ih =>
      rw [visits_concat, List.foldl_concat, ih]
      rfl

omit [Backend W] in
theorem orderly_visits (rows : List Record) (row : SegmentId → Record)
    (segments : List SegmentId) : Event.Orderly (visits rows row segments : List (Event W)) := by
  apply Event.orderly_of_forall
  intro e he
  rcases List.mem_cons.mp he with rfl | hget
  · exact ⟨by rintro text ⟨⟩, by rintro c ⟨⟩⟩
  · obtain ⟨segment, -, rfl⟩ := List.mem_map.mp hget
    exact ⟨by rintro text ⟨⟩, by rintro c ⟨⟩⟩

theorem footprint_of_sizeOf {s : System W} (root : String) {r : Record} {bytes : Nat}
    (hroot : s.manager.persistDirectory = some root)
    (hsize : (Backend.files s.site.world).sizeOf (segmentDirectory root r.id) = .ok bytes) :
    s.footprint r = bytes := by
  simp only [footprint, hroot, Site.bytesOnDisk, hsize]

variable {g : Registry} {m : Manager} {w : W} {path : String} {tree : FileTree}

omit [Backend W] in
theorem forecast_initial (hm : Manager.inProcess settings g = .ok m)
    (hbounded : settings.bounded = true) (hlimit : settings.memoryLimit = limit.getD 0) (w : W) :
    (initial m w).Forecast row (limit.filter (0 < ·)) [] := by
  obtain ⟨openIndexes, rfl, -⟩ := Manager.inProcess_eq_ok hm
  refine ⟨?_, rfl, ?_⟩
  · intro segment
    constructor
    · rintro ⟨i, ⟨⟩⟩
    · rintro ⟨⟨⟩, -⟩
  · change Pictures row ((limit.filter (0 < ·)).map RecencyCache.empty)
      (if settings.usesMemoryBudget then .ofCapacity settings.memoryLimit else .unlimited)
    unfold Settings.usesMemoryBudget
    rw [hbounded, hlimit]
    cases limit with
    | none => trivial
    | some bytes => cases bytes <;> trivial

theorem Undisturbed.of_append {events later : List (Event W)} {s : System W}
    (h : Undisturbed tree (events ++ later) s) : Undisturbed tree events s := by
  rintro before c after rfl
  exact h before c (after ++ later) (by simp)

/-- As long as nothing fails and the files stay, a manager follows the report. -/
theorem forecast_replay (hm : Manager.inProcess settings g = .ok m)
    (hpath : settings.persistDirectory = some path) (hbounded : settings.bounded = true)
    (hlimit : settings.memoryLimit = limit.getD 0)
    (hknown : m.kinds.knows .hnswPersisted = true)
    (hdistinct : (found.map (·.segment)).Nodup)
    (hsizes : ∀ f ∈ found, tree.sizeOf (segmentDirectory path f.segment) = .ok f.bytes)
    (hrows : Housed rows row (found.map (·.segment)))
    (hall : ((initial m w).replay (visits rows row (found.map (·.segment)))).site.journal.all
      Call.succeeded = true)
    (hstill : Undisturbed tree (visits rows row (found.map (·.segment))) (initial m w)) :
    ((initial m w).replay (visits rows row (found.map (·.segment)))).Forecast row
      (limit.filter (0 < ·)) found := by
  induction found using List.reverseRecOn with
  | nil =>
      have hbefore : (initial m w).Forecast row (limit.filter (0 < ·)) [] :=
        forecast_initial hm hbounded hlimit w
      exact ⟨hbefore.running, hbefore.evictions, hbefore.pictured⟩
  | append_singleton found f ih =>
      have hids : Event.NeverShared (visits rows row ((found ++ [f]).map (·.segment)) :
          List (Event W)) := by
        unfold Event.NeverShared
        rw [created_visits]
        exact hrows.distinct
      have hsub : ∀ segment ∈ found.map (·.segment), segment ∈ (found ++ [f]).map (·.segment) :=
        fun segment hmem => by simp [List.mem_map.mp hmem]
      have hvisits : (visits rows row ((found ++ [f]).map (·.segment)) : List (Event W)) =
          visits rows row (found.map (·.segment)) ++
            [.request (.get (row f.segment).collection .vectorReader)] := by
        rw [List.map_append]
        exact visits_concat rows row _ f.segment
      rw [hvisits] at hids hall hstill ⊢
      have hbefore := ih (Usage.nodup_of_concat hdistinct).1
        (fun f' hf' => hsizes f' (List.mem_append_left _ hf')) (hrows.mono hsub)
        (succeeded_of_append (.inProcess hm) hids hall) hstill.of_append
      obtain ⟨hfaithful, hkinds, hcatalog⟩ :=
        faithful_replay hm w hids.of_append (orderly_visits rows row (found.map (·.segment)))
      have hlast : f.segment ∈ (found ++ [f]).map (·.segment) := by simp
      rw [rewrite_visits] at hcatalog
      rw [(faithful_initial hm w).2] at hknown
      rw [replay_concat] at hall ⊢
      refine hbefore.next hfaithful hrows hdistinct (fun _ => id) ?_ ?_ hall
      · rw [hkinds, hcatalog]
        exact hrows.first? hknown hlast
      · have hroot := (loads_load (row f.segment).collection .vectorReader
          hfaithful.filtering).sameSetup.root
        refine footprint_of_sizeOf path ?_ ?_
        · rw [hroot, Manager.persistDirectory, hfaithful.ownProcess]
          exact hpath
        · rw [hstill _ _ [] rfl, hrows.id f.segment hlast]
          exact hsizes f (by simp)

/-- A report on a persist directory foretells which segments a manager evicts that
is asked for their vectors in the order of the report: with the report's limit,
as long as no call fails and the files stay, it runs those that the report does
not flag, and counts an eviction for each of the others. -/
theorem report_foretells_evictions (hm : Manager.inProcess settings g = .ok m)
    (hpath : settings.persistDirectory = some path) (hbounded : settings.bounded = true)
    (hlimit : settings.memoryLimit = limit.getD 0)
    (hknown : m.kinds.knows .hnswPersisted = true) {u : Usage}
    (hreport : Usage.collect tree path limit = .ok u)
    (hcanonical : ∀ entries ∈ tree.entries? path, Usage.Canonical entries)
    (hrows : Housed rows row (u.segments.map (·.segment)))
    (hall : ((initial m w).replay (visits rows row (u.segments.map (·.segment)))).site.journal.all
      Call.succeeded = true)
    (hstill : Undisturbed tree (visits rows row (u.segments.map (·.segment))) (initial m w)) :
    let s := (initial m w).replay (visits rows row (u.segments.map (·.segment)))
    (∀ x ∈ u.segments, s.manager.isRunning x.segment = !x.evicted) ∧
      s.manager.counters.memoryEvictions = u.segments.countP (·.evicted) := by
  obtain ⟨entries, hentries, hmeasurable, rfl⟩ := Usage.collect_eq_ok hreport
  have hentriesCanonical := hcanonical entries hentries
  have hsegments : (Usage.ofEntries path limit entries).segments.map (·.segment) =
      (Usage.foundIn entries).map (·.segment) := by
    rw [Usage.segments_ofEntries, List.map_map]
    rfl
  rw [hsegments] at hrows hall hstill ⊢
  have hforecast := forecast_replay hm hpath hbounded hlimit hknown
    (Usage.nodup_foundIn hentriesCanonical)
    (fun f hf => Usage.sizeOf_found hentries hentriesCanonical hmeasurable hf) hrows hall hstill
  refine ⟨?_, hforecast.evictions.trans (Usage.countP_evicted path limit hentriesCanonical).symm⟩
  intro x hx
  rw [Usage.segments_ofEntries] at hx
  obtain ⟨f, hf, rfl⟩ := List.mem_map.mp hx
  have hruns := hforecast.running f.segment
  rw [← Option.isSome_iff_exists, ← isRunning_eq] at hruns
  rw [Bool.eq_iff_iff, hruns]
  simp [List.mem_map_of_mem hf]

/-! ## Files that stay -/

structure LeavesFiles (W : Type) [Backend W] : Prop where
  build : ∀ root serial r (w : W),
    Backend.files (Backend.build root serial r w).2 = Backend.files w
  start : ∀ i (w : W), Backend.files (Backend.perform .start i w).2 = Backend.files w
  stop : ∀ i (w : W), Backend.files (Backend.perform .stop i w).2 = Backend.files w

namespace LeavesFiles

variable {s' : System W}

theorem launch (h : LeavesFiles W) (m : Manager) (r : Record) (site : Site W) :
    Backend.files (System.launch m r site).2.world = Backend.files site.world := by
  have hbuild := h.build m.persistDirectory site.built r site.world
  unfold System.launch Registry.instantiate Site.build
  by_cases hknown : m.kinds.knows r.kind = true
  · rw [if_pos hknown]
    cases hbuilt : Backend.build m.persistDirectory site.built r site.world with
    | mk answer world =>
        rw [hbuilt] at hbuild
        cases answer with
        | error fault => exact hbuild
        | ok views =>
            have hstart := h.start ⟨site.built, r, views⟩ world
            simp only [Site.perform]
            cases hstarted : Backend.perform .start ⟨site.built, r, views⟩ world with
            | mk outcome last =>
                rw [hstarted] at hstart
                cases outcome <;> exact hstart.trans hbuild
  · rw [if_neg hknown]

theorem loads (h : LeavesFiles W) {answer : Except Fault (Record × Instance)}
    (hload : Loads c k s answer s') :
    Backend.files s'.site.world = Backend.files s.site.world := by
  have hlaunched : ∀ {m : Manager} {r : Record} {outcome : Except Fault Instance} {site : Site W},
      System.launch m r s.site = (outcome, site) →
      Backend.files site.world = Backend.files s.site.world := by
    intro m r outcome site hlaunch
    have hfiles := h.launch m r s.site
    rwa [hlaunch] at hfiles
  cases hload with
  | refused fault => rfl
  | running hadmits hrunning => rfl
  | failed hadmits habsent hlaunch => exact hlaunched hlaunch
  | launched hadmits habsent hlaunch => exact hlaunched hlaunch

theorem evictAll (h : LeavesFiles W) (gone : List (CollectionId × Record)) (s : System W) :
    Backend.files (s.evictAll gone).site.world = Backend.files s.site.world := by
  induction gone generalizing s with
  | nil => rfl
  | cons e rest ih =>
      rw [evictAll_cons, ih, site_evict]
      cases s.manager.running? e.2.id with
      | none => rfl
      | some i => exact h.stop i s.site.world

theorem looks (h : LeavesFiles W) {answer : Except Fault Instance}
    (hlook : Looks c k s answer s') :
    Backend.files s'.site.world = Backend.files s.site.world := by
  cases hlook with
  | cached hcached hrunning => rfl
  | failed habsent hload => exact h.loads hload
  | loaded habsent hload =>
      rename_i r i next
      have hloaded := h.loads hload
      exact (h.evictAll (next.displaced r k.scope) (next.caching r k.scope)).trans hloaded

variable {segments : List SegmentId}

theorem coherent_visits (hm : Manager.inProcess settings g = .ok m)
    (hdistinct : (rows.map (·.id)).Nodup) (w : W) :
    ((initial m w).replay (visits rows row segments)).Coherent rows := by
  have hids : Event.NeverShared (visits rows row segments : List (Event W)) := by
    unfold Event.NeverShared
    rwa [created_visits]
  have hcoherent := coherent_replay (.inProcess hm) w hids
  rwa [created_visits] at hcoherent

theorem replay (h : LeavesFiles W) (hm : Manager.inProcess settings g = .ok m)
    (hdistinct : (rows.map (·.id)).Nodup) :
    Backend.files ((initial m w).replay (visits rows row segments)).site.world =
      Backend.files w := by
  induction segments using List.reverseRecOn with
  | nil => rfl
  | append_singleton segments segment ih =>
      rw [visits_concat, replay_concat]
      exact (h.looks ((coherent_visits hm hdistinct w).looks_getSegment _ .vectorReader)).trans ih

theorem undisturbed (h : LeavesFiles W) (hm : Manager.inProcess settings g = .ok m)
    (hdistinct : (rows.map (·.id)).Nodup) :
    Undisturbed (Backend.files w) (visits rows row segments) (initial m w) := by
  intro before c after hsplit
  cases before with
  | nil => cases hsplit
  | cons e earlier =>
      obtain ⟨rfl, hgets⟩ := List.cons.inj hsplit
      obtain ⟨asked, rest, rfl, rfl, hrest⟩ := List.map_eq_append_iff.mp hgets
      have hcoherent : ((initial m w).replay (visits rows row asked)).Coherent rows :=
        coherent_visits hm hdistinct w
      exact (h.loads (loads_load c .vectorReader hcoherent.filtering)).trans (h.replay hm hdistinct)

end LeavesFiles

theorem leavesFiles_world : LeavesFiles World := by
  have hperform : ∀ action ≠ .delete, ∀ i (w : World),
      (w.perform action i).2.files = w.files := by
    intro action haction i w
    unfold World.perform
    cases w.life? i with
    | none => rfl
    | some life =>
        simp only
        split
        · rfl
        · split
          · rename_i persistent hactor heffective
            rw [hactor] at heffective
            exact (haction heffective).elim
          · split <;> rfl
  refine ⟨?_, hperform .start (by decide), hperform .stop (by decide)⟩
  intro root serial r w
  change (w.build root serial r).2.files = w.files
  unfold World.build
  cases w.actor? r.kind with
  | none => rfl
  | some actor =>
      simp only
      split <;> rfl

def vectorsOnDisk (n bytes second : Nat) : Node :=
  .directory (toString (numberedSegment n .vector)) (FileTree.atSeconds second)
    [.file "data_level0.bin" bytes]

/-- Three segments in the workplace, the second of them changed longest ago, and a
directory that is none. -/
def stocked : FileTree :=
  [vectorsOnDisk 1 6 1, vectorsOnDisk 2 5 2, vectorsOnDisk 0 4 3, FileTree.bare "exports"].foldl
    (FileTree.put · FileTree.workplace ·) .empty

def stockedUsage : List SegmentUsage :=
  [⟨numberedSegment 1 .vector, 6, true⟩, ⟨numberedSegment 2 .vector, 5, false⟩,
    ⟨numberedSegment 0 .vector, 4, false⟩]

def ownRow (segment : SegmentId) : Record :=
  ⟨segment, .hnswPersisted, .vector, ⟨segment.uuid⟩, none⟩

theorem stocked_report :
    ∃ entries u, stocked.entries? FileTree.workplacePath = some entries ∧
      Usage.Canonical entries ∧
      Usage.collect stocked FileTree.workplacePath (some crowdedSettings.memoryLimit) = .ok u ∧
      u.segments = stockedUsage := by
  let found : List Usage.Found := [⟨FileTree.atSeconds 1, numberedSegment 1 .vector, 6⟩,
    ⟨FileTree.atSeconds 2, numberedSegment 2 .vector, 5⟩,
    ⟨FileTree.atSeconds 3, numberedSegment 0 .vector, 4⟩]
  have hread : ∀ entries ∈ stocked.entries? FileTree.workplacePath,
      entries.all (Usage.measurable FileTree.workplacePath) = true ∧
        entries.filterMap Usage.Found.ofNode? = found := by decide +kernel
  have hcanonical : ∀ entries ∈ stocked.entries? FileTree.workplacePath,
      Usage.Canonical entries := by decide +kernel
  obtain ⟨entries, hentries, -, hfound, hcollect⟩ :=
    Usage.collect_of_found _ _ _ (by decide +kernel) hread (by decide +kernel)
      (some crowdedSettings.memoryLimit)
  refine ⟨entries, _, hentries, hcanonical entries hentries, hcollect, ?_⟩
  rw [Usage.segments_ofEntries, hfound]
  decide +kernel

theorem stocked_segments_are_foretold :
    ∃ m u, Manager.inProcess crowdedSettings keeperRegistry = .ok m ∧
      Usage.collect stocked FileTree.workplacePath (some crowdedSettings.memoryLimit) = .ok u ∧
      u.segments = stockedUsage ∧
      let segments := u.segments.map (·.segment)
      let s := (initial m { keeperWorld with files := stocked }).replay
        (visits (segments.map ownRow) ownRow segments)
      (∀ x ∈ u.segments, s.manager.isRunning x.segment = !x.evicted) ∧
        s.manager.counters.memoryEvictions = 1 := by
  obtain ⟨entries, u, hentries, hcanonical, hcollect, hsegments⟩ := stocked_report
  have hrows : Housed ((u.segments.map (·.segment)).map ownRow) ownRow
      (u.segments.map (·.segment)) := by
    rw [hsegments]
    refine ⟨?_, ?_, ?_, ?_⟩ <;> decide +kernel
  have hran : ∀ m, Manager.inProcess crowdedSettings keeperRegistry = .ok m →
      m.kinds.knows .hnswPersisted = true ∧
      ((initial m { keeperWorld with files := stocked }).replay
        (visits ((u.segments.map (·.segment)).map ownRow) ownRow
          (u.segments.map (·.segment)))).site.journal.all Call.succeeded = true := by
    rw [hsegments]
    rintro m ⟨⟩
    decide +kernel
  obtain ⟨m, hm⟩ : ∃ m, Manager.inProcess crowdedSettings keeperRegistry = .ok m := ⟨_, rfl⟩
  obtain ⟨hknown, hall⟩ := hran m hm
  have hcanonical' : ∀ entries', stocked.entries? FileTree.workplacePath = some entries' →
      Usage.Canonical entries' := by
    intro entries' hentries'
    rwa [Option.some.inj (hentries.symm.trans hentries')] at hcanonical
  obtain ⟨hruns, hevictions⟩ := report_foretells_evictions hm rfl rfl rfl hknown hcollect
    hcanonical' hrows hall (leavesFiles_world.undisturbed hm hrows.distinct)
  refine ⟨m, u, hm, hcollect, hsegments, hruns, ?_⟩
  rw [hevictions, hsegments]
  decide

end System

end SegmentManager
