import SegmentManager.Proofs.System.Accesses
import SegmentManager.Proofs.System.Coherence

/-!
# Which row serves a lookup

A catalog lists its rows in the order in which they came, and a fetch selects
the first one that fits.  What a lookup loads is what its fetch selected, and no
request changes the rows.
-/

namespace SegmentManager

namespace Registry

variable {g : Registry} {rows : List Record} {c : CollectionId} {scope : Scope} {r : Record}

def first? (g : Registry) (rows : List Record) (c : CollectionId) (scope : Scope) :
    Option Record :=
  rows.find? fun r => r.collection = c ∧ r.scope = scope ∧ g.knows r.kind

def sought (g : Registry) (rows : List Record) (c : CollectionId) (scope : Scope) :
    Except Fault Record :=
  match g.first? rows c scope with
  | some r => .ok r
  | none => .error (.segmentNotFound c scope)

theorem first?_append (hfirst : g.first? rows c scope = some r) (later : List Record) :
    g.first? (rows ++ later) c scope = some r := by
  unfold first? at hfirst ⊢
  rw [List.find?_append, hfirst]
  rfl

theorem first?_filter {keep : Record → Bool}
    (hkeep : ∀ row, row.collection = c → keep row = true) :
    g.first? (rows.filter keep) c scope = g.first? rows c scope := by
  unfold first?
  rw [List.find?_filter]
  congr 1
  funext row
  by_cases hcollection : row.collection = c
  · simp [hkeep row hcollection]
  · simp [hcollection]

theorem first?_eq_none (hnone : ∀ row ∈ rows, row.collection = c → row.scope = scope →
    g.knows row.kind = false) : g.first? rows c scope = none := by
  unfold first?
  rw [List.find?_eq_none]
  intro row hrow hfits
  simp only [decide_eq_true_eq] at hfits
  obtain ⟨hcollection, hscope, hknown⟩ := hfits
  rw [hnone row hrow hcollection hscope] at hknown
  cases hknown

theorem selectKnown_filter (g : Registry) (rows : List Record) (c : CollectionId)
    (scope : Scope) :
    g.selectKnown (rows.filter fun row => row.collection = c ∧ ∀ s ∈ some scope, row.scope = s)
      c scope = g.sought rows c scope := by
  have hfind : (rows.filter fun row =>
      row.collection = c ∧ ∀ s ∈ some scope, row.scope = s).find?
        (fun row => row.scope = scope ∧ g.knows row.kind) = g.first? rows c scope := by
    unfold first?
    rw [List.find?_filter]
    congr 1
    funext row
    by_cases hscope : row.scope = scope <;> simp [hscope]
  cases hfirst : g.first? rows c scope <;> simp only [selectKnown, sought, hfind, hfirst]

end Registry

theorem Manager.complete_of_inProcess {m : Manager} {settings : Settings}
    (hdeployment : m.deployment = .inProcess settings) (r : Record) : m.complete r = .ok r := by
  unfold complete
  rw [hdeployment]

structure Catalog.SameContents (k k' : Catalog) : Prop where
  rows : k'.rows = k.rows
  refusal : k'.refusal = k.refusal
  filtering : k'.filtering = k.filtering

namespace Catalog.SameContents

variable {k k' k'' : Catalog}

theorem refl (k : Catalog) : SameContents k k := ⟨rfl, rfl, rfl⟩

theorem trans (h : SameContents k k') (h' : SameContents k' k'') : SameContents k k'' :=
  ⟨h'.rows.trans h.rows, h'.refusal.trans h.refusal, h'.filtering.trans h.filtering⟩

theorem of_eq (h : k' = k) : SameContents k k' := h ▸ refl k'

theorem read (k : Catalog) (c : CollectionId) (scope : Option Scope) :
    SameContents k (k.read c scope).2 :=
  ⟨rows_read k c scope, refusal_read k c scope, filtering_read k c scope⟩

end Catalog.SameContents

namespace System

variable {W : Type} {c : CollectionId} {k : Capability} {s s' : System W} {r : Record}

/-! ## Selecting -/

theorem fetch_fst (hfilter : s.catalog.filtering = true) (hserves : s.catalog.refusal = none)
    (c : CollectionId) (scope : Scope) :
    (s.fetch c scope).1 =
      (s.manager.kinds.sought s.catalog.rows c scope).bind s.manager.complete := by
  rw [← Registry.selectKnown_filter]
  simp only [fetch, readCatalog, Catalog.read, hserves, hfilter, if_true]
  rfl

theorem first?_of_fetch {scope : Scope} (hfilter : s.catalog.filtering = true)
    (hfetch : (s.fetch c scope).1 = .ok r) :
    ∃ row, s.manager.kinds.first? s.catalog.rows c scope = some row ∧
      s.manager.complete row = .ok r := by
  cases hrefusal : s.catalog.refusal with
  | some text =>
      simp only [fetch, readCatalog, Catalog.read, hrefusal] at hfetch
      cases hfetch
  | none =>
      rw [fetch_fst hfilter hrefusal, Registry.sought] at hfetch
      cases hfirst : s.manager.kinds.first? s.catalog.rows c scope with
      | none =>
          rw [hfirst] at hfetch
          cases hfetch
      | some row =>
          rw [hfirst] at hfetch
          exact ⟨row, rfl, hfetch⟩

variable [Backend W]

theorem fetch_of_load {i : Instance} (hload : s.load c k = (.ok (r, i), s')) :
    (s.fetch c k.scope).1 = .ok r := by
  have hsame := (s.keeps_consult c k).fetch_fst c k.scope
  unfold load at hload
  cases hfetch : (s.consult c k.scope).2.fetch c k.scope with
  | mk answer next =>
      rw [hfetch] at hsame hload
      cases answer with
      | error fault => cases hload
      | ok row =>
          simp only at hload
          cases hacquire : next.acquire row with
          | mk outcome last =>
              rw [hacquire] at hload
              cases outcome with
              | error fault => cases hload
              | ok j =>
                  cases hload
                  exact hsame.symm

/-! ## What a lookup leaves in the caches -/

theorem Loads.still_running {answer : Except Fault (Record × Instance)}
    (hload : Loads c k s answer s') {segment : SegmentId} {i : Instance}
    (hrunning : s.manager.running? segment = some i) :
    s'.manager.running? segment = some i := by
  have hfetching := (running?_fetching (c := c) (k := k) segment).trans hrunning
  cases hload with
  | refused fault => exact hfetching
  | running hadmits hrunning' => exact hfetching
  | failed hadmits habsent hlaunch => exact hfetching
  | launched hadmits habsent hlaunch =>
      rename_i r j site counters
      have hinsert := Table.get?_insert s.manager.instances r.id segment j
      rw [if_neg] at hinsert
      · exact hinsert.trans hrunning
      · rintro rfl
        rw [habsent] at hrunning
        cases hrunning

theorem Loads.running?_eq {i : Instance} (hload : Loads c k s (.ok (r, i)) s')
    (segment : SegmentId) :
    s'.manager.running? segment =
      if segment = r.id then some i else s.manager.running? segment := by
  cases hload with
  | running hadmits hrunning =>
      rw [running?_fetching]
      split
      · rename_i hsegment
        rw [hsegment, hrunning]
      · rfl
  | launched hadmits habsent hlaunch =>
      exact Table.get?_insert s.manager.instances r.id segment i

theorem loaded_of_getSegment (hfilter : s.catalog.filtering = true)
    (habsent : s.manager.cached? k c = none) {i : Instance}
    (hserved : (s.getSegment c k).1 = .ok i) :
    ∃ r s', Loads c k s (.ok (r, i)) s' ∧ (s.fetch c k.scope).1 = .ok r ∧
      (s.getSegment c k).2 = s'.remember r k.scope := by
  have hload := loads_load c k hfilter
  rw [getSegment_of_absent habsent] at hserved ⊢
  cases hend : s.load c k with
  | mk answer next =>
      rw [hend] at hload hserved
      cases answer with
      | error fault => cases hserved
      | ok loaded =>
          obtain ⟨r, j⟩ := loaded
          obtain rfl : j = i := Except.ok.inj hserved
          exact ⟨r, next, hload, fetch_of_load hend, rfl⟩

variable {created : List Record}

/-- What is cached after a lookup was cached before and runs as it did, or it is
what the lookup fetched. -/
theorem Coherent.cached_after_getSegment (hs : s.Coherent created) {j : Capability}
    {d : CollectionId} {e : Record}
    (hheld : (s.getSegment c k).2.manager.cached? j d = some e) :
    (s.manager.cached? j d = some e ∧
      (s.getSegment c k).2.manager.running? e.id = s.manager.running? e.id) ∨
    j = k ∧ d = c ∧ s.manager.cached? k c = none ∧ (s.fetch c k.scope).1 = .ok e ∧
      ∃ i, (s.getSegment c k).1 = .ok i := by
  have hlook := hs.looks_getSegment c k
  cases hanswer : (s.getSegment c k).1 with
  | error fault =>
      left
      rw [hanswer] at hlook
      generalize (s.getSegment c k).2 = s' at hlook hheld ⊢
      cases hlook with
      | failed habsent hload =>
          rw [(hs.loads habsent hload).2.1.cached?] at hheld
          obtain ⟨-, i, hrunning⟩ := hs.manager.cached j d e hheld
          exact ⟨hheld, (hload.still_running hrunning).trans hrunning.symm⟩
  | ok i =>
      cases hcached : s.manager.cached? k c with
      | some r =>
          left
          obtain ⟨i', hrunning⟩ := (hs.manager.cached k c r hcached).2
          rw [getSegment_of_cached hcached hrunning] at hheld ⊢
          exact ⟨(cached?_consult c d k j s).symm.trans hheld, s.running?_consult c k.scope e.id⟩
      | none =>
          obtain ⟨r, next, hload, hfetch, hend⟩ :=
            loaded_of_getSegment hs.filtering hcached hanswer
          rw [hend] at hheld ⊢
          obtain ⟨hnext, hcaches, hok⟩ := hs.loads hcached hload
          obtain ⟨hadmits, -⟩ := hok r i rfl
          have hkept : s.manager.cached? j d = some e →
              s.manager.cached? j d = some e ∧
                (next.remember r k.scope).manager.running? e.id = s.manager.running? e.id := by
            intro hbefore
            obtain ⟨-, i', hrunning⟩ := hs.manager.cached j d e hbefore
            refine ⟨hbefore, (hnext.running?_of_held hadmits hheld).trans ?_⟩
            exact (hload.still_running hrunning).trans hrunning.symm
          have hheld' := hheld
          rw [cached?_remember r k hnext.manager.wellFormed, hcaches.cached?,
            hcaches.cached?] at hheld'
          split at hheld'
          · rename_i hj
            split at hheld'
            · rename_i hd
              obtain rfl := Option.some.inj hheld'
              exact .inr ⟨hj, hd.trans hadmits.collection, rfl, hfetch, i, rfl⟩
            · split at hheld'
              · cases hheld'
              · exact .inl (hkept (hj ▸ hheld'))
          · exact .inl (hkept hheld')

/-! ## Requests only read -/

omit [Backend W] in
theorem contents_fetching : s.catalog.SameContents (s.fetching c k).catalog :=
  .read s.catalog c (some k.scope)

theorem Loads.contents {answer : Except Fault (Record × Instance)}
    (hload : Loads c k s answer s') : s.catalog.SameContents s'.catalog := by
  cases hload <;> exact contents_fetching

theorem Looks.contents {answer : Except Fault Instance} (hlook : Looks c k s answer s') :
    s.catalog.SameContents s'.catalog := by
  cases hlook with
  | cached hcached hrunning => exact .refl s.catalog
  | failed habsent hload => exact hload.contents
  | loaded habsent hload => exact hload.contents.trans (.of_eq (catalog_remember _ k _))

theorem Tracks.contents {i : Instance} {answer : Except Fault Unit}
    (htracks : Tracks c i s answer s') : s.catalog.SameContents s'.catalog := by
  cases htracks <;> exact .refl s.catalog

theorem Hints.contents {answer : Except Fault Unit} (hhints : Hints c s answer s') :
    s.catalog.SameContents s'.catalog := by
  cases hhints with
  | remote hdeployment => exact .refl s.catalog
  | first hfirst => exact hfirst.contents
  | second hfirst hsecond => exact hfirst.contents.trans hsecond.contents
  | both hfirst hsecond hlast =>
      exact (hfirst.contents.trans hsecond.contents).trans hlast.contents

theorem Clears.contents {answer : Except Fault (List SegmentId)} (hclears : Clears c s answer s') :
    s.catalog.SameContents s'.catalog := by
  have hlisting : s.catalog.SameContents (s.listing c).catalog := .read s.catalog c none
  cases hclears with
  | refused hrefusal => exact hlisting
  | released hdeployment hdown => exact hlisting.trans (.of_eq hdown.catalog)
  | deleted hdeployment hdeletes =>
      cases hdeletes with
      | complete hok hdown => exact hlisting.trans (.of_eq hdown.catalog)
      | broken hsplit hrunning hok hfails hdown => exact hlisting.trans (.of_eq hdown.catalog)

theorem Coherent.contents_handle (hs : s.Coherent created) (q : Request) :
    s.catalog.SameContents (s.handle q).2.catalog := by
  cases q with
  | get c k => exact (hs.looks_getSegment c k).contents
  | getNamed c name =>
      change s.catalog.SameContents (s.getSegmentNamed c name).2.catalog
      unfold System.getSegmentNamed
      cases Capability.ofName? name with
      | none => exact .refl s.catalog
      | some k => exact (hs.looks_getSegment c k).contents
  | hint c operation => exact (hs.hints_hint c operation).contents
  | delete c => exact (hs.clears_deleteSegments c).contents
  | start order => exact .refl s.catalog
  | stop order => exact .refl s.catalog
  | reset order => exact .refl s.catalog

/-! ## What requests leave in the caches -/

def Selects (k : Capability) (c : CollectionId) (r : Record) (s : System W) : Prop :=
  ∃ row, s.manager.kinds.first? s.catalog.rows c k.scope = some row ∧
    s.manager.complete row = .ok r

omit [Backend W] in
theorem Selects.congr (h : s.Selects k c r) (hsetup : Manager.SameSetup s.manager s'.manager)
    (hrows : s'.catalog.rows = s.catalog.rows) : s'.Selects k c r := by
  obtain ⟨row, hfirst, hcomplete⟩ := h
  refine ⟨row, ?_, ?_⟩
  · rw [hsetup.kinds, hrows]
    exact hfirst
  · unfold Manager.complete at hcomplete ⊢
    rw [hsetup.deployment]
    exact hcomplete

theorem Coherent.held_after_getSegment (hs : s.Coherent created) {j : Capability}
    {d : CollectionId} {e : Record}
    (hheld : (s.getSegment c k).2.manager.cached? j d = some e) :
    s.manager.cached? j d = some e ∨ s.Selects j d e := by
  rcases hs.cached_after_getSegment hheld with ⟨hbefore, -⟩ | ⟨rfl, rfl, -, hfetch, -⟩
  · exact .inl hbefore
  · exact .inr (first?_of_fetch hs.filtering hfetch)

theorem Coherent.held_after_hint (hs : s.Coherent created) {operation : Operation}
    {j : Capability} {d : CollectionId} {e : Record}
    (hheld : (s.hint c operation).2.manager.cached? j d = some e) :
    s.manager.cached? j d = some e ∨ s.Selects j d e := by
  have hwarms := warms_hint c operation s
  generalize (s.hint c operation).1 = answer, (s.hint c operation).2 = s' at hwarms hheld
  have hlook := hs.looks_getSegment c .metadataReader
  have hcoherent := hs.getSegment c .metadataReader
  have hbefore : (s.getSegment c .metadataReader).2.manager.cached? j d = some e →
      s.manager.cached? j d = some e ∨ s.Selects j d e := hs.held_after_getSegment
  have hboth : ((s.getSegment c .metadataReader).2.getSegment c .vectorReader).2.manager.cached? j d
      = some e → s.manager.cached? j d = some e ∨ s.Selects j d e := by
    intro hlater
    rcases hcoherent.held_after_getSegment hlater with hheld' | hselects
    · exact hbefore hheld'
    · exact .inr (hselects.congr hlook.sameSetup.symm hlook.contents.rows.symm)
  cases hwarms with
  | remote hdeployment => exact .inl hheld
  | first hdeployment hfirst =>
      rw [hfirst] at hbefore
      exact hbefore hheld
  | second hdeployment hfirst hsecond =>
      rw [hfirst, hsecond] at hboth
      exact hboth hheld
  | both hdeployment hfirst hsecond =>
      rename_i i s₁ s₂
      rw [hfirst, hsecond] at hboth
      have htracks := tracks_trackIndex c i s₂
      generalize (s₂.trackIndex c i).1 = answer, (s₂.trackIndex c i).2 = s' at htracks hheld
      cases htracks <;> exact hboth hheld

theorem Coherent.held_after_handle (hs : s.Coherent created) (q : Request) {j : Capability}
    {d : CollectionId} {e : Record} (hheld : (s.handle q).2.manager.cached? j d = some e) :
    s.manager.cached? j d = some e ∨ s.Selects j d e := by
  cases q with
  | get c k => exact hs.held_after_getSegment hheld
  | getNamed c name =>
      change (s.getSegmentNamed c name).2.manager.cached? j d = some e at hheld
      unfold System.getSegmentNamed at hheld
      cases hname : Capability.ofName? name with
      | none =>
          rw [hname] at hheld
          exact .inl hheld
      | some k =>
          rw [hname] at hheld
          exact hs.held_after_getSegment hheld
  | hint c operation => exact hs.held_after_hint hheld
  | delete c => exact .inl ((hs.clears_deleteSegments c).before.2 j d e hheld)
  | start order => exact .inl hheld
  | stop order => exact .inl hheld
  | reset order =>
      have hnone : (s.handle (.reset order)).2.manager.cached? j d = none :=
        cached?_reset order j d s
      rw [hnone] at hheld
      cases hheld

end System

end SegmentManager
