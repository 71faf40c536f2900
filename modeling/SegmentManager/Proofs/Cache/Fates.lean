import SegmentManager.Proofs.Cache.Records
import SegmentManager.Proofs.Cache.Uses

/-!
# What becomes of cached records

A bounded cache announces the records that it evicts, and whoever hears of one
may read the cache and pop from it while others are still to be announced.  A
chronicle takes down what is put in, what leaves and why, and what is announced.
However the listener behaves, each record that was put in leaves once, or is
still there, and just the evicted ones are announced.
-/

namespace SegmentManager.RecordCache

inductive Fate
  | evicted
  | popped
  | replaced
  | dropped
deriving DecidableEq, Repr

inductive Note
  | stored (c : CollectionId) (r : Record) (size : Nat)
  | left (c : CollectionId) (r : Record) (fate : Fate)
  /-- A record was announced, and the collection was cached at the time or not. -/
  | announced (c : CollectionId) (r : Record) (present : Bool)
deriving DecidableEq, Repr

inductive Access
  | get (c : CollectionId)
  | pop (c : CollectionId)
deriving DecidableEq, Repr

inductive RecordUse
  | access (a : Access)
  | set (c : CollectionId) (r : Record) (size : Nat)
  | reset
deriving DecidableEq, Repr

/-- A cache with all uses of it and the notes on them, the latest last. -/
structure Chronicle where
  cache : RecordCache
  uses : List (CacheUse CollectionId Record)
  notes : List Note

/-- How a listener reacts to an announcement, given all that happened so far. -/
abbrev Listener := Chronicle → CollectionId → Record → List Access

namespace Chronicle

def fresh (capacity : Nat) : Chronicle := ⟨.ofCapacity capacity, [], []⟩

def departures (fate : Fate) (gone : List (CollectionId × Record)) : List Note :=
  gone.map fun e => .left e.1 e.2 fate

def access (t : Chronicle) : Access → Chronicle
  | .get c => { t with cache := (t.cache.touch c).2, uses := t.uses ++ [.get c] }
  | .pop c =>
      let (found, cache) := t.cache.remove c
      { cache
        uses := t.uses ++ [.remove c]
        notes := t.notes ++ departures .popped (found.toList.map (c, ·)) }

def announce (listener : Listener) (c : CollectionId) (r : Record) (t : Chronicle) : Chronicle :=
  let heard := { t with notes := t.notes ++ [.announced c r (t.cache.contains c)] }
  (listener heard c r).foldl access heard

def store (c : CollectionId) (r : Record) (size : Nat) (t : Chronicle) (cache : RecordCache) :
    Chronicle where
  cache := cache
  uses := t.uses ++ [.insert c r size]
  notes := t.notes ++ departures .replaced ((t.cache.peek? c).toList.map (c, ·)) ++
    [.stored c r size] ++ departures .evicted (t.cache.evicted c r size)

def set (listener : Listener) (c : CollectionId) (r : Record) (size : Nat) (t : Chronicle) :
    Chronicle :=
  t.cache.insertThen c r size (t.store c r size) (announce listener)

def reset (t : Chronicle) : Chronicle where
  cache := t.cache.clear
  uses := t.uses ++ [.clear]
  notes := t.notes ++ departures .dropped (t.cache.charges.map fun e => (e.key, e.value))

def use (listener : Listener) (t : Chronicle) : RecordUse → Chronicle
  | .access a => t.access a
  | .set c r size => t.set listener c r size
  | .reset => t.reset

def useAll (listener : Listener) (uses : List RecordUse) (t : Chronicle) : Chronicle :=
  uses.foldl (use listener) t

/-! ## Reading the notes -/

def evictions (notes : List Note) : List (CollectionId × Record) :=
  notes.filterMap fun
    | .left c r .evicted => some (c, r)
    | _ => none

def announcements (notes : List Note) : List (CollectionId × Record) :=
  notes.filterMap fun
    | .announced c r _ => some (c, r)
    | _ => none

def Note.isAbout (c : CollectionId) : Note → Bool
  | .stored d _ _ => d = c
  | .left d _ _ => d = c
  | .announced _ _ _ => false

structure Version where
  record : Record
  size : Nat
  fate : Fate

/-- The notes on a collection tell of versions that left, one after another, and
after those of the one that is held. -/
def Fated (c : CollectionId) (notes : List Note)
    (held : Option (RecencyEntry CollectionId Record)) : Prop :=
  ∃ past : List Version, notes.filter (Note.isAbout c) =
    past.flatMap (fun v => [.stored c v.record v.size, .left c v.record v.fate]) ++
      held.toList.map fun e => .stored c e.value e.size

variable {c d : CollectionId} {r : Record} {size : Nat} {fate : Fate} {notes later : List Note}
  {gone : List (CollectionId × Record)} {e : RecencyEntry CollectionId Record}
  {entry : Option (RecencyEntry CollectionId Record)}
  {entryOf : CollectionId → Option (RecencyEntry CollectionId Record)}

namespace Fated

theorem skip (h : Fated c notes entry) (hlater : later.filter (Note.isAbout c) = []) :
    Fated c (notes ++ later) entry := by
  obtain ⟨past, hpast⟩ := h
  refine ⟨past, ?_⟩
  rw [List.filter_append, hlater, List.append_nil, hpast]

theorem store (h : Fated c notes none) (r : Record) (size : Nat) :
    Fated c (notes ++ [.stored c r size]) (some ⟨c, r, size⟩) := by
  obtain ⟨past, hpast⟩ := h
  refine ⟨past, ?_⟩
  rw [List.filter_append, hpast]
  simp [Note.isAbout]

theorem leave (h : Fated c notes (some e)) (fate : Fate) :
    Fated c (notes ++ [.left c e.value fate]) none := by
  obtain ⟨past, hpast⟩ := h
  refine ⟨past ++ [⟨e.value, e.size, fate⟩], ?_⟩
  rw [List.filter_append, hpast]
  simp [Note.isAbout]

end Fated

theorem fated_departures (h : ∀ d, Fated d notes (entryOf d)) (hnodup : (gone.map (·.1)).Nodup)
    (hgone : ∀ x ∈ gone, (entryOf x.1).map (·.value) = some x.2) (fate : Fate) (c : CollectionId) :
    Fated c (notes ++ departures fate gone) (if c ∈ gone.map (·.1) then none else entryOf c) := by
  induction gone generalizing notes entryOf with
  | nil => simpa [departures] using h c
  | cons first rest ih =>
      rw [List.map_cons, List.nodup_cons] at hnodup
      have hcons : notes ++ departures fate (first :: rest) =
          (notes ++ [.left first.1 first.2 fate]) ++ departures fate rest := by simp [departures]
      obtain ⟨entry, hentry, hvalue⟩ := Option.map_eq_some_iff.mp (hgone first (by simp))
      have hfirst : ∀ d, Fated d (notes ++ [.left first.1 first.2 fate])
          (if d = first.1 then none else entryOf d) := by
        intro d
        split
        · rename_i hd
          subst hd
          have hleave := (hentry ▸ h first.1).leave fate
          rwa [hvalue] at hleave
        · rename_i hd
          exact (h d).skip (by simpa [Note.isAbout] using Ne.symm hd)
      have hstill : ∀ x ∈ rest,
          (if x.1 = first.1 then none else entryOf x.1).map (·.value) = some x.2 := by
        intro x hx
        have hne : x.1 ≠ first.1 := fun heq => hnodup.1 (heq ▸ List.mem_map_of_mem hx)
        rw [if_neg hne]
        exact hgone x (List.mem_cons_of_mem _ hx)
      have hrest := ih hfirst hnodup.2 hstill
      rw [hcons]
      have hsame : (if c ∈ (first :: rest).map (·.1) then none else entryOf c) =
          if c ∈ rest.map (·.1) then none else if c = first.1 then none else entryOf c := by
        grind
      rw [hsame]
      exact hrest

theorem fated_departure (h : ∀ d, Fated d notes (entryOf d)) (c : CollectionId) (fate : Fate)
    (d : CollectionId) :
    Fated d (notes ++ departures fate (((entryOf c).map (·.value)).toList.map (c, ·)))
      (if d = c then none else entryOf d) := by
  cases hfound : entryOf c with
  | none =>
      have hsame : (if d = c then none else entryOf d) = entryOf d := by grind
      rw [hsame]
      simpa [departures] using h d
  | some e =>
      have hone : ([(c, e.value)].map (·.1)).Nodup := List.nodup_singleton c
      have hleave := fated_departures h hone (by simp [hfound]) fate d
      simpa using hleave

/-! ## What always holds -/

def held (t : Chronicle) (c : CollectionId) : Option (RecencyEntry CollectionId Record) :=
  t.cache.charges.find? (·.key = c)

def entries (capacity : Nat) (t : Chronicle) : RecencyCache CollectionId Record :=
  (RecencyCache.empty capacity).useAll t.uses

structure Kept (capacity : Nat) (t : Chronicle) : Prop where
  cache : t.cache = .bounded (t.entries capacity)
  fated : ∀ c, Fated c t.notes (t.held c)
  absent : ∀ c r present, .announced c r present ∈ t.notes → present = false

variable {capacity : Nat} {t t' : Chronicle} {listener : Listener}

theorem wellFormed_entries (capacity : Nat) (t : Chronicle) : (t.entries capacity).WellFormed :=
  RecencyCache.wellFormed_useAll (RecencyCache.wellFormed_empty capacity) t.uses

theorem Kept.wellFormed (ht : t.Kept capacity) : t.cache.WellFormed := by
  rw [ht.cache]
  exact wellFormed_entries capacity t

theorem Kept.held_eq (ht : t.Kept capacity) (c : CollectionId) :
    t.held c = (t.entries capacity).find? c := by
  rw [held, ht.cache]
  rfl

theorem Kept.peek?_eq (ht : t.Kept capacity) (c : CollectionId) :
    t.cache.peek? c = (t.held c).map (·.value) := by
  rw [ht.held_eq, ht.cache]
  rfl

theorem kept_fresh (capacity : Nat) : (fresh capacity).Kept capacity := by
  refine ⟨rfl, ?_, ?_⟩
  · intro c
    exact ⟨[], rfl⟩
  · rintro c r present ⟨⟩

/-! ## Accesses -/

theorem evictions_append (notes later : List Note) :
    evictions (notes ++ later) = evictions notes ++ evictions later := List.filterMap_append

theorem announcements_append (notes later : List Note) :
    announcements (notes ++ later) = announcements notes ++ announcements later :=
  List.filterMap_append

theorem evictions_departures (hfate : fate ≠ .evicted) (gone : List (CollectionId × Record)) :
    evictions (departures fate gone) = [] := by
  rw [evictions, List.filterMap_eq_nil_iff]
  intro note hnote
  obtain ⟨e, -, rfl⟩ := List.mem_map.mp hnote
  cases fate with
  | evicted => exact (hfate rfl).elim
  | popped => rfl
  | replaced => rfl
  | dropped => rfl

theorem evictions_departures_evicted (gone : List (CollectionId × Record)) :
    evictions (departures .evicted gone) = gone := by
  rw [evictions, departures, List.filterMap_map]
  exact List.filterMap_some

theorem announcements_departures (fate : Fate) (gone : List (CollectionId × Record)) :
    announcements (departures fate gone) = [] := by
  rw [announcements, List.filterMap_eq_nil_iff]
  intro note hnote
  obtain ⟨e, -, rfl⟩ := List.mem_map.mp hnote
  rfl

theorem announced_of_append_departures {present : Bool}
    (hmem : .announced c r present ∈ notes ++ departures fate gone) :
    .announced c r present ∈ notes := by
  rcases List.mem_append.mp hmem with hbefore | hleft
  · exact hbefore
  · obtain ⟨e, -, he⟩ := List.mem_map.mp hleft
    cases he

structure Quiet (t t' : Chronicle) : Prop where
  evictions : evictions t'.notes = evictions t.notes
  announcements : announcements t'.notes = announcements t.notes
  absent : ∀ c, t.cache.peek? c = none → t'.cache.peek? c = none

theorem Quiet.refl (t : Chronicle) : Quiet t t := ⟨rfl, rfl, fun _ => id⟩

theorem Quiet.trans {t'' : Chronicle} (h : Quiet t t') (h' : Quiet t' t'') : Quiet t t'' :=
  ⟨h'.evictions.trans h.evictions, h'.announcements.trans h.announcements,
    fun c hc => h'.absent c (h.absent c hc)⟩

theorem quiet_access (t : Chronicle) (a : Access) : Quiet t (t.access a) := by
  cases a with
  | get c =>
      refine ⟨rfl, rfl, ?_⟩
      intro d hd
      exact (peek?_touch t.cache c d).trans hd
  | pop c =>
      refine ⟨?_, ?_, ?_⟩
      · simp only [access, evictions_append, evictions_departures (show Fate.popped ≠ .evicted by simp),
          List.append_nil]
      · simp only [access, announcements_append, announcements_departures, List.append_nil]
      · intro d hd
        have hpeek := peek?_without t.cache c d
        split at hpeek
        · exact hpeek
        · exact hpeek.trans hd

theorem Kept.get (ht : t.Kept capacity) (c : CollectionId) : (t.access (.get c)).Kept capacity := by
  have hcache : (t.access (.get c)).cache = .bounded ((t.access (.get c)).entries capacity) := by
    simp only [access, entries, RecencyCache.useAll_concat, ht.cache]
    rfl
  refine ⟨hcache, ?_, ht.absent⟩
  intro d
  have hheld : (t.access (.get c)).held d = t.held d := by
    rw [ht.held_eq, held, hcache]
    simp only [access, entries, RecencyCache.useAll_concat]
    exact RecencyCache.find?_touch _ c d
  rw [hheld]
  exact ht.fated d

theorem Kept.pop (ht : t.Kept capacity) (c : CollectionId) : (t.access (.pop c)).Kept capacity := by
  have hcache : (t.access (.pop c)).cache = .bounded ((t.access (.pop c)).entries capacity) := by
    simp only [access, entries, RecencyCache.useAll_concat, ht.cache]
    rfl
  refine ⟨hcache, ?_, ?_⟩
  · intro d
    have hheld : (t.access (.pop c)).held d = if d = c then none else t.held d := by
      rw [ht.held_eq, held, hcache]
      simp only [access, entries, RecencyCache.useAll_concat]
      exact RecencyCache.find?_drop _ c d
    have hnotes : (t.access (.pop c)).notes =
        t.notes ++ departures .popped (((t.held c).map (·.value)).toList.map (c, ·)) := by
      rw [← ht.peek?_eq, ← remove_fst]
      rfl
    rw [hheld, hnotes]
    exact fated_departure ht.fated c .popped d
  · intro d r present hmem
    exact ht.absent d r present (announced_of_append_departures hmem)

theorem Kept.access (ht : t.Kept capacity) (a : Access) : (t.access a).Kept capacity := by
  cases a with
  | get c => exact ht.get c
  | pop c => exact ht.pop c

theorem Kept.accessAll (ht : t.Kept capacity) (accesses : List Access) :
    (accesses.foldl Chronicle.access t).Kept capacity ∧
      Quiet t (accesses.foldl Chronicle.access t) := by
  induction accesses generalizing t with
  | nil => exact ⟨ht, .refl t⟩
  | cons a rest ih =>
      obtain ⟨hkept, hquiet⟩ := ih (ht.access a)
      exact ⟨hkept, (quiet_access t a).trans hquiet⟩

/-! ## Announcements -/

theorem Kept.announce (ht : t.Kept capacity) (listener : Listener)
    (habsent : t.cache.peek? c = none) (r : Record) :
    (t.announce listener c r).Kept capacity ∧
      evictions (t.announce listener c r).notes = evictions t.notes ∧
      announcements (t.announce listener c r).notes = announcements t.notes ++ [(c, r)] ∧
      ∀ d, t.cache.peek? d = none → (t.announce listener c r).cache.peek? d = none := by
  have hpresent : t.cache.contains c = false := by rw [contains, habsent, Option.isSome_none]
  unfold Chronicle.announce
  rw [hpresent]
  simp only
  generalize hheard : (⟨t.cache, t.uses, t.notes ++ [.announced c r false]⟩ : Chronicle) = heard
  have hkept : heard.Kept capacity := by
    subst hheard
    refine ⟨ht.cache, ?_, ?_⟩
    · intro d
      exact (ht.fated d).skip rfl
    · intro d r' present hmem
      rcases List.mem_append.mp hmem with hbefore | hnew
      · exact ht.absent d r' present hbefore
      · cases List.mem_singleton.mp hnew
        rfl
  obtain ⟨hafter, hquiet⟩ := hkept.accessAll (listener heard c r)
  refine ⟨hafter, ?_, ?_, ?_⟩
  · rw [hquiet.evictions, ← hheard, evictions_append]
    exact List.append_nil _
  · rw [hquiet.announcements, ← hheard, announcements_append]
    rfl
  · intro d hd
    exact hquiet.absent d (by rw [← hheard]; exact hd)

theorem Kept.announceAll (ht : t.Kept capacity) (listener : Listener)
    (hgone : ∀ x ∈ gone, t.cache.peek? x.1 = none) :
    (gone.foldl (fun t x => t.announce listener x.1 x.2) t).Kept capacity ∧
      evictions (gone.foldl (fun t x => t.announce listener x.1 x.2) t).notes =
        evictions t.notes ∧
      announcements (gone.foldl (fun t x => t.announce listener x.1 x.2) t).notes =
        announcements t.notes ++ gone := by
  induction gone generalizing t with
  | nil => exact ⟨ht, rfl, (List.append_nil _).symm⟩
  | cons first rest ih =>
      obtain ⟨hkept, hevictions, hannouncements, hstill⟩ :=
        ht.announce listener (hgone first (by simp)) first.2
      obtain ⟨hkept', hevictions', hannouncements'⟩ :=
        ih hkept fun x hx => hstill x.1 (hgone x (List.mem_cons_of_mem _ hx))
      refine ⟨hkept', hevictions'.trans hevictions, ?_⟩
      rw [List.foldl_cons, hannouncements', hannouncements, List.append_assoc]
      rfl

/-! ## Putting in -/

theorem Kept.store (ht : t.Kept capacity) (c : CollectionId) (r : Record) (size : Nat) :
    (t.store c r size (t.cache.insert c r size).2).Kept capacity := by
  have hwell := wellFormed_entries capacity t
  have hcached := ht.wellFormed
  have hcache : (t.cache.insert c r size).2 =
      .bounded (((t.entries capacity).insert c r size).2) := by
    rw [ht.cache]
    rfl
  have hevicted : t.cache.evicted c r size = ((t.entries capacity).insert c r size).1 := by
    rw [ht.cache]
    rfl
  have hnew : c ∉ (t.cache.evicted c r size).map (·.1) := by
    intro hmem
    obtain ⟨x, hx, hkey⟩ := List.mem_map.mp hmem
    exact (peek?_of_mem_evicted hcached hx).1 hkey
  refine ⟨?_, ?_, ?_⟩
  · simp only [Chronicle.store, entries, RecencyCache.useAll_concat]
    exact hcache
  -- The old record of the collection makes way, the new one is put in, others are evicted.
  · have hreplaced := fated_departure ht.fated c .replaced
    rw [← ht.peek?_eq] at hreplaced
    have hstored : ∀ d, Fated d
        (t.notes ++ departures .replaced ((t.cache.peek? c).toList.map (c, ·)) ++
          [.stored c r size])
        (if d = c then some ⟨c, r, size⟩ else t.held d) := by
      intro d
      have hbefore := hreplaced d
      by_cases hd : d = c
      · subst hd
        rw [if_pos rfl] at hbefore ⊢
        exact hbefore.store r size
      · rw [if_neg hd] at hbefore ⊢
        exact hbefore.skip (by simpa [Note.isAbout] using Ne.symm hd)
    have hleaving : ∀ x ∈ t.cache.evicted c r size,
        (if x.1 = c then some ⟨c, r, size⟩ else t.held x.1).map (·.value) = some x.2 := by
      intro x hx
      obtain ⟨hother, hpeek⟩ := peek?_of_mem_evicted hcached hx
      rw [if_neg hother, ← ht.peek?_eq, hpeek]
    intro d
    have hheld : (t.store c r size (t.cache.insert c r size).2).held d =
        if d ∈ (t.cache.evicted c r size).map (·.1) then none
        else if d = c then some ⟨c, r, size⟩ else t.held d := by
      have hfind := RecencyCache.find?_insert hwell c r size d
      rw [← ht.held_eq, ← hevicted] at hfind
      simp only [Chronicle.store, held, hcache]
      refine hfind.trans ?_
      by_cases hd : d = c
      · subst hd
        rw [if_pos rfl, if_neg hnew, if_pos rfl]
      · rw [if_neg hd, if_neg hd]
        rfl
    rw [hheld]
    exact fated_departures hstored (nodup_evicted hcached c r size) hleaving .evicted d
  · intro d r' present hmem
    rcases List.mem_append.mp (announced_of_append_departures hmem) with hbefore | hstored
    · exact ht.absent d r' present (announced_of_append_departures hbefore)
    · simp at hstored

theorem Kept.set (ht : t.Kept capacity) (listener : Listener) (c : CollectionId) (r : Record)
    (size : Nat) :
    (t.set listener c r size).Kept capacity ∧
      evictions (t.set listener c r size).notes =
        evictions t.notes ++ t.cache.evicted c r size ∧
      announcements (t.set listener c r size).notes =
        announcements t.notes ++ t.cache.evicted c r size := by
  have hcached := ht.wellFormed
  have hout : ∀ x ∈ t.cache.evicted c r size, (t.cache.insert c r size).2.peek? x.1 = none := by
    intro x hx
    rw [peek?_insert hcached, if_neg (peek?_of_mem_evicted hcached hx).1,
      if_pos (List.mem_map_of_mem hx)]
  obtain ⟨hkept, hevictions, hannouncements⟩ := (ht.store c r size).announceAll listener hout
  refine ⟨hkept, hevictions.trans ?_, hannouncements.trans ?_⟩
  · simp only [Chronicle.store, evictions_append, evictions_departures_evicted,
      evictions_departures (show Fate.replaced ≠ .evicted by simp), List.append_nil]
    rw [show evictions [.stored c r size] = [] from rfl, List.append_nil]
  · simp only [Chronicle.store, announcements_append, announcements_departures, List.append_nil]
    rw [show announcements [.stored c r size] = [] from rfl, List.append_nil]

theorem Kept.reset (ht : t.Kept capacity) : t.reset.Kept capacity := by
  have hwell := wellFormed_entries capacity t
  have hcharges : t.cache.charges = (t.entries capacity).entries := by
    rw [ht.cache]
    rfl
  refine ⟨?_, ?_, ?_⟩
  · simp only [Chronicle.reset, entries, RecencyCache.useAll_concat, ht.cache]
    rfl
  · intro d
    have hnodup : ((t.cache.charges.map fun e => (e.key, e.value)).map (·.1)).Nodup := by
      rw [List.map_map, hcharges]
      exact hwell.distinct
    have hleaving : ∀ x ∈ t.cache.charges.map (fun e => (e.key, e.value)),
        (t.held x.1).map (·.value) = some x.2 := by
      intro x hx
      obtain ⟨e, he, rfl⟩ := List.mem_map.mp hx
      rw [ht.held_eq, (RecencyCache.find?_eq_some_iff hwell.distinct).mpr ⟨hcharges ▸ he, rfl⟩]
      rfl
    have hheld : t.reset.held d =
        if d ∈ (t.cache.charges.map fun e => (e.key, e.value)).map (·.1) then none
        else t.held d := by
      rw [held, Chronicle.reset, charges_clear]
      split
      · rfl
      · rename_i habsent
        rw [List.map_map, hcharges] at habsent
        rw [ht.held_eq, (RecencyCache.find?_eq_none_iff _ _).mpr habsent]
        rfl
    rw [hheld]
    exact fated_departures ht.fated hnodup hleaving .dropped d
  · intro d r present hmem
    exact ht.absent d r present (announced_of_append_departures hmem)

/-! ## Whole histories -/

theorem Kept.use (ht : t.Kept capacity) (hannounced : announcements t.notes = evictions t.notes)
    (listener : Listener) (u : RecordUse) :
    (t.use listener u).Kept capacity ∧
      announcements (t.use listener u).notes = evictions (t.use listener u).notes := by
  cases u with
  | access a =>
      have hquiet := quiet_access t a
      exact ⟨ht.access a, by
        change announcements (t.access a).notes = evictions (t.access a).notes
        rw [hquiet.announcements, hannounced, hquiet.evictions]⟩
  | set c r size =>
      obtain ⟨hkept, hevictions, hannouncements⟩ := ht.set listener c r size
      exact ⟨hkept, by
        change announcements (t.set listener c r size).notes =
          evictions (t.set listener c r size).notes
        rw [hannouncements, hannounced, hevictions]⟩
  | reset =>
      refine ⟨ht.reset, ?_⟩
      simp only [Chronicle.use, Chronicle.reset, announcements_append, evictions_append,
        announcements_departures, evictions_departures (show Fate.dropped ≠ .evicted by simp),
        hannounced]

theorem Kept.useAll (ht : t.Kept capacity) (hannounced : announcements t.notes = evictions t.notes)
    (listener : Listener) (uses : List RecordUse) :
    (t.useAll listener uses).Kept capacity ∧
      announcements (t.useAll listener uses).notes = evictions (t.useAll listener uses).notes := by
  induction uses generalizing t with
  | nil => exact ⟨ht, hannounced⟩
  | cons u rest ih =>
      obtain ⟨hkept, hstill⟩ := ht.use hannounced listener u
      exact ih hkept hstill

/-- Whatever the listener does, each record that was put in leaves for one reason
before the next one of its collection is put in, or is still held.  The evicted
ones are announced once and the others never, each when it is out of the cache,
those of one `set` in the order in which they were used last.  After every use
the sizes of what is left sum up to the total, which is within the capacity
unless at most one record is left. -/
theorem every_stored_record_has_one_fate (capacity : Nat) (listener : Listener)
    (uses : List RecordUse) :
    let t := (fresh capacity).useAll listener uses
    (∀ c, Fated c t.notes (t.held c)) ∧
    announcements t.notes = evictions t.notes ∧
    (∀ c r present, .announced c r present ∈ t.notes → present = false) ∧
    (∃ records, t.cache = .bounded records ∧ records.capacity = capacity ∧
      records.total = (records.entries.map (·.size)).sum ∧
      (records.total ≤ capacity ∨ records.count ≤ 1) ∧
      RecencyCache.InOrderOfTouch (.empty capacity) t.uses records.keys) ∧
    ∀ c r size, ∃ gone,
      evictions (t.set listener c r size).notes = evictions t.notes ++ gone ∧
      announcements (t.set listener c r size).notes = announcements t.notes ++ gone ∧
      gone.map (·.1) <+: t.cache.collections.filter (· ≠ c) := by
  intro t
  obtain ⟨ht, hannounced⟩ : t.Kept capacity ∧ announcements t.notes = evictions t.notes :=
    (kept_fresh capacity).useAll rfl listener uses
  have hwell := wellFormed_entries capacity t
  have hcapacity : (t.entries capacity).capacity = capacity :=
    RecencyCache.capacity_useAll t.uses (.empty capacity)
  refine ⟨ht.fated, hannounced, ht.absent, ⟨t.entries capacity, ht.cache, hcapacity,
    hwell.total_eq, ?_, RecencyCache.inOrderOfTouch_useAll capacity t.uses⟩, ?_⟩
  · have hfits := hwell.fits
    rw [hcapacity] at hfits
    exact hfits.imp id Nat.le_of_eq
  · intro c r size
    obtain ⟨-, hevictions, hannouncements⟩ := ht.set listener c r size
    exact ⟨_, hevictions, hannouncements, prefix_evicted t.cache c r size⟩

/-- A listener that pops what the evicted record had to make way for. -/
example :
    let c (n : Nat) : CollectionId := ⟨.ofNat n⟩
    let r (n : Nat) : Record := ⟨⟨.ofNat n⟩, .hnswMemory, .vector, c n, none⟩
    ((fresh 10).useAll (fun _ _ _ => [.pop (c 2)]) [.set (c 1) (r 1) 6, .set (c 2) (r 2) 7]).notes =
      [.stored (c 1) (r 1) 6, .stored (c 2) (r 2) 7, .left (c 1) (r 1) .evicted,
        .announced (c 1) (r 1) false, .left (c 2) (r 2) .popped] := by
  decide

end Chronicle

end SegmentManager.RecordCache
