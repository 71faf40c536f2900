import Mathlib.Algebra.Order.BigOperators.Group.List
import Mathlib.Algebra.Order.Group.Nat
import Mathlib.Data.List.Dedup
import SegmentManager.Proofs.Cache.Recency
import SegmentManager.Simulation.Keepers

/-!
# What a budget of open indexes bounds

Tracked collections weigh one each, so the budget bounds how many there are, and
an index is closed only for the sake of a collection that is new.  If the budget
was made from a limit on handles and no index ever held more than was reckoned,
then those that are tracked stay within that limit together.
-/

namespace SegmentManager

namespace RecencyCache

variable {κ α : Type} [DecidableEq κ] {c : RecencyCache κ α}

/-! ## Entries that weigh one each -/

def EachOne (c : RecencyCache κ α) : Prop := ∀ e ∈ c.entries, e.size = 1

omit [DecidableEq κ] in
theorem sizeOf_eq_length {entries : List (RecencyEntry κ α)} (hone : ∀ e ∈ entries, e.size = 1) :
    sizeOf entries = entries.length := by
  rw [sizeOf, List.map_eq_replicate_iff.mpr hone, List.sum_replicate_nat, Nat.mul_one]

theorem eachOne_drop (hone : c.EachOne) (k : κ) : (c.drop k).EachOne := by
  intro e he
  rw [entries_drop] at he
  exact hone e (mem_without.mp he).1

theorem eachOne_insert (hone : c.EachOne) (k : κ) (a : α) : (c.insert k a 1).2.EachOne := by
  intro e he
  rcases mem_entries_insert he with rfl | ⟨hold, -⟩
  · rfl
  · exact hone e hold

omit [DecidableEq κ] in
theorem count_le_capacity (hc : c.WellFormed) (hone : c.EachOne) (hcapacity : 0 < c.capacity) :
    c.count ≤ c.capacity := by
  rcases hc.fits with hfits | hsingle
  · rw [hc.total_eq, sizeOf_eq_length hone] at hfits
    exact hfits
  · rw [count, hsingle]
    exact hcapacity

omit [DecidableEq κ] in
theorem shrink_of_fits {capacity total : Nat} (hfits : total ≤ capacity)
    (entries : List (RecencyEntry κ α)) : shrink capacity total entries = ([], total, entries) := by
  unfold shrink
  split
  · rw [if_neg (Nat.not_lt.mpr hfits)]
  · rfl

omit [DecidableEq κ] in
theorem shrink_of_excess {capacity total : Nat} {oldest : RecencyEntry κ α}
    {rest : List (RecencyEntry κ α)} (hrest : rest ≠ []) (hlarge : capacity < total)
    (hfits : total - oldest.size ≤ capacity) :
    shrink capacity total (oldest :: rest) = ([oldest], total - oldest.size, rest) := by
  obtain ⟨next, later, rfl⟩ := List.exists_cons_of_ne_nil hrest
  rw [shrink, if_pos hlarge, shrink_of_fits hfits]

/-- An insertion shrinks the queue that ends with the new entry, and of entries
that weigh one the total is their number. -/
theorem insert_one (hc : c.WellFormed) (hone : c.EachOne) (k : κ) (a : α) :
    c.insert k a 1 =
      let parts := shrink c.capacity ((without c.entries k).length + 1) (c.queueWith k a 1)
      (parts.1.map fun e => (e.key, e.value), { c with total := parts.2.1, entries := parts.2.2 }) := by
  have htotal : (c.drop k).total = (without c.entries k).length := by
    rw [total_drop hc, sizeOf_eq_length]
    exact fun e he => hone e (mem_without.mp he).1
  simp only [insert, htotal, entries_drop, queueWith]

theorem insert_of_room (hc : c.WellFormed) (hone : c.EachOne) {k : κ} (a : α)
    (hroom : (without c.entries k).length < c.capacity) :
    (c.insert k a 1).1 = [] ∧ (c.insert k a 1).2.entries = c.queueWith k a 1 := by
  rw [insert_one hc hone, shrink_of_fits hroom]
  exact ⟨rfl, rfl⟩

theorem insert_of_full (hc : c.WellFormed) (hone : c.EachOne) {k : κ} (a : α) (hk : k ∉ c.keys)
    {oldest : RecencyEntry κ α} {rest : List (RecencyEntry κ α)}
    (hentries : c.entries = oldest :: rest) (hfull : c.count = c.capacity) :
    (c.insert k a 1).1 = [(oldest.key, oldest.value)] ∧
      (c.insert k a 1).2.entries = rest ++ [⟨k, a, 1⟩] := by
  have hwithout : without c.entries k = oldest :: rest := by
    rw [without_of_notMem hk, hentries]
  have hlength : (oldest :: rest).length = c.capacity := by
    rw [← hentries]
    exact hfull
  have hsize : oldest.size = 1 := hone oldest (by simp [hentries])
  rw [insert_one hc hone, queueWith, hwithout, hlength, List.cons_append,
    shrink_of_excess (by simp) (Nat.lt_succ_self _) (by omega)]
  exact ⟨rfl, rfl⟩

end RecencyCache

namespace OpenIndexes

/-! ## What always holds -/

structure WellFormed (o : OpenIndexes) : Prop where
  tracked : o.tracked.WellFormed
  capacity : o.tracked.capacity = o.budget
  positive : 0 < o.budget
  single : o.tracked.EachOne
  persistent : ∀ e ∈ o.tracked.entries, e.value.views.persistentIndex = true

variable {o : OpenIndexes} {c : CollectionId} {i : Instance}

theorem WellFormed.count_le (ho : o.WellFormed) : o.count ≤ o.budget := by
  rw [← ho.capacity]
  exact RecencyCache.count_le_capacity ho.tracked ho.single (ho.capacity ▸ ho.positive)

theorem ofLimits_eq_ok {handleLimit handlesPerIndex : Nat}
    (ho : ofLimits handleLimit handlesPerIndex = .ok o) :
    o = ⟨handleLimit / handlesPerIndex, some handlesPerIndex, 0,
      .empty (handleLimit / handlesPerIndex)⟩ ∧
      0 < handlesPerIndex ∧ 0 < handleLimit / handlesPerIndex := by
  unfold ofLimits ofBudget at ho
  split at ho
  · cases ho
  · rename_i hpositive
    split at ho
    · cases ho
    · rename_i hbudget
      cases ho
      exact ⟨rfl, Nat.pos_of_ne_zero hpositive, Nat.pos_of_ne_zero hbudget⟩

theorem ofLimits_succeeds_iff (handleLimit handlesPerIndex : Nat) :
    (∃ o, ofLimits handleLimit handlesPerIndex = .ok o) ↔
      0 < handlesPerIndex ∧ handlesPerIndex ≤ handleLimit := by
  constructor
  · rintro ⟨o, ho⟩
    obtain ⟨-, hpositive, hbudget⟩ := ofLimits_eq_ok ho
    exact ⟨hpositive, (Nat.div_pos_iff.mp hbudget).2⟩
  · rintro ⟨hpositive, hle⟩
    have hbudget : handleLimit / handlesPerIndex ≠ 0 := (Nat.div_pos hle hpositive).ne'
    unfold ofLimits ofBudget
    rw [if_neg hpositive.ne', if_neg hbudget]
    exact ⟨_, rfl⟩

theorem wellFormed_ofLimits {handleLimit handlesPerIndex : Nat}
    (ho : ofLimits handleLimit handlesPerIndex = .ok o) : o.WellFormed := by
  obtain ⟨rfl, -, hbudget⟩ := ofLimits_eq_ok ho
  refine ⟨RecencyCache.wellFormed_empty _, rfl, hbudget, ?_, ?_⟩
  · rintro e ⟨⟩
  · rintro e ⟨⟩

theorem WellFormed.without (ho : o.WellFormed) (c : CollectionId) : (o.without c).WellFormed := by
  refine ⟨RecencyCache.wellFormed_drop ho.tracked c, ?_, ho.positive,
    RecencyCache.eachOne_drop ho.single c, ?_⟩
  · exact (RecencyCache.capacity_drop o.tracked c).trans ho.capacity
  · intro e he
    change e ∈ (o.tracked.drop c).entries at he
    rw [RecencyCache.entries_drop] at he
    exact ho.persistent e (RecencyCache.mem_without.mp he).1

theorem WellFormed.clear (ho : o.WellFormed) : o.clear.WellFormed := by
  refine ⟨RecencyCache.wellFormed_clear o.tracked, ho.capacity, ho.positive, ?_, ?_⟩
  · rintro e ⟨⟩
  · rintro e ⟨⟩

theorem WellFormed.insert (ho : o.WellFormed) (c : CollectionId)
    (hi : i.views.persistentIndex = true) (undersized : Nat) :
    WellFormed { o with tracked := (o.tracked.insert c i 1).2, undersized } := by
  refine ⟨RecencyCache.wellFormed_insert ho.tracked c i 1, ho.capacity, ho.positive,
    RecencyCache.eachOne_insert ho.single c i, ?_⟩
  intro e he
  rcases RecencyCache.mem_entries_insert he with rfl | ⟨hold, -⟩
  · exact hi
  · exact ho.persistent e hold

/-! ## Tracking -/

variable {W : Type} [Backend W]

def reckon (o : OpenIndexes) (i : Instance) (site : Site W) : Nat :=
  if o.handlesPerIndex.any (· < site.heldHandles i) then o.undersized + 1 else o.undersized

/-- The ways in which tracking ends.  Nothing changes unless the index could be
opened.  The collection then stands last, and the index of the first one is
closed if the collection was not tracked and there was no room. -/
inductive Opens (c : CollectionId) (i : Instance) (o : OpenIndexes) (site : Site W) :
    Except Fault (List CollectionId) → OpenIndexes → Site W → Prop
  | unable (hviews : i.views.persistentIndex = false) :
      Opens c i o site
        (.error (.persistentIndex i.record.id "segment has no persistent index")) o site
  | refused {fault : Fault} (hviews : i.views.persistentIndex = true)
      (hopen : (site.perform .openIndex i).1 = .error fault) :
      Opens c i o site (.error fault) o (site.perform .openIndex i).2
  | fits {tracked : RecencyCache CollectionId Instance}
      (hviews : i.views.persistentIndex = true)
      (hopen : (site.perform .openIndex i).1 = .ok ())
      (hroom : o.contains c = true ∨ o.count < o.budget)
      (hlast : tracked.keys = o.collections.filter (· ≠ c) ++ [c])
      (htracked : ∀ d, tracked.peek? d = if d = c then some i else o.tracked.peek? d) :
      Opens c i o site (.ok [])
        { o with tracked, undersized := o.reckon i (site.perform .openIndex i).2 }
        (site.perform .openIndex i).2
  | displaces {oldest : CollectionId} {j : Instance} {rest : List CollectionId}
      {tracked : RecencyCache CollectionId Instance}
      (hviews : i.views.persistentIndex = true)
      (hopen : (site.perform .openIndex i).1 = .ok ())
      (hnew : o.contains c = false) (hfull : o.count = o.budget)
      (holdest : o.collections = oldest :: rest) (hj : o.tracked.peek? oldest = some j)
      (hlast : tracked.keys = rest ++ [c])
      (htracked : ∀ d, tracked.peek? d =
        if d = c then some i else if d = oldest then none else o.tracked.peek? d) :
      Opens c i o site (.ok [oldest])
        { o with tracked, undersized := o.reckon i (site.perform .openIndex i).2 }
        ((site.perform .openIndex i).2.perform .closeIndex j).2

theorem track_of_error (o : OpenIndexes) (c : CollectionId) {i : Instance} {site : Site W}
    {fault : Fault} (hviews : i.views.persistentIndex = true)
    (hopen : (site.perform .openIndex i).1 = .error fault) :
    o.track c i site = (.error fault, o, (site.perform .openIndex i).2) := by
  unfold track
  rw [if_pos hviews, show site.perform .openIndex i = (.error fault, _) from Prod.ext hopen rfl]

theorem track_of_ok (o : OpenIndexes) (c : CollectionId) {i : Instance} {site : Site W}
    (hviews : i.views.persistentIndex = true)
    (hopen : (site.perform .openIndex i).1 = .ok ()) :
    o.track c i site =
      (.ok ((o.tracked.insert c i 1).1.map (·.1)),
        { o with
          tracked := (o.tracked.insert c i 1).2
          undersized := o.reckon i (site.perform .openIndex i).2 },
        closeAll ((o.tracked.insert c i 1).1.map (·.2)) (site.perform .openIndex i).2) := by
  unfold track
  rw [if_pos hviews, show site.perform .openIndex i = (.ok (), _) from Prod.ext hopen rfl]
  rfl

theorem contains_eq_false_iff (o : OpenIndexes) (c : CollectionId) :
    o.contains c = false ↔ c ∉ o.collections := by
  rw [contains, RecencyCache.contains, Option.isSome_eq_false_iff, Option.isNone_iff_eq_none,
    RecencyCache.find?_eq_none_iff, collections]

theorem WellFormed.room (ho : o.WellFormed) (hroom : o.contains c = true ∨ o.count < o.budget) :
    (RecencyCache.without o.tracked.entries c).length < o.tracked.capacity := by
  rw [ho.capacity]
  have hle : (RecencyCache.without o.tracked.entries c).length ≤ o.count :=
    List.length_filter_le _ _
  rcases hroom with htracked | hbelow
  · have hcount := ho.count_le
    rw [contains, RecencyCache.contains, Option.isSome_iff_exists] at htracked
    obtain ⟨e, he⟩ := htracked
    obtain ⟨hmem, rfl⟩ := (RecencyCache.find?_eq_some_iff ho.tracked.distinct).mp he
    have hless : (RecencyCache.without o.tracked.entries e.key).length < o.count :=
      List.length_filter_lt_length_iff_exists.mpr ⟨e, hmem, by simp⟩
    omega
  · omega

theorem opens_track (ho : o.WellFormed) (c : CollectionId) (i : Instance) (site : Site W) :
    Opens c i o site (o.track c i site).1 (o.track c i site).2.1 (o.track c i site).2.2 := by
  by_cases hviews : i.views.persistentIndex = true
  · cases hopen : (site.perform .openIndex i).1 with
    | error fault =>
        rw [track_of_error o c hviews hopen]
        exact .refused hviews hopen
    | ok done =>
        have hpeek := RecencyCache.peek?_insert ho.tracked c i 1
        rw [track_of_ok o c hviews hopen]
        by_cases hroom : o.contains c = true ∨ o.count < o.budget
        · obtain ⟨hgone, hentries⟩ :=
            RecencyCache.insert_of_room ho.tracked ho.single i (ho.room hroom)
          rw [hgone] at hpeek ⊢
          refine .fits hviews hopen hroom ?_ ?_
          · change ((o.tracked.insert c i 1).2.entries).map (·.key) = _
            rw [hentries, RecencyCache.queueWith, List.map_append, ← RecencyCache.entries_drop]
            exact congrArg (· ++ [c]) (RecencyCache.keys_drop o.tracked c)
          · simpa using hpeek
        · rw [not_or, Bool.not_eq_true, Nat.not_lt] at hroom
          obtain ⟨hnew, hleast⟩ := hroom
          have hfull : o.count = o.budget := Nat.le_antisymm ho.count_le hleast
          have hpositive : 0 < o.count := hfull ▸ ho.positive
          obtain ⟨oldest, rest, hentries⟩ := List.exists_cons_of_length_pos hpositive
          have holdest : o.tracked.peek? oldest.key = some oldest.value :=
            (RecencyCache.peek?_eq_some_iff ho.tracked.distinct).mpr
              ⟨oldest, by simp [hentries], rfl, rfl⟩
          have hclose : oldest.value.views.persistentIndex = true :=
            ho.persistent oldest (by simp [hentries])
          obtain ⟨hgone, hafter⟩ := RecencyCache.insert_of_full ho.tracked ho.single i
            ((contains_eq_false_iff o c).mp hnew) hentries (hfull.trans ho.capacity.symm)
          rw [hgone] at hpeek ⊢
          simp only [List.map_cons, List.map_nil, closeAll, List.foldl_cons, List.foldl_nil,
            if_pos hclose]
          have hfirst : o.collections = oldest.key :: rest.map (·.key) := by
            rw [collections, RecencyCache.keys, hentries, List.map_cons]
          refine .displaces hviews hopen hnew hfull hfirst holdest ?_ ?_
          · change ((o.tracked.insert c i 1).2.entries).map (·.key) = _
            rw [hafter, List.map_append]
            rfl
          · simpa using hpeek
  · rw [Bool.not_eq_true] at hviews
    unfold track
    rw [if_neg (by simp [hviews])]
    exact .unable hviews

theorem WellFormed.track (ho : o.WellFormed) (c : CollectionId) (i : Instance) (site : Site W) :
    (o.track c i site).2.1.WellFormed := by
  by_cases hviews : i.views.persistentIndex = true
  · cases hopen : (site.perform .openIndex i).1 with
    | error fault =>
        rw [track_of_error o c hviews hopen]
        exact ho
    | ok done =>
        rw [track_of_ok o c hviews hopen]
        exact ho.insert c hviews _
  · unfold OpenIndexes.track
    rw [if_neg hviews]
    exact ho

end OpenIndexes

/-! ## Open indexes in use -/

inductive IndexUse (W : Type)
  | track (c : CollectionId) (i : Instance)
  | pop (c : CollectionId)
  | clear
  /-- Which calls fail and how many handles an index holds may change. -/
  | elapse (change : W → W)

/-- `reports` lists the collections that were tracked, each with the handles that
its index held when it was opened, the latest first. -/
structure Tracking (W : Type) where
  indexes : OpenIndexes
  site : Site W
  reports : List (CollectionId × Nat)

namespace Tracking

variable {W : Type} [Backend W]

def track (c : CollectionId) (i : Instance) (t : Tracking W) : Tracking W :=
  let held := (t.site.perform .openIndex i).2.heldHandles i
  let (outcome, indexes, site) := t.indexes.track c i t.site
  ⟨indexes, site, if outcome.isOk then (c, held) :: t.reports else t.reports⟩

def use (t : Tracking W) : IndexUse W → Tracking W
  | .track c i => t.track c i
  | .pop c => { t with indexes := (t.indexes.pop c).2 }
  | .clear => { t with indexes := t.indexes.clear }
  | .elapse change => { t with site := { t.site with world := change t.site.world } }

def useAll (uses : List (IndexUse W)) (t : Tracking W) : Tracking W := uses.foldl use t

def reported (t : Tracking W) : List CollectionId := (t.reports.map (·.1)).reverse.dedup

theorem dedup_concat {α : Type} [DecidableEq α] (l : List α) (a : α) :
    (l ++ [a]).dedup = l.dedup.filter (· ≠ a) ++ [a] := by
  induction l with
  | nil => rfl
  | cons b rest ih =>
      by_cases hmem : b ∈ rest
      · rw [List.cons_append, List.dedup_cons_of_mem (List.mem_append_left _ hmem),
          List.dedup_cons_of_mem hmem, ih]
      · rw [List.cons_append, List.dedup_cons_of_notMem hmem]
        by_cases hb : b = a
        · subst hb
          rw [List.dedup_cons_of_mem (by simp), ih, List.filter_cons_of_neg (by simp)]
        · rw [List.dedup_cons_of_notMem (by simp [hmem, hb]), ih,
            List.filter_cons_of_pos (by simpa using hb), List.cons_append]

structure Sound (handleLimit handlesPerIndex : Nat) (t : Tracking W) : Prop where
  indexes : t.indexes.WellFormed
  budget : t.indexes.budget = handleLimit / handlesPerIndex
  perIndex : t.indexes.handlesPerIndex = some handlesPerIndex
  undersized : t.indexes.undersized = t.reports.countP (handlesPerIndex < ·.2)
  order : t.indexes.collections.Sublist t.reported

variable {handleLimit handlesPerIndex : Nat} {t : Tracking W}

theorem reckon_eq (ht : t.Sound handleLimit handlesPerIndex) (c : CollectionId) (i : Instance)
    (site : Site W) : t.indexes.reckon i site =
      ((c, site.heldHandles i) :: t.reports).countP (handlesPerIndex < ·.2) := by
  rw [OpenIndexes.reckon, ht.perIndex, ht.undersized, List.countP_cons]
  simp only [Option.any_some, decide_eq_true_eq]
  split <;> rfl

omit [Backend W] in
theorem Sound.order_report (ht : t.Sound handleLimit handlesPerIndex) {c : CollectionId} {held : Nat}
    {kept : List CollectionId} (hkept : kept.Sublist (t.indexes.collections.filter (· ≠ c))) :
    (kept ++ [c]).Sublist (((c, held) :: t.reports).map (·.1)).reverse.dedup := by
  rw [List.map_cons, List.reverse_cons, dedup_concat]
  exact (hkept.trans (ht.order.filter _)).append (List.Sublist.refl [c])

theorem Sound.track (ht : t.Sound handleLimit handlesPerIndex) (c : CollectionId) (i : Instance) :
    (t.track c i).Sound handleLimit handlesPerIndex := by
  have hwell := ht.indexes.track c i t.site
  have hopens := OpenIndexes.opens_track ht.indexes c i t.site
  unfold Tracking.track
  generalize t.indexes.track c i t.site = ended at hwell hopens ⊢
  obtain ⟨outcome, indexes, site⟩ := ended
  cases hopens with
  | unable hviews => exact ⟨hwell, ht.budget, ht.perIndex, ht.undersized, ht.order⟩
  | refused hviews hopen => exact ⟨hwell, ht.budget, ht.perIndex, ht.undersized, ht.order⟩
  | fits hviews hopen hroom hlast htracked =>
      refine ⟨hwell, ht.budget, ht.perIndex, reckon_eq ht c i _, ?_⟩
      rw [OpenIndexes.collections, hlast]
      exact ht.order_report (List.Sublist.refl _)
  | displaces hviews hopen hnew hfull holdest hj hlast htracked =>
      rename_i oldest j rest tracked
      refine ⟨hwell, ht.budget, ht.perIndex, reckon_eq ht c i _, ?_⟩
      rw [OpenIndexes.collections, hlast]
      apply ht.order_report
      have hall : t.indexes.collections.filter (· ≠ c) = t.indexes.collections := by
        apply List.filter_eq_self.mpr
        rintro d hd
        simp only [ne_eq, decide_not, Bool.not_eq_true', decide_eq_false_iff_not]
        rintro rfl
        exact (OpenIndexes.contains_eq_false_iff _ d).mp hnew hd
      rw [hall, holdest]
      exact List.sublist_cons_self oldest rest

theorem Sound.use (ht : t.Sound handleLimit handlesPerIndex) (u : IndexUse W) :
    (t.use u).Sound handleLimit handlesPerIndex := by
  cases u with
  | track c i => exact ht.track c i
  | pop c =>
      refine ⟨ht.indexes.without c, ht.budget, ht.perIndex, ht.undersized, ?_⟩
      have hkeys : (t.use (.pop c)).indexes.collections = t.indexes.collections.filter (· ≠ c) :=
        RecencyCache.keys_drop t.indexes.tracked c
      rw [hkeys]
      exact List.filter_sublist.trans ht.order
  | clear => exact ⟨ht.indexes.clear, ht.budget, ht.perIndex, ht.undersized, List.nil_sublist _⟩
  | elapse change => exact ⟨ht.indexes, ht.budget, ht.perIndex, ht.undersized, ht.order⟩

theorem Sound.useAll (ht : t.Sound handleLimit handlesPerIndex) (uses : List (IndexUse W)) :
    (t.useAll uses).Sound handleLimit handlesPerIndex := by
  induction uses generalizing t with
  | nil => exact ht
  | cons u rest ih => exact ih (ht.use u)

omit [Backend W] in
theorem sound_ofLimits {o : OpenIndexes}
    (ho : OpenIndexes.ofLimits handleLimit handlesPerIndex = .ok o) (site : Site W) :
    (Tracking.mk o site []).Sound handleLimit handlesPerIndex := by
  have hwell := OpenIndexes.wellFormed_ofLimits ho
  obtain ⟨rfl, -, -⟩ := OpenIndexes.ofLimits_eq_ok ho
  exact ⟨hwell, rfl, rfl, rfl, List.nil_sublist _⟩

omit [Backend W] in
theorem Sound.lookup_of_tracked (ht : t.Sound handleLimit handlesPerIndex) {c : CollectionId}
    (hc : c ∈ t.indexes.collections) : ∃ held, t.reports.lookup c = some held := by
  have hreported := ht.order.subset hc
  rw [reported, List.mem_dedup, List.mem_reverse] at hreported
  obtain ⟨report, hreport, rfl⟩ := List.mem_map.mp hreported
  exact Option.isSome_iff_exists.mp (List.lookup_isSome_iff.mpr ⟨report, hreport, by simp⟩)

omit [Backend W] in
theorem Sound.sum_le (ht : t.Sound handleLimit handlesPerIndex)
    (hundersized : t.indexes.undersized = 0) {held : CollectionId → Nat}
    (hheld : ∀ c ∈ t.indexes.collections, t.reports.lookup c = some (held c)) :
    (t.indexes.collections.map held).sum ≤ handleLimit := by
  rw [ht.undersized, List.countP_eq_zero] at hundersized
  have heach : ∀ n ∈ t.indexes.collections.map held, n ≤ handlesPerIndex := by
    intro n hn
    obtain ⟨c, hc, rfl⟩ := List.mem_map.mp hn
    obtain ⟨later, earlier, hreports, -⟩ := List.lookup_eq_some_iff.mp (hheld c hc)
    have hreport := hundersized (c, held c) (by simp [hreports])
    simpa using hreport
  calc (t.indexes.collections.map held).sum
      ≤ (t.indexes.collections.map held).length * handlesPerIndex :=
        List.sum_le_card_nsmul _ _ heach
    _ = t.indexes.count * handlesPerIndex := by
        rw [List.length_map, OpenIndexes.collections, RecencyCache.keys, List.length_map]
        rfl
    _ ≤ handleLimit / handlesPerIndex * handlesPerIndex :=
        Nat.mul_le_mul_right _ (ht.budget ▸ ht.indexes.count_le)
    _ ≤ handleLimit := Nat.div_mul_le_self _ _

/-- A budget can be made from limits just if one index fits them, and it is the
largest number of indexes that do.  However the tracked collections are used and
whatever fails, there are never more of them than the budget, they stand in the
order in which they were tracked last, and they held no more handles at that
time than the limit, unless an undersized one was counted. -/
theorem tracked_indexes_stay_within_limits (handleLimit handlesPerIndex : Nat) :
    ((∃ o, OpenIndexes.ofLimits handleLimit handlesPerIndex = .ok o) ↔
      0 < handlesPerIndex ∧ handlesPerIndex ≤ handleLimit) ∧
    ∀ o, OpenIndexes.ofLimits handleLimit handlesPerIndex = .ok o →
      ∀ (site : Site W) (uses : List (IndexUse W)),
      let t := (Tracking.mk o site []).useAll uses
      t.indexes.count ≤ t.indexes.budget ∧
      (∀ b, b * handlesPerIndex ≤ handleLimit ↔ b ≤ t.indexes.budget) ∧
      t.indexes.undersized = t.reports.countP (handlesPerIndex < ·.2) ∧
      (∃ held : CollectionId → Nat,
        (∀ c ∈ t.indexes.collections, t.reports.lookup c = some (held c)) ∧
        (t.indexes.undersized = 0 → (t.indexes.collections.map held).sum ≤ handleLimit)) ∧
      t.indexes.collections.Sublist t.reported ∧
      ∀ c i, OpenIndexes.Opens c i t.indexes t.site (t.indexes.track c i t.site).1
        (t.indexes.track c i t.site).2.1 (t.indexes.track c i t.site).2.2 := by
  refine ⟨OpenIndexes.ofLimits_succeeds_iff handleLimit handlesPerIndex, ?_⟩
  intro o ho site uses t
  have ht : t.Sound handleLimit handlesPerIndex := (sound_ofLimits ho site).useAll uses
  obtain ⟨-, hpositive, -⟩ := OpenIndexes.ofLimits_eq_ok ho
  refine ⟨ht.indexes.count_le, ?_, ht.undersized, ?_, ht.order,
    fun c i => OpenIndexes.opens_track ht.indexes c i t.site⟩
  · intro b
    rw [ht.budget, Nat.le_div_iff_mul_le hpositive]
  · have hheld : ∀ c ∈ t.indexes.collections,
        t.reports.lookup c = some ((t.reports.lookup c).getD 0) := by
      intro c hc
      obtain ⟨held, hlookup⟩ := ht.lookup_of_tracked hc
      rw [hlookup, Option.getD_some]
    exact ⟨_, hheld, fun hundersized => ht.sum_le hundersized hheld⟩

open Simulation

def keeperOf (n : Nat) : Instance :=
  ⟨n, ⟨numberedSegment n .vector, .hnswPersisted, .vector, (numberedCollection n).id, none⟩,
    (Actor.keeper true).views .vector⟩

def threeKeepers : Site World :=
  let adopted := (List.range 3).foldl (fun w n => w.adopt none (keeperOf n) (.keeper true))
    keeperWorld
  ⟨adopted, 3, []⟩

def fourTracks : List (IndexUse World) :=
  [0, 1, 2, 0].map fun n => .track (numberedCollection n).id (keeperOf n)

theorem four_tracks_stay_within_five_handles :
    ∃ o, OpenIndexes.ofLimits 5 2 = .ok o ∧
      let t := (Tracking.mk o threeKeepers []).useAll fourTracks
      t.indexes.collections = [(numberedCollection 2).id, (numberedCollection 0).id] ∧
      ∃ held : CollectionId → Nat,
        (∀ c ∈ t.indexes.collections, t.reports.lookup c = some (held c)) ∧
        (t.indexes.collections.map held).sum ≤ 5 := by
  obtain ⟨o, ho⟩ : ∃ o, OpenIndexes.ofLimits 5 2 = .ok o := ⟨_, rfl⟩
  have hrun : ∀ o, OpenIndexes.ofLimits 5 2 = .ok o →
      let t := (Tracking.mk o threeKeepers []).useAll fourTracks
      t.indexes.collections = [(numberedCollection 2).id, (numberedCollection 0).id] ∧
        t.indexes.undersized = 0 := by
    rintro o ⟨⟩
    decide +kernel
  obtain ⟨hcollections, hundersized⟩ := hrun o ho
  obtain ⟨-, hbounds⟩ := tracked_indexes_stay_within_limits (W := World) 5 2
  obtain ⟨-, -, -, ⟨held, hheld, hsum⟩, -⟩ := hbounds o ho threeKeepers fourTracks
  exact ⟨o, ho, hcollections, held, hheld, hsum hundersized⟩

end Tracking

end SegmentManager
