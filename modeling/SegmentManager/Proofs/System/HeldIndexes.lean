import SegmentManager.Proofs.System.OpenIndexes

/-!
# Indexes that are open and instances that are held

Tracking reckons with collections, but it opens and closes the indexes of instances.
The two agree as long as every collection keeps its instance and no instance is
tracked for two collections.  An instance that is replaced goes with its index open,
and of an instance that is tracked twice the index is closed with the first of its
collections.
-/

namespace SegmentManager

namespace OpenIndexes

inductive Made (o : OpenIndexes) : Prop
  | ofBudget {budget : Nat} (h : OpenIndexes.ofBudget budget = .ok o)
  | ofLimits {handleLimit handlesPerIndex : Nat}
      (h : OpenIndexes.ofLimits handleLimit handlesPerIndex = .ok o)

def serials (o : OpenIndexes) : List Nat := o.tracked.entries.map (·.value.serial)

variable {o : OpenIndexes}

theorem ofBudget_eq_ok {budget : Nat} (ho : ofBudget budget = .ok o) :
    o = ⟨budget, none, 0, .empty budget⟩ ∧ 0 < budget := by
  unfold ofBudget at ho
  split at ho
  · cases ho
  · rename_i hpositive
    cases ho
    exact ⟨rfl, Nat.pos_of_ne_zero hpositive⟩

theorem Made.wellFormed (ho : o.Made) : o.WellFormed := by
  cases ho with
  | ofBudget h =>
      obtain ⟨rfl, hbudget⟩ := ofBudget_eq_ok h
      exact ⟨RecencyCache.wellFormed_empty _, rfl, hbudget, by rintro e ⟨⟩, by rintro e ⟨⟩⟩
  | ofLimits h => exact wellFormed_ofLimits h

theorem Made.serials_eq_nil (ho : o.Made) : o.serials = [] := by
  cases ho with
  | ofBudget h =>
      obtain ⟨rfl, -⟩ := ofBudget_eq_ok h
      rfl
  | ofLimits h =>
      obtain ⟨rfl, -⟩ := ofLimits_eq_ok h
      rfl

theorem WellFormed.mem_serials_iff (ho : o.WellFormed) {n : Nat} :
    n ∈ o.serials ↔ ∃ c i, o.tracked.peek? c = some i ∧ i.serial = n := by
  constructor
  · intro hn
    obtain ⟨e, he, rfl⟩ := List.mem_map.mp hn
    exact ⟨e.key, e.value,
      (RecencyCache.peek?_eq_some_iff ho.tracked.distinct).mpr ⟨e, he, rfl, rfl⟩, rfl⟩
  · rintro ⟨c, i, hi, rfl⟩
    obtain ⟨e, he, -, rfl⟩ := (RecencyCache.peek?_eq_some_iff ho.tracked.distinct).mp hi
    exact List.mem_map_of_mem he

theorem WellFormed.length_le (ho : o.WellFormed) {serials : List Nat} (hdistinct : serials.Nodup)
    (hheld : serials ⊆ o.serials) : serials.length ≤ o.budget := by
  calc serials.length
      ≤ o.serials.length := (List.subperm_of_subset hdistinct hheld).length_le
    _ = o.count := List.length_map _
    _ ≤ o.budget := ho.count_le

end OpenIndexes

def Site.OpensAndCloses {W : Type} (site : Site W) : Prop :=
  ∀ i, Call.act .openIndex i false ∉ site.journal ∧ Call.act .closeIndex i false ∉ site.journal

namespace Tracking

variable {W : Type} [Backend W] {t t' : Tracking W} {c : CollectionId} {i : Instance}
  {tracks before : List (CollectionId × Instance)}

def trackAll (tracks : List (CollectionId × Instance)) (t : Tracking W) : Tracking W :=
  t.useAll (tracks.map fun x => .track x.1 x.2)

theorem trackAll_concat (tracks : List (CollectionId × Instance)) (c : CollectionId) (i : Instance)
    (t : Tracking W) : t.trackAll (tracks ++ [(c, i)]) = (t.trackAll tracks).track c i := by
  simp [trackAll, useAll, use]

def Counted (t : Tracking W) : Prop := ∀ n, t.site.indexOpen n = true → n ∈ t.indexes.serials

def StillOpen (t : Tracking W) : Prop := ∀ n ∈ t.indexes.serials, t.site.indexOpen n = true

def Exact (t : Tracking W) : Prop := ∀ n, t.site.indexOpen n = true ↔ n ∈ t.indexes.serials

/-- What is lost sight of when an instance is tracked for a collection: nothing, if
the instance that it replaces is still held and one whose index is closed is not. -/
structure Lossless (c : CollectionId) (i : Instance) (t : Tracking W) : Prop where
  replaced : ∀ j, t.indexes.tracked.peek? c = some j → j.serial ∈ (t.track c i).indexes.serials
  closed : ∀ d j, t.indexes.tracked.peek? d = some j →
    (t.track c i).indexes.tracked.peek? d = none → j.serial ∉ (t.track c i).indexes.serials

/-! ## One track -/

structure Takes (c : CollectionId) (i : Instance) (gone : List CollectionId)
    (t t' : Tracking W) : Prop where
  room : gone ≠ [] → t.indexes.tracked.peek? c = none
  found : ∀ d, t'.indexes.tracked.peek? d =
    if d = c then some i else if d ∈ gone then none else t.indexes.tracked.peek? d
  opened : ∀ n, t'.site.indexOpen n = true ↔
    (i.serial = n ∨ t.site.indexOpen n = true) ∧
      ∀ d ∈ gone, ∀ j, t.indexes.tracked.peek? d = some j → j.serial ≠ n

theorem indexOpen_opened {site : Site W} (hopen : (site.perform .openIndex i).1 = .ok ()) (n : Nat) :
    (site.perform .openIndex i).2.indexOpen n = true ↔ i.serial = n ∨ site.indexOpen n = true := by
  rw [Site.indexOpen_perform, hopen]
  by_cases hn : i.serial = n
  · simp [hn, Except.isOk, Except.toBool, Action.leavesOpen?]
  · simp [hn]

theorem site_track (c : CollectionId) (i : Instance) (t : Tracking W) :
    (t.track c i).site = (t.indexes.track c i t.site).2.2 := rfl

theorem indexes_track (c : CollectionId) (i : Instance) (t : Tracking W) :
    (t.track c i).indexes = (t.indexes.track c i t.site).2.1 := rfl

theorem journal_track (ht : t.indexes.WellFormed) (c : CollectionId) (i : Instance) :
    ∃ calls, (t.track c i).site.journal = calls ++ t.site.journal := by
  have hopens := OpenIndexes.opens_track ht c i t.site
  rw [site_track]
  generalize t.indexes.track c i t.site = ended at hopens ⊢
  obtain ⟨outcome, indexes, site⟩ := ended
  cases hopens with
  | unable hviews => exact ⟨[], rfl⟩
  | refused hviews hopen => exact ⟨[_], rfl⟩
  | fits hviews hopen hroom hlast htracked => exact ⟨[_], rfl⟩
  | displaces hviews hopen hnew hfull holdest hj hlast htracked => exact ⟨[_, _], rfl⟩

theorem track_cases (ht : t.indexes.WellFormed) (hable : (t.track c i).site.OpensAndCloses) :
    ((t.track c i).indexes = t.indexes ∧ (t.track c i).site = t.site) ∨
      ∃ gone, Takes c i gone t (t.track c i) := by
  have hopens := OpenIndexes.opens_track ht c i t.site
  have hindexes := indexes_track c i t
  have hsite := site_track c i t
  generalize t.indexes.track c i t.site = ended at hopens hindexes hsite
  generalize t.track c i = t' at hable hindexes hsite ⊢
  obtain ⟨indexes', site', reports⟩ := t'
  obtain ⟨outcome, indexes, site⟩ := ended
  obtain rfl : indexes' = indexes := hindexes
  obtain rfl : site' = site := hsite
  cases hopens with
  | unable hviews => exact .inl ⟨rfl, rfl⟩
  | refused hviews hopen =>
      refine ((hable i).1 ?_).elim
      change _ ∈ (t.site.perform .openIndex i).2.journal
      rw [Site.journal_perform, hopen]
      exact List.mem_cons_self
  | fits hviews hopen hroom hlast htracked =>
      refine .inr ⟨[], by simp, by simpa using htracked, fun n => ?_⟩
      change (t.site.perform .openIndex i).2.indexOpen n = true ↔ _
      simpa using indexOpen_opened hopen n
  | displaces hviews hopen hnew hfull holdest hj hlast htracked =>
      rename_i oldest j rest tracked
      have hclosed : ((t.site.perform .openIndex i).2.perform .closeIndex j).1.isOk = true := by
        by_contra hfails
        rw [Bool.not_eq_true] at hfails
        apply (hable j).2
        change _ ∈ ((t.site.perform .openIndex i).2.perform .closeIndex j).2.journal
        rw [Site.journal_perform, hfails]
        exact List.mem_cons_self
      refine .inr ⟨[oldest], ?_, by simpa using htracked, fun n => ?_⟩
      · intro hgone
        rw [RecencyCache.peek?_eq_none_iff]
        exact (OpenIndexes.contains_eq_false_iff _ c).mp hnew
      · change ((t.site.perform .openIndex i).2.perform .closeIndex j).2.indexOpen n = true ↔ _
        rw [Site.indexOpen_perform, hclosed, ← indexOpen_opened hopen]
        by_cases hn : j.serial = n
        · simp [hn, hj, Action.leavesOpen?]
        · simp [hn, hj]

namespace Takes

variable {gone : List CollectionId}

omit [Backend W] in
theorem counted (h : Takes c i gone t t') (ht : t.indexes.WellFormed) (ht' : t'.indexes.WellFormed)
    (hreplaced : ∀ j, t.indexes.tracked.peek? c = some j → j.serial ∈ t'.indexes.serials)
    (hcounted : t.Counted) : t'.Counted := by
  intro n hn
  obtain ⟨hopen, hspared⟩ := (h.opened n).mp hn
  have hnew : i.serial ∈ t'.indexes.serials :=
    ht'.mem_serials_iff.mpr ⟨c, i, by rw [h.found, if_pos rfl], rfl⟩
  rcases hopen with rfl | hbefore
  · exact hnew
  · obtain ⟨d, j, hj, rfl⟩ := ht.mem_serials_iff.mp (hcounted n hbefore)
    by_cases hd : d = c
    · exact hreplaced j (hd ▸ hj)
    · have hstays : d ∉ gone := fun hgone => hspared d hgone j hj rfl
      exact ht'.mem_serials_iff.mpr ⟨d, j, by rw [h.found, if_neg hd, if_neg hstays, hj], rfl⟩

omit [Backend W] in
theorem stillOpen (h : Takes c i gone t t') (ht : t.indexes.WellFormed)
    (ht' : t'.indexes.WellFormed)
    (hclosed : ∀ d j, t.indexes.tracked.peek? d = some j → t'.indexes.tracked.peek? d = none →
      j.serial ∉ t'.indexes.serials) (hstill : t.StillOpen) : t'.StillOpen := by
  intro n hn
  refine (h.opened n).mpr ⟨?_, ?_⟩
  · obtain ⟨d, j, hj, rfl⟩ := ht'.mem_serials_iff.mp hn
    rw [h.found] at hj
    split at hj
    · cases hj
      exact .inl rfl
    · split at hj
      · cases hj
      · exact .inr (hstill _ (ht.mem_serials_iff.mpr ⟨d, j, hj, rfl⟩))
  · rintro d hgone j hj rfl
    have hother : d ≠ c := by
      rintro rfl
      rw [h.room (List.ne_nil_of_mem hgone)] at hj
      cases hj
    exact hclosed d j hj (by rw [h.found, if_neg hother, if_pos hgone]) hn

end Takes

omit [Backend W] in
theorem exact_iff : t.Exact ↔ t.Counted ∧ t.StillOpen :=
  ⟨fun h => ⟨fun n => (h n).mp, fun n => (h n).mpr⟩, fun h n => ⟨h.1 n, h.2 n⟩⟩

/-- A track keeps the open indexes those of the instances held just if it loses sight
of none. -/
theorem Exact.track_iff (h : t.Exact) (ht : t.indexes.WellFormed)
    (hable : (t.track c i).site.OpensAndCloses) :
    (t.track c i).Exact ↔ t.Lossless c i := by
  have ht' := ht.track c i t.site
  rcases track_cases ht hable with ⟨hindexes, hsite⟩ | ⟨gone, htakes⟩
  · constructor
    · intro _
      refine ⟨?_, ?_⟩
      · intro j hj
        rw [hindexes]
        exact ht.mem_serials_iff.mpr ⟨c, j, hj, rfl⟩
      · intro d j hj hgone
        rw [hindexes, hj] at hgone
        cases hgone
    · intro _ n
      rw [hindexes, hsite]
      exact h n
  · constructor
    · intro hexact
      refine ⟨?_, ?_⟩
      · intro j hj
        have hopen := (h j.serial).mpr (ht.mem_serials_iff.mpr ⟨c, j, hj, rfl⟩)
        have hnone : gone = [] := by
          by_contra hgone
          rw [htakes.room hgone] at hj
          cases hj
        exact (hexact j.serial).mp ((htakes.opened _).mpr ⟨.inr hopen, by simp [hnone]⟩)
      · intro d j hj hgone hheld
        have hmem : d ∈ gone := by
          by_contra hstays
          rw [htakes.found, if_neg hstays, hj] at hgone
          split at hgone <;> cases hgone
        exact ((htakes.opened _).mp ((hexact _).mpr hheld)).2 d hmem j hj rfl
    · intro hlossless
      obtain ⟨hcounted, hstill⟩ := exact_iff.mp h
      exact exact_iff.mpr ⟨htakes.counted ht ht' hlossless.replaced hcounted,
        htakes.stillOpen ht ht' hlossless.closed hstill⟩

/-! ## One track after another -/

theorem wellFormed_trackAll (ht : t.indexes.WellFormed)
    (tracks : List (CollectionId × Instance)) : (t.trackAll tracks).indexes.WellFormed := by
  induction tracks using List.reverseRecOn with
  | nil => exact ht
  | append_singleton tracks x ih =>
      rw [trackAll_concat]
      exact ih.track x.1 x.2 _

theorem opensAndCloses_of_concat (ht : t.indexes.WellFormed)
    (hable : (t.trackAll (tracks ++ [(c, i)])).site.OpensAndCloses) :
    (t.trackAll tracks).site.OpensAndCloses := by
  rw [trackAll_concat] at hable
  obtain ⟨calls, hjournal⟩ := journal_track (wellFormed_trackAll ht tracks) c i
  unfold Site.OpensAndCloses at hable ⊢
  rw [hjournal] at hable
  exact fun j => ⟨fun hmem => (hable j).1 (List.mem_append_right _ hmem),
    fun hmem => (hable j).2 (List.mem_append_right _ hmem)⟩

theorem opensAndCloses_of_part (ht : t.indexes.WellFormed) (hbefore : before <+: tracks)
    (hable : (t.trackAll tracks).site.OpensAndCloses) :
    (t.trackAll before).site.OpensAndCloses := by
  obtain ⟨later, rfl⟩ := hbefore
  induction later using List.reverseRecOn with
  | nil => rwa [List.append_nil] at hable
  | append_singleton later x ih =>
      rw [← List.append_assoc] at hable
      exact ih (opensAndCloses_of_concat ht hable)

section Runs

variable {o : OpenIndexes} {site : Site W}

theorem track_after (ho : o.Made)
    (hable : ((Tracking.mk o site []).trackAll (tracks ++ [(c, i)])).site.OpensAndCloses) :
    let t := (Tracking.mk o site []).trackAll tracks
    t.indexes.WellFormed ∧ t.site.OpensAndCloses ∧ (t.track c i).indexes.WellFormed ∧
      (((t.track c i).indexes = t.indexes ∧ (t.track c i).site = t.site) ∨
        ∃ gone, Takes c i gone t (t.track c i)) := by
  intro t
  have ht : t.indexes.WellFormed := wellFormed_trackAll ho.wellFormed tracks
  have hbefore : t.site.OpensAndCloses := opensAndCloses_of_concat ho.wellFormed hable
  rw [trackAll_concat] at hable
  exact ⟨ht, hbefore, ht.track c i t.site, track_cases ht hable⟩

theorem mem_of_peek? (ho : o.Made)
    (hable : ((Tracking.mk o site []).trackAll tracks).site.OpensAndCloses) {d : CollectionId}
    {j : Instance}
    (hj : ((Tracking.mk o site []).trackAll tracks).indexes.tracked.peek? d = some j) :
    (d, j) ∈ tracks := by
  induction tracks using List.reverseRecOn with
  | nil =>
      have hheld := ho.wellFormed.mem_serials_iff.mpr ⟨d, j, hj, rfl⟩
      rw [ho.serials_eq_nil] at hheld
      cases hheld
  | append_singleton tracks x ih =>
      obtain ⟨c, i⟩ := x
      obtain ⟨-, hbefore, -, hcases⟩ := track_after ho hable
      rw [trackAll_concat] at hj
      rcases hcases with ⟨hindexes, -⟩ | ⟨gone, htakes⟩
      · rw [hindexes] at hj
        exact List.mem_append_left _ (ih hbefore hj)
      · rw [htakes.found] at hj
        split at hj
        · rename_i hd
          cases hj
          simp [hd]
        · split at hj
          · cases hj
          · exact List.mem_append_left _ (ih hbefore hj)

theorem counted_trackAll (ho : o.Made) (hclosed : ∀ n, site.indexOpen n = false)
    (hable : ((Tracking.mk o site []).trackAll tracks).site.OpensAndCloses)
    (hkeeps : ∀ c i j, (c, i) ∈ tracks → (c, j) ∈ tracks → i.serial = j.serial) :
    ((Tracking.mk o site []).trackAll tracks).Counted := by
  induction tracks using List.reverseRecOn with
  | nil =>
      intro n hn
      cases (hclosed n).symm.trans hn
  | append_singleton tracks x ih =>
      obtain ⟨c, i⟩ := x
      obtain ⟨ht, hbefore, ht', hcases⟩ := track_after ho hable
      have hcounted := ih hbefore fun c i j hi hj =>
        hkeeps c i j (List.mem_append_left _ hi) (List.mem_append_left _ hj)
      rw [trackAll_concat]
      rcases hcases with ⟨hindexes, hsite⟩ | ⟨gone, htakes⟩
      · intro n hn
        rw [hsite] at hn
        rw [hindexes]
        exact hcounted n hn
      · refine htakes.counted ht ht' ?_ hcounted
        intro j hj
        -- where every collection keeps its instance none is ever replaced by another one
        have hsame := hkeeps c i j (by simp) (List.mem_append_left _ (mem_of_peek? ho hbefore hj))
        exact ht'.mem_serials_iff.mpr ⟨c, i, by rw [htakes.found, if_pos rfl], hsame⟩

theorem stillOpen_trackAll (ho : o.Made)
    (hable : ((Tracking.mk o site []).trackAll tracks).site.OpensAndCloses)
    (hown : ∀ c d i j, (c, i) ∈ tracks → (d, j) ∈ tracks → i.serial = j.serial → c = d) :
    ((Tracking.mk o site []).trackAll tracks).StillOpen := by
  induction tracks using List.reverseRecOn with
  | nil =>
      intro n hn
      change n ∈ o.serials at hn
      rw [ho.serials_eq_nil] at hn
      cases hn
  | append_singleton tracks x ih =>
      obtain ⟨c, i⟩ := x
      obtain ⟨ht, hbefore, ht', hcases⟩ := track_after ho hable
      have hstill := ih hbefore fun c d i j hi hj =>
        hown c d i j (List.mem_append_left _ hi) (List.mem_append_left _ hj)
      rw [trackAll_concat]
      rcases hcases with ⟨hindexes, hsite⟩ | ⟨gone, htakes⟩
      · intro n hn
        rw [hindexes] at hn
        rw [hsite]
        exact hstill n hn
      · refine htakes.stillOpen ht ht' ?_ hstill
        intro d j hj hgone hheld
        obtain ⟨e, k, hk, hsame⟩ := ht'.mem_serials_iff.mp hheld
        have hlater : (e, k) ∈ tracks ++ [(c, i)] :=
          mem_of_peek? ho hable (by rw [trackAll_concat]; exact hk)
        have hearlier := List.mem_append_left [(c, i)] (mem_of_peek? ho hbefore hj)
        rw [hown e d k j hlater hearlier hsame, hgone] at hk
        cases hk

theorem exact_iff_lossless (ho : o.Made) (hclosed : ∀ n, site.indexOpen n = false)
    (hable : ((Tracking.mk o site []).trackAll tracks).site.OpensAndCloses) :
    (∀ before, before <+: tracks → ((Tracking.mk o site []).trackAll before).Exact) ↔
      ∀ before c i, before ++ [(c, i)] <+: tracks →
        ((Tracking.mk o site []).trackAll before).Lossless c i := by
  have hstep : ∀ before c i, before ++ [(c, i)] <+: tracks →
      ((Tracking.mk o site []).trackAll before).Exact →
      (((Tracking.mk o site []).trackAll (before ++ [(c, i)])).Exact ↔
        ((Tracking.mk o site []).trackAll before).Lossless c i) := by
    intro before c i hpart hexact
    have hable' := opensAndCloses_of_part ho.wellFormed hpart hable
    rw [trackAll_concat] at hable' ⊢
    exact hexact.track_iff (wellFormed_trackAll ho.wellFormed before) hable'
  constructor
  · intro hexact before c i hpart
    have hbefore : before <+: tracks := (List.prefix_append before _).trans hpart
    exact (hstep before c i hpart (hexact before hbefore)).mp (hexact _ hpart)
  · intro hlossless before
    induction before using List.reverseRecOn with
    | nil =>
        intro _ n
        change site.indexOpen n = true ↔ n ∈ o.serials
        simp [hclosed n, ho.serials_eq_nil]
    | append_singleton before x ih =>
        intro hpart
        have hbefore : before <+: tracks := (List.prefix_append before _).trans hpart
        exact (hstep before x.1 x.2 hpart (ih hbefore)).mpr (hlossless before x.1 x.2 hpart)

end Runs

/-- Indexes are tracked while none of them fails to open or to close, all of them
closed at first.  The open indexes are those of the instances held after every track,
just if no track replaces an instance that is not held for another collection and none
closes the index of one that is.  No index is left open uncounted as long as every
collection keeps its instance, so there are no more than the budget, and none that
is counted was closed as long as no instance is tracked for two collections. -/
theorem open_indexes_are_held_unless_replaced_or_shared {o : OpenIndexes} (ho : o.Made)
    {site : Site W} (hclosed : ∀ n, site.indexOpen n = false)
    {tracks : List (CollectionId × Instance)}
    (hable : ((Tracking.mk o site []).trackAll tracks).site.OpensAndCloses) :
    let after (before : List (CollectionId × Instance)) := (Tracking.mk o site []).trackAll before
    ((∀ before, before <+: tracks → (after before).Exact) ↔
      ∀ before c i, before ++ [(c, i)] <+: tracks → (after before).Lossless c i) ∧
    ((∀ c i j, (c, i) ∈ tracks → (c, j) ∈ tracks → i.serial = j.serial) →
      ∀ before, before <+: tracks → (after before).Counted ∧
        ∀ serials : List Nat, serials.Nodup →
          (∀ n ∈ serials, (after before).site.indexOpen n = true) →
          serials.length ≤ (after before).indexes.budget) ∧
    ((∀ c d i j, (c, i) ∈ tracks → (d, j) ∈ tracks → i.serial = j.serial → c = d) →
      ∀ before, before <+: tracks → (after before).StillOpen) := by
  intro after
  refine ⟨exact_iff_lossless ho hclosed hable, ?_, ?_⟩
  · intro hkeeps before hbefore
    have hcounted : (after before).Counted := by
      apply counted_trackAll ho hclosed (opensAndCloses_of_part ho.wellFormed hbefore hable)
      exact fun c i j hi hj => hkeeps c i j (hbefore.subset hi) (hbefore.subset hj)
    refine ⟨hcounted, ?_⟩
    intro serials hdistinct hopen
    exact (wellFormed_trackAll ho.wellFormed before).length_le hdistinct
      fun n hn => hcounted n (hopen n hn)
  · intro hown before hbefore
    apply stillOpen_trackAll ho (opensAndCloses_of_part ho.wellFormed hbefore hable)
    exact fun c d i j hi hj => hown c d i j (hbefore.subset hi) (hbefore.subset hj)

open Simulation

theorem four_tracks_count_open_indexes :
    let tracks := [0, 1, 2, 0].map fun n => ((numberedCollection n).id, keeperOf n)
    ∃ o, OpenIndexes.ofBudget 2 = .ok o ∧ (∀ n, threeKeepers.indexOpen n = false) ∧
      ((Tracking.mk o threeKeepers []).trackAll tracks).site.OpensAndCloses ∧
      (∀ before, before <+: tracks →
        ((Tracking.mk o threeKeepers []).trackAll before).Counted ∧
        ((Tracking.mk o threeKeepers []).trackAll before).StillOpen) ∧
      ((Tracking.mk o threeKeepers []).trackAll tracks).indexes.serials = [2, 0] := by
  intro tracks
  obtain ⟨o, ho⟩ : ∃ o, OpenIndexes.ofBudget 2 = .ok o := ⟨_, rfl⟩
  have hclosed : ∀ n, threeKeepers.indexOpen n = false := fun n => rfl
  have hrun : ∀ o, OpenIndexes.ofBudget 2 = .ok o →
      ((Tracking.mk o threeKeepers []).trackAll tracks).site.journal.all Call.succeeded = true ∧
      ((Tracking.mk o threeKeepers []).trackAll tracks).indexes.serials = [2, 0] := by
    rintro o ⟨⟩
    decide +kernel
  obtain ⟨hjournal, hserials⟩ := hrun o ho
  have hable : ((Tracking.mk o threeKeepers []).trackAll tracks).site.OpensAndCloses :=
    fun i => ⟨Site.notMem_of_succeeded hjournal _ i, Site.notMem_of_succeeded hjournal _ i⟩
  have hmem : ∀ {c i}, (c, i) ∈ tracks →
      ∃ n < 3, (numberedCollection n).id = c ∧ keeperOf n = i := by
    intro c i hi
    obtain ⟨n, hn, hpair⟩ := List.mem_map.mp hi
    obtain ⟨rfl, rfl⟩ := Prod.mk.inj hpair
    exact ⟨n, by revert n; decide, rfl, rfl⟩
  have hnumbers : ∀ n < 3, ∀ n' < 3,
      (numberedCollection n').id = (numberedCollection n).id → n' = n := by decide
  obtain ⟨-, hcounted, hstill⟩ :=
    open_indexes_are_held_unless_replaced_or_shared (.ofBudget ho) hclosed hable
  refine ⟨o, ho, hclosed, hable, fun before hbefore => ⟨(hcounted ?_ before hbefore).1,
    hstill ?_ before hbefore⟩, hserials⟩
  · intro c i j hi hj
    obtain ⟨n, hn, rfl, rfl⟩ := hmem hi
    obtain ⟨n', hn', hsame, rfl⟩ := hmem hj
    exact (hnumbers n hn n' hn' hsame).symm
  · intro c d i j hi hj hsame
    obtain ⟨n, -, rfl, rfl⟩ := hmem hi
    obtain ⟨n', -, rfl, rfl⟩ := hmem hj
    rw [show n = n' from hsame]

/-- A collection that is tracked with another instance leaves the index of the first
one open, beyond the budget.  An instance that is tracked for another collection is
held there with its index closed. -/
theorem rebuilt_and_shared_instances_are_miscounted :
    ∃ o, OpenIndexes.ofBudget 1 = .ok o ∧ (∀ n, threeKeepers.indexOpen n = false) ∧
      (let t := (Tracking.mk o threeKeepers []).trackAll
          [((numberedCollection 0).id, keeperOf 0), ((numberedCollection 0).id, keeperOf 1)]
       t.site.journal.all Call.succeeded = true ∧ t.site.indexOpen 0 = true ∧
        0 ∉ t.indexes.serials ∧ t.indexes.budget < t.site.world.lives.countP (·.indexOpen)) ∧
      let t := (Tracking.mk o threeKeepers []).trackAll
        [((numberedCollection 0).id, keeperOf 0), ((numberedCollection 1).id, keeperOf 0)]
      t.site.journal.all Call.succeeded = true ∧ 0 ∈ t.indexes.serials ∧
        t.site.indexOpen 0 = false := by
  refine ⟨_, rfl, fun n => rfl, ?_, ?_⟩
  · decide +kernel
  · decide +kernel

end Tracking

end SegmentManager
