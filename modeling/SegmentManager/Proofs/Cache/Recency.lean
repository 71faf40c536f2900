import Mathlib.Algebra.Ring.Nat
import Mathlib.Data.List.Nodup
import SegmentManager.Cache.Recency

/-!
# What a recency cache holds

The keys of a recency cache are distinct, its running total is the sum of the
sizes of its entries, and after each operation the entries fit, or one is left.
An insertion splits the queue of entries, the new one last, into those that
leave and those that stay.
-/

namespace SegmentManager.RecencyCache

variable {κ α : Type} [DecidableEq κ]

def sizeOf (entries : List (RecencyEntry κ α)) : Nat := (entries.map (·.size)).sum

structure WellFormed (c : RecencyCache κ α) : Prop where
  distinct : c.keys.Nodup
  total_eq : c.total = sizeOf c.entries
  fits : c.total ≤ c.capacity ∨ c.entries.length = 1

omit [DecidableEq κ] in
theorem wellFormed_empty (capacity : Nat) : (empty capacity : RecencyCache κ α).WellFormed :=
  ⟨List.nodup_nil, rfl, .inl (Nat.zero_le _)⟩

/-! ## Looking up -/

theorem find?_eq_some_iff {c : RecencyCache κ α} (hc : c.keys.Nodup) {k : κ}
    {e : RecencyEntry κ α} : c.find? k = some e ↔ e ∈ c.entries ∧ e.key = k := by
  constructor
  · intro hfind
    exact ⟨List.mem_of_find?_eq_some hfind, by simpa using List.find?_some hfind⟩
  · rintro ⟨hmem, rfl⟩
    cases hfind : c.find? e.key with
    | none =>
        have hall := List.find?_eq_none.mp hfind e hmem
        simp at hall
    | some other =>
        have hkey : other.key = e.key := by simpa using List.find?_some hfind
        rw [List.inj_on_of_nodup_map hc (List.mem_of_find?_eq_some hfind) hmem hkey]

theorem peek?_eq_some_iff {c : RecencyCache κ α} (hc : c.keys.Nodup) {k : κ} {a : α} :
    c.peek? k = some a ↔ ∃ e ∈ c.entries, e.key = k ∧ e.value = a := by
  unfold peek?
  rw [Option.map_eq_some_iff]
  constructor
  · rintro ⟨e, hfind, hvalue⟩
    obtain ⟨hmem, hkey⟩ := (find?_eq_some_iff hc).mp hfind
    exact ⟨e, hmem, hkey, hvalue⟩
  · rintro ⟨e, hmem, hkey, hvalue⟩
    exact ⟨e, (find?_eq_some_iff hc).mpr ⟨hmem, hkey⟩, hvalue⟩

theorem find?_eq_none_iff (c : RecencyCache κ α) (k : κ) : c.find? k = none ↔ k ∉ c.keys := by
  simp [find?, keys]

theorem peek?_eq_none_iff (c : RecencyCache κ α) (k : κ) : c.peek? k = none ↔ k ∉ c.keys := by
  rw [peek?, Option.map_eq_none_iff, find?_eq_none_iff]

/-! ## Taking entries out -/

omit [DecidableEq κ] in
theorem nodup_keys_of_sublist {l l' : List (RecencyEntry κ α)} (hsub : l'.Sublist l)
    (hl : (l.map (·.key)).Nodup) : (l'.map (·.key)).Nodup :=
  (hsub.map _).nodup hl

theorem mem_without {entries : List (RecencyEntry κ α)} {k : κ} {e : RecencyEntry κ α} :
    e ∈ without entries k ↔ e ∈ entries ∧ e.key ≠ k := by
  simp [without]

theorem without_of_notMem {entries : List (RecencyEntry κ α)} {k : κ}
    (hk : k ∉ entries.map (·.key)) : without entries k = entries := by
  apply List.filter_eq_self.mpr
  intro e he
  simp only [ne_eq, decide_not, Bool.not_eq_true', decide_eq_false_iff_not]
  rintro rfl
  exact hk (List.mem_map.mpr ⟨e, he, rfl⟩)

theorem entries_drop (c : RecencyCache κ α) (k : κ) :
    (c.drop k).entries = without c.entries k := by
  unfold drop
  cases hfind : c.find? k with
  | none =>
      have hk : k ∉ c.entries.map (·.key) := by
        simpa [find?] using hfind
      exact (without_of_notMem hk).symm
  | some e => rfl

theorem keys_drop (c : RecencyCache κ α) (k : κ) :
    (c.drop k).keys = c.keys.filter (· ≠ k) := by
  unfold keys
  rw [entries_drop, List.filter_map]
  rfl

theorem sizeOf_without {entries : List (RecencyEntry κ α)} {e : RecencyEntry κ α}
    (hnodup : (entries.map (·.key)).Nodup) (hmem : e ∈ entries) :
    sizeOf (without entries e.key) + e.size = sizeOf entries := by
  induction entries with
  | nil => simp at hmem
  | cons first rest ih =>
      rw [List.map_cons, List.nodup_cons] at hnodup
      rcases List.mem_cons.mp hmem with rfl | hrest
      · have hfirst : without (e :: rest) e.key = rest := by
          have htail := without_of_notMem hnodup.1
          unfold without at htail ⊢
          rw [List.filter_cons_of_neg (by simp), htail]
        rw [hfirst]
        simp [sizeOf, Nat.add_comm]
      · have hne : first.key ≠ e.key := by
          intro heq
          exact hnodup.1 (heq ▸ List.mem_map.mpr ⟨e, hrest, rfl⟩)
        have hcons : without (first :: rest) e.key = first :: without rest e.key := by
          unfold without
          exact List.filter_cons_of_pos (by simpa using hne)
        rw [hcons]
        have hsum := ih hnodup.2 hrest
        simp only [sizeOf, List.map_cons, List.sum_cons] at hsum ⊢
        omega

theorem total_drop {c : RecencyCache κ α} (hc : c.WellFormed) (k : κ) :
    (c.drop k).total = sizeOf (without c.entries k) := by
  unfold drop
  cases hfind : c.find? k with
  | none =>
      have hk : k ∉ c.entries.map (·.key) := by
        simpa [find?] using hfind
      simp only [without_of_notMem hk]
      exact hc.total_eq
  | some e =>
      obtain ⟨hmem, rfl⟩ := (find?_eq_some_iff hc.distinct).mp hfind
      have hsum := sizeOf_without hc.distinct hmem
      have htotal := hc.total_eq
      simp only
      omega

theorem total_drop_le (c : RecencyCache κ α) (k : κ) : (c.drop k).total ≤ c.total := by
  unfold drop
  cases c.find? k with
  | none => exact Nat.le_refl _
  | some e => exact Nat.sub_le _ _

theorem find?_drop (c : RecencyCache κ α) (k other : κ) :
    (c.drop k).find? other = if other = k then none else c.find? other := by
  unfold find?
  rw [entries_drop]
  unfold without
  rw [List.find?_filter]
  by_cases hk : other = k
  · subst hk
    simp
  · rw [if_neg hk]
    congr 1
    funext e
    by_cases he : e.key = other
    · subst he
      simp [hk]
    · simp [he]

theorem peek?_drop (c : RecencyCache κ α) (k other : κ) :
    (c.drop k).peek? other = if other = k then none else c.peek? other := by
  unfold peek?
  rw [find?_drop]
  split <;> rfl

theorem wellFormed_drop {c : RecencyCache κ α} (hc : c.WellFormed) (k : κ) :
    (c.drop k).WellFormed := by
  have hsub : (without c.entries k).Sublist c.entries := List.filter_sublist
  refine ⟨?_, ?_, ?_⟩
  · unfold keys
    rw [entries_drop]
    exact nodup_keys_of_sublist hsub hc.distinct
  · rw [entries_drop, total_drop hc]
  · rcases hc.fits with hfit | hone
    · left
      rw [capacity_drop]
      exact Nat.le_trans (total_drop_le c k) hfit
    · have hlength := hsub.length_le
      rw [entries_drop, total_drop hc]
      cases hleft : without c.entries k with
      | nil => exact .inl (Nat.zero_le _)
      | cons e rest =>
          right
          rw [hleft] at hlength
          simp only [List.length_cons] at hlength ⊢
          omega

/-! ## Using and clearing -/

theorem find?_touch (c : RecencyCache κ α) (k other : κ) :
    (c.touch k).2.find? other = c.find? other := by
  unfold touch
  cases hfind : c.find? k with
  | none => rfl
  | some e =>
      have hkey : e.key = k := by simpa using List.find?_some hfind
      unfold find?
      simp only [List.find?_append]
      by_cases hother : other = k
      · subst hother
        have hgone : (without c.entries other).find? (·.key = other) = none := by
          simp [without, List.find?_eq_none]
        unfold find? at hfind
        rw [hgone, hfind]
        simp [hkey]
      · have hkept := find?_drop c k other
        unfold find? at hkept
        rw [entries_drop, if_neg hother] at hkept
        have hnew : ([e].find? (·.key = other)) = none := by
          have hne : e.key ≠ other := by
            rw [hkey]
            exact Ne.symm hother
          simp [hne]
        rw [hnew, Option.or_none, hkept]

theorem peek?_touch (c : RecencyCache κ α) (k other : κ) :
    (c.touch k).2.peek? other = c.peek? other := by
  unfold peek?
  rw [find?_touch]

theorem mem_entries_touch {c : RecencyCache κ α} {k : κ} {e : RecencyEntry κ α}
    (hmem : e ∈ (c.touch k).2.entries) : e ∈ c.entries := by
  unfold touch at hmem
  cases hfind : c.find? k with
  | none =>
      rw [hfind] at hmem
      exact hmem
  | some found =>
      rw [hfind] at hmem
      rcases List.mem_append.mp hmem with hrest | hlast
      · exact (mem_without.mp hrest).1
      · rw [List.mem_singleton.mp hlast]
        exact List.mem_of_find?_eq_some hfind

theorem capacity_touch (c : RecencyCache κ α) (k : κ) :
    (c.touch k).2.capacity = c.capacity := by
  unfold touch
  cases c.find? k <;> rfl

theorem wellFormed_touch {c : RecencyCache κ α} (hc : c.WellFormed) (k : κ) :
    (c.touch k).2.WellFormed := by
  unfold touch
  cases hfind : c.find? k with
  | none => exact hc
  | some e =>
      obtain ⟨hmem, rfl⟩ := (find?_eq_some_iff hc.distinct).mp hfind
      have hsum := sizeOf_without hc.distinct hmem
      have hsub : (without c.entries e.key).Sublist c.entries := List.filter_sublist
      refine ⟨?_, ?_, ?_⟩
      · unfold keys
        rw [List.map_append, List.nodup_append]
        refine ⟨nodup_keys_of_sublist hsub hc.distinct, by simp, ?_⟩
        intro x hx y hy
        obtain ⟨other, hother, rfl⟩ := List.mem_map.mp hx
        simp only [List.map_cons, List.map_nil, List.mem_singleton] at hy
        subst hy
        exact (mem_without.mp hother).2
      · rw [hc.total_eq, ← hsum]
        simp [sizeOf]
      · rcases hc.fits with hfit | hone
        · exact .inl hfit
        · right
          obtain ⟨only, honly⟩ := List.length_eq_one_iff.mp hone
          rw [honly, List.mem_singleton] at hmem
          subst hmem
          simp [honly, without]

omit [DecidableEq κ] in
theorem wellFormed_clear (c : RecencyCache κ α) : c.clear.WellFormed :=
  wellFormed_empty c.capacity

/-! ## Insertion -/

/-- The queue out of which an insertion evicts: the new entry is the last. -/
def queueWith (c : RecencyCache κ α) (k : κ) (a : α) (size : Nat) : List (RecencyEntry κ α) :=
  without c.entries k ++ [⟨k, a, size⟩]

omit [DecidableEq κ] in
theorem shrink_total {capacity total : Nat} {entries : List (RecencyEntry κ α)}
    (htotal : total = sizeOf entries) :
    (shrink capacity total entries).2.1 = sizeOf (shrink capacity total entries).2.2 := by
  fun_induction shrink capacity total entries with
  | case1 total oldest next rest hlarge evicted left kept hsplit ih =>
      rw [hsplit] at ih
      apply ih
      simp only [sizeOf, List.map_cons, List.sum_cons] at htotal ⊢
      omega
  | case2 => exact htotal
  | case3 => exact htotal

omit [DecidableEq κ] in
theorem shrink_fits (capacity total : Nat) (entries : List (RecencyEntry κ α)) :
    (shrink capacity total entries).2.1 ≤ capacity ∨
      (shrink capacity total entries).2.2.length ≤ 1 := by
  fun_induction shrink capacity total entries with
  | case1 total oldest next rest hlarge evicted left kept hsplit ih =>
      rw [hsplit] at ih
      exact ih
  | case2 total oldest next rest hsmall => exact .inl (Nat.le_of_not_lt hsmall)
  | case3 total entries hshort =>
      right
      cases entries with
      | nil => simp
      | cons first rest =>
          cases rest with
          | nil => simp
          | cons second rest => exact (hshort first second rest rfl).elim

omit [DecidableEq κ] in
theorem shrink_ne_nil (capacity total : Nat) {entries : List (RecencyEntry κ α)}
    (hne : entries ≠ []) : (shrink capacity total entries).2.2 ≠ [] := by
  fun_induction shrink capacity total entries with
  | case1 total oldest next rest hlarge evicted left kept hsplit ih =>
      rw [hsplit] at ih
      exact ih (by simp)
  | case2 => exact hne
  | case3 => exact hne

theorem insert_split (c : RecencyCache κ α) (k : κ) (a : α) (size : Nat) :
    ∃ gone kept,
      (c.insert k a size).1 = gone.map (fun e => (e.key, e.value)) ∧
      (c.insert k a size).2.entries = kept ++ [⟨k, a, size⟩] ∧
      gone ++ kept = without c.entries k := by
  have happend := shrink_append c.capacity ((c.drop k).total + size) (c.queueWith k a size)
  have hnew : c.queueWith k a size ≠ [] := by simp [queueWith]
  have hne := shrink_ne_nil c.capacity ((c.drop k).total + size) hnew
  have hqueue : (c.drop k).entries ++ [⟨k, a, size⟩] = c.queueWith k a size := by
    rw [entries_drop]
    rfl
  unfold insert
  simp only
  rw [hqueue]
  generalize shrink c.capacity ((c.drop k).total + size) (c.queueWith k a size) = parts
    at happend hne
  obtain ⟨gone, left, stay⟩ := parts
  simp only at happend hne ⊢
  obtain ⟨kept, last, rfl⟩ : ∃ kept last, stay = kept ++ [last] :=
    ⟨stay.dropLast, stay.getLast hne, (List.dropLast_append_getLast hne).symm⟩
  refine ⟨gone, kept, rfl, ?_, ?_⟩
  all_goals
    rw [queueWith, ← List.append_assoc] at happend
    obtain ⟨hkept, hlast⟩ := List.append_inj' happend rfl
  · rw [hlast]
  · exact hkept

theorem wellFormed_insert {c : RecencyCache κ α} (hc : c.WellFormed) (k : κ) (a : α)
    (size : Nat) : (c.insert k a size).2.WellFormed := by
  have htotal : (c.drop k).total + size = sizeOf ((c.drop k).entries ++ [⟨k, a, size⟩]) := by
    rw [total_drop hc, entries_drop]
    simp [sizeOf]
  obtain ⟨gone, kept, -, hentries, happend⟩ := insert_split c k a size
  have hsub : kept.Sublist c.entries :=
    (List.sublist_append_right gone kept).trans (happend ▸ List.filter_sublist)
  refine ⟨?_, shrink_total htotal, ?_⟩
  · unfold keys
    rw [hentries, List.map_append, List.nodup_append]
    refine ⟨nodup_keys_of_sublist hsub hc.distinct, by simp, ?_⟩
    intro x hx y hy
    obtain ⟨e, he, rfl⟩ := List.mem_map.mp hx
    simp only [List.map_cons, List.map_nil, List.mem_singleton] at hy
    have hin : e ∈ without c.entries k := happend ▸ List.mem_append_right gone he
    rw [hy]
    exact (mem_without.mp hin).2
  · rcases shrink_fits c.capacity ((c.drop k).total + size)
        ((c.drop k).entries ++ [⟨k, a, size⟩]) with hfit | hone
    · exact .inl hfit
    · right
      have hlength : (c.insert k a size).2.entries.length ≤ 1 := hone
      rw [hentries] at hlength ⊢
      simp only [List.length_append, List.length_cons, List.length_nil] at hlength ⊢
      omega

theorem peek?_of_mem_evicted {c : RecencyCache κ α} (hc : c.keys.Nodup) {k : κ} {a : α}
    {size : Nat} {d : κ} {b : α} (hmem : (d, b) ∈ (c.insert k a size).1) :
    d ≠ k ∧ c.peek? d = some b := by
  obtain ⟨gone, kept, hgone, -, happend⟩ := insert_split c k a size
  rw [hgone] at hmem
  obtain ⟨e, he, heq⟩ := List.mem_map.mp hmem
  obtain ⟨rfl, rfl⟩ := Prod.mk.inj heq
  have hin : e ∈ without c.entries k := happend ▸ List.mem_append_left kept he
  obtain ⟨hentry, hkey⟩ := mem_without.mp hin
  exact ⟨hkey, (peek?_eq_some_iff hc).mpr ⟨e, hentry, rfl, rfl⟩⟩

theorem nodup_evicted {c : RecencyCache κ α} (hc : c.keys.Nodup) (k : κ) (a : α) (size : Nat) :
    ((c.insert k a size).1.map (·.1)).Nodup := by
  obtain ⟨gone, kept, hgone, -, happend⟩ := insert_split c k a size
  rw [hgone, List.map_map]
  exact nodup_keys_of_sublist
    ((List.sublist_append_left gone kept).trans (happend ▸ List.filter_sublist)) hc

theorem prefix_evicted (c : RecencyCache κ α) (k : κ) (a : α) (size : Nat) :
    (c.insert k a size).1.map (·.1) <+: c.keys.filter (· ≠ k) := by
  obtain ⟨gone, kept, hgone, -, happend⟩ := insert_split c k a size
  rw [hgone, List.map_map, ← keys_drop, keys, entries_drop, ← happend, List.map_append]
  exact List.prefix_append _ _

theorem mem_entries_insert {c : RecencyCache κ α} {k : κ} {a : α} {size : Nat}
    {e : RecencyEntry κ α} (hmem : e ∈ (c.insert k a size).2.entries) :
    e = ⟨k, a, size⟩ ∨ e ∈ c.entries ∧ e.key ≠ k := by
  obtain ⟨gone, kept, -, hentries, happend⟩ := insert_split c k a size
  rw [hentries, List.mem_append, List.mem_singleton] at hmem
  rcases hmem with hkept | hnew
  · right
    exact mem_without.mp (happend ▸ List.mem_append_right gone hkept)
  · exact .inl hnew

theorem find?_insert {c : RecencyCache κ α} (hc : c.WellFormed) (k : κ) (a : α) (size : Nat)
    (d : κ) : (c.insert k a size).2.find? d =
      if d = k then some ⟨k, a, size⟩
      else if d ∈ (c.insert k a size).1.map (·.1) then none else c.find? d := by
  have hafter := (wellFormed_insert hc k a size).distinct
  obtain ⟨gone, kept, hgone, hentries, happend⟩ := insert_split c k a size
  have hkeys : ((gone ++ kept).map (·.key)).Nodup := by
    rw [happend]
    exact nodup_keys_of_sublist List.filter_sublist hc.distinct
  split
  · rename_i hd
    apply (find?_eq_some_iff hafter).mpr
    exact ⟨by simp [hentries], hd.symm⟩
  · rename_i hd
    rw [hgone, List.map_map]
    split
    · rename_i hleft
      obtain ⟨e, he, rfl⟩ := List.mem_map.mp hleft
      have habsent : e.key ∉ (c.insert k a size).2.keys := by
        unfold keys
        rw [hentries, List.map_append, List.mem_append]
        rintro (hkept | hnew)
        · rw [List.map_append, List.nodup_append] at hkeys
          exact hkeys.2.2 e.key (List.mem_map.mpr ⟨e, he, rfl⟩) e.key hkept rfl
        · simp only [List.map_cons, List.map_nil, List.mem_singleton] at hnew
          exact hd hnew
      exact (find?_eq_none_iff _ _).mpr habsent
    · rename_i hstays
      apply Option.ext
      intro e
      rw [find?_eq_some_iff hafter, find?_eq_some_iff hc.distinct]
      constructor
      · rintro ⟨he, rfl⟩
        rcases mem_entries_insert he with rfl | ⟨hentry, -⟩
        · exact (hd rfl).elim
        · exact ⟨hentry, rfl⟩
      · rintro ⟨he, rfl⟩
        have hin : e ∈ gone ++ kept := happend ▸ mem_without.mpr ⟨he, hd⟩
        rcases List.mem_append.mp hin with hgone' | hkept
        · exact (hstays (List.mem_map.mpr ⟨e, hgone', rfl⟩)).elim
        · exact ⟨by simp [hentries, hkept], rfl⟩

theorem peek?_insert {c : RecencyCache κ α} (hc : c.WellFormed) (k : κ) (a : α) (size : Nat)
    (d : κ) : (c.insert k a size).2.peek? d =
      if d = k then some a
      else if d ∈ (c.insert k a size).1.map (·.1) then none else c.peek? d := by
  unfold peek?
  rw [find?_insert hc]
  split
  · rfl
  · split <;> rfl

theorem length_evicted {c : RecencyCache κ α} (hc : c.WellFormed) (k : κ) (a : α) (size : Nat) :
    (c.insert k a size).1.length =
      (c.keys.filter fun d => ((c.insert k a size).2.peek? d).isNone).length := by
  have hkeys : ∀ d, d ∈ c.keys ↔ c.peek? d ≠ none := by
    intro d
    rw [peek?, ne_eq, Option.map_eq_none_iff, find?_eq_none_iff, not_not]
  have hsame : ((c.insert k a size).1.map (·.1)).Perm
      (c.keys.filter fun d => ((c.insert k a size).2.peek? d).isNone) := by
    apply (List.perm_ext_iff_of_nodup (nodup_evicted hc.distinct k a size)
      (hc.distinct.filter _)).mpr
    intro d
    rw [List.mem_filter, Option.isNone_iff_eq_none, peek?_insert hc, hkeys]
    constructor
    · intro hgone
      obtain ⟨e, he, rfl⟩ := List.mem_map.mp hgone
      obtain ⟨hne, hfound⟩ := peek?_of_mem_evicted hc.distinct he
      rw [if_neg hne, if_pos hgone]
      simp [hfound]
    · rintro ⟨hfound, hlost⟩
      split at hlost
      · cases hlost
      · split at hlost
        · assumption
        · exact (hfound hlost).elim
  rw [← hsame.length_eq, List.length_map]

/-! ## Other keys and values -/

section Relabel

variable {ν β : Type} [DecidableEq ν] {name : κ → ν} {give : κ → β}

def relabelEntry (name : κ → ν) (give : κ → β) (e : RecencyEntry κ α) :
    RecencyEntry ν β :=
  ⟨name e.key, give e.key, e.size⟩

def relabel (name : κ → ν) (give : κ → β) (c : RecencyCache κ α) : RecencyCache ν β where
  capacity := c.capacity
  total := c.total
  entries := c.entries.map (relabelEntry name give)

omit [DecidableEq κ] [DecidableEq ν] in
theorem keys_relabel (c : RecencyCache κ α) : (c.relabel name give).keys = c.keys.map name := by
  simp [relabel, relabelEntry, keys, List.map_map, Function.comp_def]

omit [DecidableEq κ] [DecidableEq ν] in
theorem shrink_relabel (capacity total : Nat) (entries : List (RecencyEntry κ α)) :
    shrink capacity total (entries.map (relabelEntry name give)) =
      ((shrink capacity total entries).1.map (relabelEntry name give),
        (shrink capacity total entries).2.1,
        (shrink capacity total entries).2.2.map (relabelEntry name give)) := by
  fun_induction shrink capacity total entries with
  | case1 total oldest next rest hlarge evicted left kept hsplit ih =>
      rw [hsplit] at ih
      simp only [List.map_cons] at ih ⊢
      rw [shrink, if_pos hlarge]
      exact congrArg (fun parts => (relabelEntry name give oldest :: parts.1, parts.2)) ih
  | case2 total oldest next rest hsmall =>
      simp only [List.map_cons]
      rw [shrink, if_neg hsmall]
      rfl
  | case3 total entries hshort =>
      cases entries with
      | nil => rfl
      | cons first rest =>
          cases rest with
          | nil => rfl
          | cons second rest => exact (hshort first second rest rfl).elim

theorem insert_of_absent {c : RecencyCache κ α} {k : κ} (habsent : k ∉ c.keys) (a : α)
    (size : Nat) : c.insert k a size =
      let parts := shrink c.capacity (c.total + size) (c.entries ++ [⟨k, a, size⟩])
      (parts.1.map fun e => (e.key, e.value),
        { c with total := parts.2.1, entries := parts.2.2 }) := by
  have hdrop : c.drop k = c := by
    unfold drop
    rw [(find?_eq_none_iff c k).mpr habsent]
  unfold insert
  rw [hdrop]

theorem insert_relabel (give : κ → β) {c : RecencyCache κ α} {k : κ} (habsent : k ∉ c.keys)
    (habsent' : name k ∉ c.keys.map name) (a : α) (size : Nat) :
    (c.relabel name give).insert (name k) (give k) size =
      ((c.insert k a size).1.map fun e => (name e.1, give e.1),
        (c.insert k a size).2.relabel name give) := by
  have hqueue : (c.relabel name give).entries ++ [⟨name k, give k, size⟩] =
      (c.entries ++ [(⟨k, a, size⟩ : RecencyEntry κ α)]).map (relabelEntry name give) := by
    rw [List.map_append]
    rfl
  rw [insert_of_absent (c.keys_relabel ▸ habsent'), insert_of_absent habsent, hqueue,
    shrink_relabel]
  simp [relabel, relabelEntry, List.map_map, Function.comp_def]

end Relabel

end SegmentManager.RecencyCache
