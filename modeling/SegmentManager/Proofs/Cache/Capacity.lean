import SegmentManager.Proofs.Cache.Eviction

/-!
# What a larger capacity keeps

The same entries are put into two caches, one after another, and one cache is the
larger.  What the smaller one holds is always an end of what the larger one holds,
so whatever left the larger one has left the smaller one too.
-/

namespace SegmentManager.RecencyCache

variable {κ α : Type}

namespace LongestFitting

variable {small large capacity : Nat} {queue queue' kept kept' l : List (RecencyEntry κ α)}
  {e : RecencyEntry κ α}

theorem suffix_kept (h : LongestFitting capacity queue kept) (hl : l <:+ queue)
    (hfits : sizeOf l ≤ capacity) : l <:+ kept := by
  cases h with
  | fits hsuffix hkept hlongest => exact hlongest l hl hfits
  | alone hlast hkept hnone =>
      by_cases hnil : l = []
      · exact hnil ▸ List.nil_suffix
      · have hlarge := hnone l hl hnil
        omega

theorem kept_suffix (h : LongestFitting capacity queue kept) : kept <:+ queue := by
  cases h with
  | fits hsuffix hkept hlongest => exact hsuffix
  | alone hlast hkept hnone =>
      obtain ⟨front, rfl⟩ := List.getLast?_eq_some_iff.mp hlast
      exact hkept ▸ List.suffix_append front _

theorem mono (h : LongestFitting small queue kept) (h' : LongestFitting large queue' kept')
    (hle : small ≤ large) (hqueue : queue <:+ queue') (hne : kept' ≠ []) : kept <:+ kept' := by
  cases h with
  | fits hsuffix hkept hlongest =>
      exact h'.suffix_kept (hsuffix.trans hqueue) (Nat.le_trans hkept hle)
  | alone hlast hkept hnone =>
      rename_i last
      obtain ⟨front, rfl⟩ := List.getLast?_eq_some_iff.mp hlast
      have hlast' : [last] <:+ queue' := (List.suffix_append front [last]).trans hqueue
      have hlength : [last].length ≤ kept'.length := List.length_pos_iff.mpr hne
      rw [hkept]
      exact List.suffix_of_suffix_length_le hlast' h'.kept_suffix hlength

theorem concat (h : LongestFitting capacity queue kept)
    (h' : LongestFitting capacity (kept ++ [e]) kept') :
    LongestFitting capacity (queue ++ [e]) kept' := by
  have hqueue : kept ++ [e] <:+ queue ++ [e] := by
    obtain ⟨front, hfront⟩ := h.kept_suffix
    exact ⟨front, by rw [← hfront, List.append_assoc]⟩
  cases h' with
  | fits hsuffix hkept hlongest =>
      refine .fits (hsuffix.trans hqueue) hkept ?_
      intro l hl hfits
      apply hlongest l _ hfits
      rcases List.suffix_concat_iff.mp hl with rfl | ⟨front, rfl, hfront⟩
      · exact List.nil_suffix
      · rw [sizeOf_append] at hfits
        obtain ⟨rest, hrest⟩ := h.suffix_kept hfront (by omega)
        exact ⟨rest, by rw [← hrest, List.append_assoc]⟩
  | alone hlast hkept hnone =>
      rename_i last
      refine LongestFitting.alone ?_ hkept ?_
      · rw [List.getLast?_concat] at hlast ⊢
        exact hlast
      · intro l hl hne
        have hnew : capacity < sizeOf [e] :=
          hnone [e] (List.suffix_append kept [e]) (by simp)
        rcases List.suffix_concat_iff.mp hl with rfl | ⟨front, rfl, hfront⟩
        · exact (hne rfl).elim
        · rw [sizeOf_append]
          omega

end LongestFitting

variable [DecidableEq κ]

/-! ## One insertion after another -/

def insertAll (entries : List (RecencyEntry κ α)) (c : RecencyCache κ α) :
    List (κ × α) × RecencyCache κ α :=
  entries.foldl (fun (gone, c) e =>
    (gone ++ (c.insert e.key e.value e.size).1, (c.insert e.key e.value e.size).2)) ([], c)

def insertions (entries : List (RecencyEntry κ α)) : List (CacheUse κ α) :=
  entries.map fun e => .insert e.key e.value e.size

variable {c c' : RecencyCache κ α} {entries : List (RecencyEntry κ α)} {k : κ}

theorem insertAll_concat (entries : List (RecencyEntry κ α)) (e : RecencyEntry κ α)
    (c : RecencyCache κ α) :
    c.insertAll (entries ++ [e]) =
      ((c.insertAll entries).1 ++ ((c.insertAll entries).2.insert e.key e.value e.size).1,
        ((c.insertAll entries).2.insert e.key e.value e.size).2) := by
  unfold insertAll
  rw [List.foldl_concat]

omit [DecidableEq κ] in
theorem insertions_concat (entries : List (RecencyEntry κ α)) (e : RecencyEntry κ α) :
    insertions (entries ++ [e]) = insertions entries ++ [.insert e.key e.value e.size] := by
  simp [insertions]

theorem insertAll_snd (entries : List (RecencyEntry κ α)) (c : RecencyCache κ α) :
    (c.insertAll entries).2 = c.useAll (insertions entries) := by
  induction entries using List.reverseRecOn with
  | nil => rfl
  | append_singleton entries e ih =>
      rw [insertAll_concat, ih, insertions_concat, useAll_concat]
      rfl

theorem wellFormed_insertAll (hc : c.WellFormed) (entries : List (RecencyEntry κ α)) :
    (c.insertAll entries).2.WellFormed := by
  rw [insertAll_snd]
  exact wellFormed_useAll hc _

theorem capacity_insertAll (entries : List (RecencyEntry κ α)) (c : RecencyCache κ α) :
    (c.insertAll entries).2.capacity = c.capacity := by
  rw [insertAll_snd]
  exact capacity_useAll _ c

theorem lastGiven?_insertions (entries : List (RecencyEntry κ α)) (k : κ) :
    lastGiven? (insertions entries) k =
      (entries.reverse.find? (·.key = k)).map fun e => (e.value, e.size) := by
  induction entries using List.reverseRecOn with
  | nil => rfl
  | append_singleton entries e ih =>
      rw [insertions_concat, lastGiven?_concat, ih, List.reverse_concat, List.find?_cons]
      by_cases hkey : e.key = k
      · simp [CacheUse.gives?, hkey]
      · simp [CacheUse.gives?, hkey]

theorem mem_keys_insert (c : RecencyCache κ α) (k : κ) (a : α) (size : Nat) :
    k ∈ (c.insert k a size).2.keys := by
  obtain ⟨gone, kept, -, hentries, -⟩ := insert_split c k a size
  simp [keys, hentries]

theorem insertAll_ne_nil (c : RecencyCache κ α) {entries : List (RecencyEntry κ α)}
    (hne : entries ≠ []) : (c.insertAll entries).2.entries ≠ [] := by
  rw [← List.dropLast_append_getLast hne, insertAll_concat]
  obtain ⟨gone, kept, -, hentries, -⟩ :=
    insert_split (c.insertAll entries.dropLast).2 (entries.getLast hne).key
      (entries.getLast hne).value (entries.getLast hne).size
  simp [hentries]

theorem kept_or_gone (c : RecencyCache κ α) (k : κ) (a : α) (size : Nat) {j : κ}
    (hj : j ∈ c.keys) :
    j ∈ (c.insert k a size).2.keys ∨ j ∈ (c.insert k a size).1.map (·.1) := by
  by_cases hjk : j = k
  · exact .inl (hjk ▸ mem_keys_insert c k a size)
  · obtain ⟨gone, kept, hgone, hentries, happend⟩ := insert_split c k a size
    obtain ⟨e, he, rfl⟩ := List.mem_map.mp hj
    have hin : e ∈ gone ++ kept := happend ▸ mem_without.mpr ⟨he, hjk⟩
    rcases List.mem_append.mp hin with hout | hstays
    · exact .inr (List.mem_map.mpr ⟨(e.key, e.value), by simpa [hgone] using ⟨e, hout, rfl, rfl⟩, rfl⟩)
    · exact .inl (by simpa [keys, hentries] using .inl ⟨e, hstays, rfl⟩)

theorem notMem_keys_of_evicted (hc : c.WellFormed) {a : α} {size : Nat} {j : κ}
    (hj : j ∈ (c.insert k a size).1.map (·.1)) : j ∉ (c.insert k a size).2.keys := by
  obtain ⟨gone, hgone, rfl⟩ := List.mem_map.mp hj
  rw [← peek?_eq_none_iff, peek?_insert hc,
    if_neg (peek?_of_mem_evicted hc.distinct hgone).1, if_pos hj]

theorem held_or_left (c : RecencyCache κ α) {entries : List (RecencyEntry κ α)}
    (hk : k ∈ entries.map (·.key)) :
    k ∈ (c.insertAll entries).2.keys ∨ k ∈ (c.insertAll entries).1.map (·.1) := by
  induction entries using List.reverseRecOn with
  | nil => cases hk
  | append_singleton entries e ih =>
      rw [insertAll_concat, List.map_append, List.mem_append]
      rw [List.map_append, List.map_singleton, List.mem_append, List.mem_singleton] at hk
      rcases hk with hearlier | rfl
      · rcases ih hearlier with hheld | hleft
        · exact (kept_or_gone _ e.key e.value e.size hheld).imp id .inr
        · exact .inr (.inl hleft)
      · exact .inl (mem_keys_insert _ e.key e.value e.size)

theorem put_of_held {capacity : Nat} {entries : List (RecencyEntry κ α)}
    (hk : k ∈ ((empty capacity).insertAll entries).2.keys) : k ∈ entries.map (·.key) := by
  induction entries using List.reverseRecOn with
  | nil => cases hk
  | append_singleton entries e ih =>
      rw [insertAll_concat] at hk
      obtain ⟨entry, hentry, rfl⟩ := List.mem_map.mp hk
      rw [List.map_append, List.mem_append]
      rcases mem_entries_insert hentry with rfl | ⟨hold, -⟩
      · exact .inr (List.mem_singleton_self _)
      · exact .inl (ih (List.mem_map_of_mem hold))

theorem insertAll_split (capacity : Nat) {entries : List (RecencyEntry κ α)}
    (hdistinct : (entries.map (·.key)).Nodup) :
    (∃ gone, ((empty capacity).insertAll entries).1 = gone.map (fun e => (e.key, e.value)) ∧
      gone ++ ((empty capacity).insertAll entries).2.entries = entries) ∧
    LongestFitting capacity entries ((empty capacity).insertAll entries).2.entries := by
  induction entries using List.reverseRecOn with
  | nil =>
      refine ⟨⟨[], rfl, rfl⟩, .fits List.suffix_rfl (Nat.zero_le _) ?_⟩
      intro l hl hfits
      exact hl
  | append_singleton entries e ih =>
      rw [List.map_append, List.map_singleton, List.nodup_append] at hdistinct
      obtain ⟨hbefore, -, hapart⟩ := hdistinct
      have hwell := wellFormed_insertAll (wellFormed_empty (κ := κ) (α := α) capacity) entries
      have hlongest := longestFitting_insert hwell e.key e.value e.size
      obtain ⟨⟨gone, hgone, hsplit⟩, hheld⟩ := ih hbefore
      obtain ⟨out, kept, hout, hentries, happend⟩ :=
        insert_split ((empty capacity).insertAll entries).2 e.key e.value e.size
      have hwithout : without ((empty capacity).insertAll entries).2.entries e.key =
          ((empty capacity).insertAll entries).2.entries := by
        apply without_of_notMem
        intro hmem
        exact hapart e.key (put_of_held hmem) e.key (List.mem_singleton_self _) rfl
      rw [hwithout] at happend
      rw [queueWith, hwithout, capacity_insertAll] at hlongest
      rw [insertAll_concat]
      refine ⟨⟨gone ++ out, ?_, ?_⟩, hheld.concat hlongest⟩
      · rw [hgone, hout, List.map_append]
      · rw [hentries, ← hsplit, ← happend]
        simp only [List.append_assoc]

/-! ## Two capacities -/

theorem suffix_queueWith (hsuffix : c.entries <:+ c'.entries) (k : κ) (a : α) (size : Nat) :
    c.queueWith k a size <:+ c'.queueWith k a size := by
  obtain ⟨front, hfront⟩ := hsuffix
  refine ⟨without front k, ?_⟩
  simp only [queueWith, without]
  rw [← hfront, List.filter_append, List.append_assoc]

theorem suffix_insert (hc : c.WellFormed) (hc' : c'.WellFormed) (hle : c.capacity ≤ c'.capacity)
    (hsuffix : c.entries <:+ c'.entries) (k : κ) (a : α) (size : Nat) :
    (c.insert k a size).2.entries <:+ (c'.insert k a size).2.entries := by
  obtain ⟨gone, kept, -, hentries, -⟩ := insert_split c' k a size
  have hne : (c'.insert k a size).2.entries ≠ [] := by simp [hentries]
  exact (longestFitting_insert hc k a size).mono (longestFitting_insert hc' k a size) hle
    (suffix_queueWith hsuffix k a size) hne

theorem allHaveRoom_of_suffix (hc : c.WellFormed) (hc' : c'.WellFormed)
    (hle : c.capacity ≤ c'.capacity) (hsuffix : c.entries <:+ c'.entries)
    (hroom : c'.AllHaveRoom (insertions entries)) : c.AllHaveRoom (insertions entries) := by
  induction entries generalizing c c' with
  | nil => trivial
  | cons e rest ih =>
      obtain ⟨hfirst, hrest⟩ := hroom
      refine ⟨?_, ih (wellFormed_insert hc _ _ _) (wellFormed_insert hc' _ _ _) hle
        (suffix_insert hc hc' hle hsuffix e.key e.value e.size) hrest⟩
      obtain ⟨front, hfront⟩ := suffix_queueWith hsuffix e.key e.value e.size
      have hsum : sizeOf (c'.queueWith e.key e.value e.size) < 2 ^ 64 := hfirst
      rw [← hfront, sizeOf_append] at hsum
      exact Nat.lt_of_le_of_lt (Nat.le_add_left _ _) hsum

section Capacities

variable {small large : Nat}

theorem suffix_insertAll (hle : small ≤ large) (entries : List (RecencyEntry κ α)) :
    ((empty small).insertAll entries).2.entries <:+ ((empty large).insertAll entries).2.entries := by
  induction entries using List.reverseRecOn with
  | nil => exact List.suffix_rfl
  | append_singleton entries e ih =>
      rw [insertAll_concat, insertAll_concat]
      apply suffix_insert (wellFormed_insertAll (wellFormed_empty small) entries)
        (wellFormed_insertAll (wellFormed_empty large) entries) _ ih
      rw [capacity_insertAll, capacity_insertAll]
      exact hle

/-- A key that leaves the larger cache was put in before and is not in the smaller
one either, which it can only have left. -/
theorem left_of_left (hle : small ≤ large) {entries : List (RecencyEntry κ α)}
    (hk : k ∈ ((empty large).insertAll entries).1.map (·.1)) :
    k ∈ ((empty small).insertAll entries).1.map (·.1) := by
  induction entries using List.reverseRecOn with
  | nil => cases hk
  | append_singleton entries e ih =>
      have hlarge := wellFormed_insertAll (wellFormed_empty (κ := κ) (α := α) large) entries
      rw [insertAll_concat, List.map_append, List.mem_append] at hk
      rcases hk with hearlier | hnow
      · rw [insertAll_concat, List.map_append]
        exact List.mem_append_left _ (ih hearlier)
      · have hgone : k ∉ ((empty large).insertAll (entries ++ [e])).2.keys := by
          rw [insertAll_concat]
          exact notMem_keys_of_evicted hlarge hnow
        have hput : k ∈ (entries ++ [e]).map (·.key) := by
          obtain ⟨out, hout, rfl⟩ := List.mem_map.mp hnow
          obtain ⟨held, hheld, hkey, -⟩ := (peek?_eq_some_iff hlarge.distinct).mp
            (peek?_of_mem_evicted hlarge.distinct hout).2
          have hkeys : out.1 ∈ ((empty large).insertAll entries).2.keys :=
            List.mem_map.mpr ⟨held, hheld, hkey⟩
          rw [List.map_append]
          exact List.mem_append_left _ (put_of_held hkeys)
        have habsent : k ∉ ((empty small).insertAll (entries ++ [e])).2.keys :=
          fun hmem => hgone (((suffix_insertAll hle (entries ++ [e])).map (·.key)).subset hmem)
        exact (held_or_left (empty small) hput).resolve_left habsent

end Capacities

end SegmentManager.RecencyCache
