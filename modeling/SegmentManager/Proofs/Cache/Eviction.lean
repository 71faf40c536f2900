import SegmentManager.Proofs.Cache.Uses

/-!
# Which entries an insertion evicts

An insertion looks at running totals only and lets the oldest entry go as long as
the total is too large.  What it leaves is the longest end of the queue that fits
the capacity, or the new entry alone where not even that one fits.
-/

namespace SegmentManager.RecencyCache

variable {κ α : Type}

/-- The longest end of the queue whose sizes fit.  Where none fits, all but the last
entry are given up. -/
inductive LongestFitting (capacity : Nat) (queue kept : List (RecencyEntry κ α)) : Prop
  | fits (hsuffix : kept <:+ queue) (hfits : sizeOf kept ≤ capacity)
      (hlongest : ∀ l, l <:+ queue → sizeOf l ≤ capacity → l <:+ kept)
  | alone {last : RecencyEntry κ α} (hlast : queue.getLast? = some last) (hkept : kept = [last])
      (hnone : ∀ l, l <:+ queue → l ≠ [] → capacity < sizeOf l)

theorem sizeOf_append (l l' : List (RecencyEntry κ α)) :
    sizeOf (l ++ l') = sizeOf l + sizeOf l' := by
  simp [sizeOf]

/-- An entry leaves only when everything from it on is too large, so no end of the
queue that fits is longer than what is kept. -/
theorem suffix_shrink {capacity total : Nat} {entries l : List (RecencyEntry κ α)}
    (htotal : total = sizeOf entries) (hsuffix : l <:+ entries) (hfits : sizeOf l ≤ capacity) :
    l <:+ (shrink capacity total entries).2.2 := by
  fun_induction shrink capacity total entries with
  | case1 total oldest next rest hlarge evicted left kept hsplit ih =>
      rw [hsplit] at ih
      have hrest : total - oldest.size = sizeOf (next :: rest) := by
        simp only [sizeOf, List.map_cons, List.sum_cons] at htotal ⊢
        omega
      rcases List.suffix_cons_iff.mp hsuffix with rfl | hshorter
      · omega
      · exact ih hrest hshorter
  | case2 => exact hsuffix
  | case3 => exact hsuffix

theorem longestFitting_shrink (capacity : Nat) {total : Nat} {entries : List (RecencyEntry κ α)}
    {last : RecencyEntry κ α} (htotal : total = sizeOf entries)
    (hlast : entries.getLast? = some last) :
    LongestFitting capacity entries (shrink capacity total entries).2.2 := by
  have hne : entries ≠ [] := by
    rintro rfl
    cases hlast
  have hsuffix : (shrink capacity total entries).2.2 <:+ entries :=
    ⟨_, shrink_append capacity total entries⟩
  have hkept := shrink_ne_nil capacity total hne
  have hlongest : ∀ l, l <:+ entries → sizeOf l ≤ capacity →
      l <:+ (shrink capacity total entries).2.2 :=
    fun l hl hfits => suffix_shrink htotal hl hfits
  have hsum : (shrink capacity total entries).2.1 = _ := shrink_total htotal
  have hshrunk := shrink_fits capacity total entries
  rw [hsum] at hshrunk
  generalize (shrink capacity total entries).2.2 = kept at hsuffix hkept hlongest hshrunk ⊢
  by_cases hfits : sizeOf kept ≤ capacity
  · exact .fits hsuffix hfits hlongest
  · obtain ⟨only, rfl⟩ : ∃ only, kept = [only] := by
      have hpos := List.length_pos_iff.mpr hkept
      exact List.length_eq_one_iff.mp (by omega)
    have honly : entries.getLast? = some only := by
      obtain ⟨front, rfl⟩ := hsuffix
      simp
    refine .alone honly rfl ?_
    intro l hl hl'
    by_contra hsmall
    rcases List.suffix_cons_iff.mp (hlongest l hl (by omega)) with rfl | hnil
    · omega
    · exact hl' (List.suffix_nil.mp hnil)

variable [DecidableEq κ]

theorem getLast?_queueWith (c : RecencyCache κ α) (k : κ) (a : α) (size : Nat) :
    (c.queueWith k a size).getLast? = some ⟨k, a, size⟩ := by
  simp [queueWith]

theorem longestFitting_insert {c : RecencyCache κ α} (hc : c.WellFormed) (k : κ) (a : α)
    (size : Nat) :
    LongestFitting c.capacity (c.queueWith k a size) (c.insert k a size).2.entries := by
  have htotal : (c.drop k).total + size = sizeOf (c.queueWith k a size) := by
    rw [total_drop hc, queueWith, sizeOf_append]
    simp [sizeOf]
  have hqueue : (c.drop k).entries ++ [⟨k, a, size⟩] = c.queueWith k a size := by
    rw [entries_drop, queueWith]
  have hlongest := longestFitting_shrink c.capacity htotal (getLast?_queueWith c k a size)
  rw [← hqueue] at hlongest ⊢
  exact hlongest

theorem evicted_of_fits {c : RecencyCache κ α} (hc : c.WellFormed) {k : κ} {a : α} {size : Nat}
    (hfits : sizeOf (c.queueWith k a size) ≤ c.capacity) : (c.insert k a size).1 = [] := by
  obtain ⟨gone, kept, hgone, hentries, hsplit⟩ := insert_split c k a size
  have hlongest : c.queueWith k a size <:+ (c.insert k a size).2.entries := by
    cases longestFitting_insert hc k a size with
    | fits hsuffix hkept hlongest => exact hlongest _ List.suffix_rfl hfits
    | alone hlast hkept hnone =>
        have hlarge := hnone _ List.suffix_rfl (by simp [queueWith])
        omega
  have hlength := hlongest.length_le
  rw [hentries, queueWith, ← hsplit] at hlength
  simp only [List.length_append] at hlength
  have hnone : gone = [] := List.eq_nil_of_length_eq_zero (by omega)
  rw [hgone, hnone, List.map_nil]

/-- An insertion into a cache that was used in any way before, where `c` is that
cache and the queue is what it holds under other keys, the oldest first, and then
the new entry.  What leaves, in the order in which it is reported, and what stays
make up the queue.  The new entry stays, as the last, and what stays is the longest
end of the queue that fits.  An entry that fits with all others drives none out, and
the entry that it replaces is not reported.  In a word of 64 bits the totals are the
same, as long as there is room for the sizes that are in the queue. -/
theorem insert_keeps_longest_fitting_end (capacity : Nat) (uses : List (CacheUse κ α)) (k : κ)
    (a : α) (size : Nat) :
    let c := (empty capacity).useAll uses
    let queue := c.queueWith k a size
    let evicted := (c.insert k a size).1
    let c' := (c.insert k a size).2
    (∃ gone, evicted = gone.map (fun e => (e.key, e.value)) ∧ gone ++ c'.entries = queue) ∧
    c'.entries.getLast? = some ⟨k, a, size⟩ ∧
    LongestFitting capacity queue c'.entries ∧
    (sizeOf queue ≤ capacity → evicted = []) ∧
    (∀ e ∈ evicted, e.1 ≠ k) ∧
    ((empty capacity).AllHaveRoom (uses ++ [.insert k a size]) →
      (empty capacity).useAllChecked (uses ++ [.insert k a size]) = some c') := by
  intro c queue evicted c'
  have hwell : c.WellFormed := wellFormed_useAll (wellFormed_empty capacity) uses
  have hcapacity : c.capacity = capacity := capacity_useAll uses _
  obtain ⟨gone, kept, hgone, hentries, hsplit⟩ := insert_split c k a size
  refine ⟨⟨gone, hgone, ?_⟩, ?_, ?_, ?_, ?_, ?_⟩
  · change gone ++ (c.insert k a size).2.entries = c.queueWith k a size
    rw [hentries, queueWith, ← hsplit, List.append_assoc]
  · change (c.insert k a size).2.entries.getLast? = _
    rw [hentries, List.getLast?_concat]
  · rw [← hcapacity]
    exact longestFitting_insert hwell k a size
  · intro hfits
    exact evicted_of_fits hwell (hcapacity ▸ hfits)
  · rintro ⟨d, b⟩ hmem
    exact (peek?_of_mem_evicted hwell.distinct hmem).1
  · intro hroom
    rw [useAllChecked_eq (wellFormed_empty capacity) hroom, useAll_concat]
    rfl

/-- The oldest leaves with its size of four, the one of no size need not. -/
example : ((empty 10).useAll [.insert 1 "a" 4, .insert 2 "b" 0, .insert 3 "c" 5]).insert 3 "d" 9 =
    ([(1, "a")], ⟨10, 9, [⟨2, "b", 0⟩, ⟨3, "d", 9⟩]⟩) := by decide

end SegmentManager.RecencyCache
