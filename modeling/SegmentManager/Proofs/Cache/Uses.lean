import Mathlib.Data.List.Find
import Mathlib.Data.List.Induction
import SegmentManager.Proofs.Cache.Recency

/-!
# What the uses of a recency cache leave behind

A cache starts empty and is used, one use after another.  What it holds at the
end is told by the uses alone: each key with what it was given last, in the
order in which the keys were last touched.  The running total is kept in a word
of 64 bits, and no subtraction from it ever goes below zero.
-/

namespace SegmentManager

inductive CacheUse (κ α : Type)
  | insert (k : κ) (a : α) (size : Nat)
  | get (k : κ)
  | peek (k : κ)
  | contains (k : κ)
  | remove (k : κ)
  | clear
deriving DecidableEq, Repr

def CacheUse.gives? {κ α : Type} [DecidableEq κ] (k : κ) : CacheUse κ α → Option (α × Nat)
  | insert j a size => if j = k then some (a, size) else none
  | _ => none

namespace RecencyCache

variable {κ α : Type} [DecidableEq κ]

def use (c : RecencyCache κ α) : CacheUse κ α → RecencyCache κ α
  | .insert k a size => (c.insert k a size).2
  | .get k => (c.touch k).2
  | .peek _ => c
  | .contains _ => c
  | .remove k => (c.remove k).2
  | .clear => c.clear

def useAll (uses : List (CacheUse κ α)) (c : RecencyCache κ α) : RecencyCache κ α :=
  uses.foldl use c

@[simp] theorem useAll_concat (uses : List (CacheUse κ α)) (u : CacheUse κ α)
    (c : RecencyCache κ α) : c.useAll (uses ++ [u]) = (c.useAll uses).use u := by
  simp [useAll]

theorem wellFormed_use {c : RecencyCache κ α} (hc : c.WellFormed) (u : CacheUse κ α) :
    (c.use u).WellFormed := by
  cases u with
  | insert k a size => exact wellFormed_insert hc k a size
  | get k => exact wellFormed_touch hc k
  | peek k => exact hc
  | contains k => exact hc
  | remove k => exact wellFormed_drop hc k
  | clear => exact wellFormed_clear c

theorem wellFormed_useAll {c : RecencyCache κ α} (hc : c.WellFormed)
    (uses : List (CacheUse κ α)) : (c.useAll uses).WellFormed := by
  induction uses using List.reverseRecOn with
  | nil => exact hc
  | append_singleton uses u ih =>
      rw [useAll_concat]
      exact wellFormed_use ih u

theorem capacity_useAll (uses : List (CacheUse κ α)) (c : RecencyCache κ α) :
    (c.useAll uses).capacity = c.capacity := by
  induction uses using List.reverseRecOn with
  | nil => rfl
  | append_singleton uses u ih =>
      rw [useAll_concat, ← ih]
      cases u with
      | insert k a size => rfl
      | get k => exact capacity_touch _ k
      | peek k => rfl
      | contains k => rfl
      | remove k => exact capacity_drop _ k
      | clear => rfl

/-! ## What a key was given last -/

def lastGiven? (uses : List (CacheUse κ α)) (k : κ) : Option (α × Nat) :=
  uses.reverse.findSome? (·.gives? k)

theorem lastGiven?_concat (uses : List (CacheUse κ α)) (u : CacheUse κ α) (k : κ) :
    lastGiven? (uses ++ [u]) k = (u.gives? k).or (lastGiven? uses k) := by
  unfold lastGiven?
  rw [List.reverse_append, List.reverse_singleton, List.singleton_append, List.findSome?_cons]
  cases u.gives? k <;> rfl

theorem mem_entries_use {c : RecencyCache κ α} {u : CacheUse κ α} {e : RecencyEntry κ α}
    (hmem : e ∈ (c.use u).entries) :
    u.gives? e.key = some (e.value, e.size) ∨ u.gives? e.key = none ∧ e ∈ c.entries := by
  cases u with
  | insert k a size =>
      rcases mem_entries_insert hmem with rfl | ⟨hold, hkey⟩
      · exact .inl (if_pos rfl)
      · exact .inr ⟨if_neg (Ne.symm hkey), hold⟩
  | get k => exact .inr ⟨rfl, mem_entries_touch hmem⟩
  | peek k => exact .inr ⟨rfl, hmem⟩
  | contains k => exact .inr ⟨rfl, hmem⟩
  | remove k =>
      refine .inr ⟨rfl, ?_⟩
      change e ∈ (c.drop k).entries at hmem
      rw [entries_drop] at hmem
      exact (mem_without.mp hmem).1
  | clear => cases hmem

theorem lastGiven?_of_mem_entries {capacity : Nat} {uses : List (CacheUse κ α)}
    {e : RecencyEntry κ α} (hmem : e ∈ ((empty capacity).useAll uses).entries) :
    lastGiven? uses e.key = some (e.value, e.size) := by
  induction uses using List.reverseRecOn with
  | nil => cases hmem
  | append_singleton uses u ih =>
      rw [useAll_concat] at hmem
      rw [lastGiven?_concat]
      rcases mem_entries_use hmem with hnew | ⟨hnone, hold⟩
      · rw [hnew, Option.some_or]
      · rw [hnone, Option.none_or, ih hold]

/-! ## When a key was touched last -/

/-- An insertion touches its key, and so does a `get` that finds it. -/
def touches (c : RecencyCache κ α) (k : κ) : CacheUse κ α → Bool
  | .insert j _ _ => j = k
  | .get j => j = k && c.contains k
  | _ => false

def lastTouch? (c : RecencyCache κ α) (uses : List (CacheUse κ α)) (k : κ) : Option Nat :=
  (List.range uses.length).reverse.find? fun n =>
    uses[n]?.any ((c.useAll (uses.take n)).touches k)

theorem lastTouch?_concat (c : RecencyCache κ α) (uses : List (CacheUse κ α))
    (u : CacheUse κ α) (k : κ) :
    c.lastTouch? (uses ++ [u]) k =
      if (c.useAll uses).touches k u then some uses.length else c.lastTouch? uses k := by
  have hearlier : ∀ n ∈ (List.range uses.length).reverse,
      (uses ++ [u])[n]?.any ((c.useAll ((uses ++ [u]).take n)).touches k) =
        uses[n]?.any ((c.useAll (uses.take n)).touches k) := by
    intro n hn
    have hlt : n < uses.length := by simpa using hn
    rw [List.getElem?_append_left hlt, List.take_append_of_le_length (Nat.le_of_lt hlt)]
  have hlatest : (uses ++ [u])[uses.length]?.any
      ((c.useAll ((uses ++ [u]).take uses.length)).touches k) =
        (c.useAll uses).touches k u := by simp
  unfold lastTouch?
  rw [List.length_append, List.length_singleton, List.range_succ, List.reverse_append,
    List.reverse_singleton, List.singleton_append, List.find?_cons, hlatest,
    List.find?_congr hearlier]
  cases (c.useAll uses).touches k u <;> rfl

theorem lastTouch?_lt {c : RecencyCache κ α} {uses : List (CacheUse κ α)} {k : κ} {n : Nat}
    (hn : c.lastTouch? uses k = some n) : n < uses.length := by
  simpa using List.mem_of_find?_eq_some hn

theorem keys_use (c : RecencyCache κ α) (u : CacheUse κ α) :
    (∃ k kept, (c.use u).keys = kept ++ [k] ∧ kept.Sublist (c.keys.filter (· ≠ k)) ∧
      ∀ j, c.touches j u = true ↔ j = k) ∨
    (c.use u).keys.Sublist c.keys ∧ ∀ j, c.touches j u = false := by
  cases u with
  | insert k a size =>
      obtain ⟨gone, kept, -, hentries, happend⟩ := insert_split c k a size
      refine .inl ⟨k, kept.map (·.key), ?_, ?_, fun j => ?_⟩
      · change ((c.insert k a size).2.entries).map (·.key) = _
        rw [hentries, List.map_append]
        rfl
      · rw [← keys_drop]
        unfold keys
        rw [entries_drop, ← happend]
        exact (List.sublist_append_right gone kept).map _
      · simp [touches, eq_comm]
  | get k =>
      cases hfind : c.find? k with
      | none =>
          have hsame : c.use (.get k) = c := by simp [use, touch, hfind]
          refine .inr ⟨by rw [hsame], fun j => ?_⟩
          by_cases hj : k = j
          · subst hj
            simp [touches, contains, hfind]
          · simp [touches, hj]
      | some e =>
          have hkey : e.key = k := by simpa using List.find?_some hfind
          refine .inl ⟨k, c.keys.filter (· ≠ k), ?_, List.Sublist.refl _, fun j => ?_⟩
          · have hmoved : (c.use (.get k)).keys = (without c.entries k ++ [e]).map (·.key) := by
              simp [use, touch, hfind, keys]
            rw [hmoved, ← keys_drop, List.map_append, List.map_singleton, hkey, keys, entries_drop]
          · by_cases hj : k = j
            · subst hj
              simp [touches, contains, hfind]
            · simp [touches, hj, Ne.symm hj]
  | peek k => exact .inr ⟨List.Sublist.refl _, fun j => rfl⟩
  | contains k => exact .inr ⟨List.Sublist.refl _, fun j => rfl⟩
  | remove k =>
      refine .inr ⟨?_, fun j => rfl⟩
      change (c.drop k).keys.Sublist c.keys
      rw [keys_drop]
      exact List.filter_sublist
  | clear => exact .inr ⟨List.nil_sublist _, fun j => rfl⟩

/-- Every key was touched, and later than those listed before it. -/
def InOrderOfTouch (start : RecencyCache κ α) (uses : List (CacheUse κ α)) (keys : List κ) :
    Prop :=
  ∃ time : κ → Nat, (∀ k ∈ keys, start.lastTouch? uses k = some (time k)) ∧
    (keys.map time).Pairwise (· < ·)

theorem inOrderOfTouch_concat {start : RecencyCache κ α} {uses : List (CacheUse κ α)}
    (h : InOrderOfTouch start uses (start.useAll uses).keys) (u : CacheUse κ α) :
    InOrderOfTouch start (uses ++ [u]) ((start.useAll uses).use u).keys := by
  obtain ⟨time, htime, hpairwise⟩ := h
  rcases keys_use (start.useAll uses) u with ⟨k, kept, hkeys, hkept, htouches⟩ | ⟨hsub, hnone⟩
  · have hold : ∀ j ∈ kept, j ≠ k ∧ j ∈ (start.useAll uses).keys := by
      intro j hj
      have hfilter := hkept.subset hj
      simp only [ne_eq, decide_not, List.mem_filter, Bool.not_eq_true',
        decide_eq_false_iff_not] at hfilter
      exact ⟨hfilter.2, hfilter.1⟩
    obtain ⟨later, hlatest, hlater⟩ :
        ∃ later : κ → Nat, later k = uses.length ∧ ∀ j, j ≠ k → later j = time j :=
      ⟨fun j => if j = k then uses.length else time j, if_pos rfl, fun j hj => if_neg hj⟩
    have hsame : kept.map later = kept.map time :=
      List.map_congr_left fun j hj => hlater j (hold j hj).1
    refine ⟨later, ?_, ?_⟩
    · rw [hkeys]
      intro j hj
      rw [lastTouch?_concat]
      by_cases hjk : j = k
      · rw [if_pos ((htouches j).mpr hjk), hjk, hlatest]
      · have hmem : j ∈ kept := by simpa [hjk] using hj
        rw [if_neg (fun ht => hjk ((htouches j).mp ht)), hlater j hjk]
        exact htime j (hold j hmem).2
    · rw [hkeys, List.map_append, hsame, List.map_singleton, hlatest, List.pairwise_append]
      refine ⟨?_, List.pairwise_singleton _ _, ?_⟩
      · exact hpairwise.sublist ((hkept.trans List.filter_sublist).map time)
      · intro n hn latest hlast
        obtain ⟨j, hj, rfl⟩ := List.mem_map.mp hn
        rw [List.mem_singleton.mp hlast]
        exact lastTouch?_lt (htime j (hold j hj).2)
  · refine ⟨time, ?_, hpairwise.sublist (hsub.map time)⟩
    intro j hj
    rw [lastTouch?_concat, if_neg (by simp [hnone])]
    exact htime j (hsub.subset hj)

theorem inOrderOfTouch_useAll (capacity : Nat) (uses : List (CacheUse κ α)) :
    InOrderOfTouch (empty capacity) uses ((empty capacity).useAll uses).keys := by
  induction uses using List.reverseRecOn with
  | nil => exact ⟨fun _ => 0, by simp [useAll, keys, empty]⟩
  | append_singleton uses u ih =>
      rw [useAll_concat]
      exact inOrderOfTouch_concat ih u

/-! ## The total in a word of 64 bits

The same operations, with a total that has no room above 64 bits and none below
zero.  They fail where a sum or a difference does not fit. -/

def plus? (total size : Nat) : Option Nat :=
  if total + size < 2 ^ 64 then some (total + size) else none

def minus? (total size : Nat) : Option Nat :=
  if size ≤ total then some (total - size) else none

def dropChecked (c : RecencyCache κ α) (k : κ) : Option (RecencyCache κ α) :=
  match c.find? k with
  | none => some c
  | some e =>
      (minus? c.total e.size).map fun total => { c with total, entries := without c.entries k }

def shrinkChecked (capacity : Nat) : Nat → List (RecencyEntry κ α) →
    Option (List (RecencyEntry κ α) × Nat × List (RecencyEntry κ α))
  | total, oldest :: next :: rest =>
      if total > capacity then do
        let total ← minus? total oldest.size
        let (evicted, left, kept) ← shrinkChecked capacity total (next :: rest)
        return (oldest :: evicted, left, kept)
      else some ([], total, oldest :: next :: rest)
  | total, entries => some ([], total, entries)

def insertChecked (c : RecencyCache κ α) (k : κ) (a : α) (size : Nat) :
    Option (RecencyCache κ α) := do
  let rest ← c.dropChecked k
  let total ← plus? rest.total size
  let (_, total, kept) ← shrinkChecked c.capacity total (rest.entries ++ [⟨k, a, size⟩])
  return { c with total, entries := kept }

def useChecked (c : RecencyCache κ α) : CacheUse κ α → Option (RecencyCache κ α)
  | .insert k a size => c.insertChecked k a size
  | .remove k => c.dropChecked k
  | u => some (c.use u)

def useAllChecked (uses : List (CacheUse κ α)) (c : RecencyCache κ α) :
    Option (RecencyCache κ α) :=
  uses.foldlM useChecked c

theorem dropChecked_eq {c : RecencyCache κ α} (hc : c.WellFormed) (k : κ) :
    c.dropChecked k = some (c.drop k) := by
  unfold dropChecked drop
  cases hfind : c.find? k with
  | none => rfl
  | some e =>
      obtain ⟨hmem, rfl⟩ := (find?_eq_some_iff hc.distinct).mp hfind
      have hsum := sizeOf_without hc.distinct hmem
      have htotal := hc.total_eq
      have hle : e.size ≤ c.total := by omega
      simp only [minus?, if_pos hle, Option.map_some]

omit [DecidableEq κ] in
theorem shrinkChecked_eq {capacity total : Nat} {entries : List (RecencyEntry κ α)}
    (htotal : total = sizeOf entries) :
    shrinkChecked capacity total entries = some (shrink capacity total entries) := by
  fun_induction shrink capacity total entries with
  | case1 total oldest next rest hlarge evicted left kept hsplit ih =>
      simp only [sizeOf, List.map_cons, List.sum_cons] at htotal
      have hle : oldest.size ≤ total := by omega
      have hrest := ih (by simp only [sizeOf, List.map_cons, List.sum_cons]; omega)
      rw [hsplit] at hrest
      simp [shrinkChecked, if_pos hlarge, minus?, if_pos hle, hrest]
  | case2 total oldest next rest hsmall => simp [shrinkChecked, if_neg hsmall]
  | case3 total entries hshort =>
      unfold shrinkChecked
      split
      · rename_i oldest next rest
        exact (hshort oldest next rest rfl).elim
      · rfl

theorem insertChecked_eq {c : RecencyCache κ α} (hc : c.WellFormed) {k : κ} {a : α} {size : Nat}
    (hroom : sizeOf (c.queueWith k a size) < 2 ^ 64) :
    c.insertChecked k a size = some (c.insert k a size).2 := by
  have hqueue : (c.drop k).total + size = sizeOf (c.queueWith k a size) := by
    rw [total_drop hc]
    simp [sizeOf, queueWith]
  have hplus : plus? (c.drop k).total size = some ((c.drop k).total + size) :=
    if_pos (by rw [hqueue]; exact hroom)
  have hentries : (c.drop k).entries ++ [⟨k, a, size⟩] = c.queueWith k a size := by
    rw [entries_drop]
    rfl
  have hshrink : shrinkChecked c.capacity ((c.drop k).total + size) (c.queueWith k a size) = _ :=
    shrinkChecked_eq hqueue
  simp [insertChecked, dropChecked_eq hc, hplus, hentries, hshrink, insert]

/-- An insertion finds room in the word for all sizes, those included that it is
about to evict. -/
def HasRoom (c : RecencyCache κ α) : CacheUse κ α → Prop
  | .insert k a size => sizeOf (c.queueWith k a size) < 2 ^ 64
  | _ => True

instance decidableHasRoom (c : RecencyCache κ α) : (u : CacheUse κ α) → Decidable (c.HasRoom u)
  | .insert .. => inferInstanceAs (Decidable (_ < _))
  | .get _ | .peek _ | .contains _ | .remove _ | .clear => .isTrue trivial

def AllHaveRoom : List (CacheUse κ α) → RecencyCache κ α → Prop
  | [], _ => True
  | u :: rest, c => c.HasRoom u ∧ AllHaveRoom rest (c.use u)

instance decidableAllHaveRoom : (uses : List (CacheUse κ α)) → (c : RecencyCache κ α) →
    Decidable (AllHaveRoom uses c)
  | [], _ => .isTrue trivial
  | u :: rest, c =>
      have := decidableAllHaveRoom rest (c.use u)
      inferInstanceAs (Decidable (_ ∧ _))

theorem useChecked_eq {c : RecencyCache κ α} (hc : c.WellFormed) {u : CacheUse κ α}
    (hroom : c.HasRoom u) : c.useChecked u = some (c.use u) := by
  cases u with
  | insert k a size => exact insertChecked_eq hc hroom
  | remove k => exact dropChecked_eq hc k
  | get k => rfl
  | peek k => rfl
  | contains k => rfl
  | clear => rfl

theorem useAllChecked_eq {c : RecencyCache κ α} (hc : c.WellFormed)
    {uses : List (CacheUse κ α)} (hroom : c.AllHaveRoom uses) :
    c.useAllChecked uses = some (c.useAll uses) := by
  induction uses generalizing c with
  | nil => rfl
  | cons u rest ih =>
      have hrest := ih (wellFormed_use hc u) hroom.2
      unfold useAllChecked at hrest ⊢
      rw [List.foldlM_cons, useChecked_eq hc hroom.1]
      exact hrest

/-! ## What is left behind -/

/-- After any uses of a cache that was empty at first: its keys are distinct and
stand in the order of their last touches, its total is the sum of the sizes that
they were given last, and it is within the capacity or all of it is one entry.
The arithmetic of the total never left the word. -/
theorem uses_tell_sizes_and_order (capacity : Nat) (uses : List (CacheUse κ α))
    (hroom : (empty capacity).AllHaveRoom uses) :
    let c := (empty capacity).useAll uses
    c.keys.Nodup ∧
    (∃ size : κ → Nat, c.total = (c.keys.map size).sum ∧
      ∀ k ∈ c.keys, ∃ a, c.peek? k = some a ∧ lastGiven? uses k = some (a, size k)) ∧
    (empty capacity).useAllChecked uses = some c ∧
    (c.total ≤ capacity ∨ c.count = 1) ∧
    (∀ k, k ∈ c.keys ↔ c.contains k = true) ∧
    InOrderOfTouch (empty capacity) uses c.keys := by
  have hwell := wellFormed_useAll (wellFormed_empty (κ := κ) (α := α) capacity) uses
  have hgiven : ∀ e ∈ ((empty capacity).useAll uses).entries,
      lastGiven? uses e.key = some (e.value, e.size) :=
    fun e he => lastGiven?_of_mem_entries he
  refine ⟨hwell.distinct, ?_, useAllChecked_eq (wellFormed_empty capacity) hroom, ?_, ?_,
    inOrderOfTouch_useAll capacity uses⟩
  · refine ⟨fun k => ((lastGiven? uses k).map Prod.snd).getD 0, ?_, ?_⟩
    · rw [hwell.total_eq, sizeOf, keys, List.map_map]
      congr 1
      refine List.map_congr_left fun e he => ?_
      simp [hgiven e he]
    · intro k hk
      obtain ⟨e, he, rfl⟩ := List.mem_map.mp hk
      refine ⟨e.value, (peek?_eq_some_iff hwell.distinct).mpr ⟨e, he, rfl, rfl⟩, ?_⟩
      simp [hgiven e he]
  · have hfits := hwell.fits
    rw [capacity_useAll] at hfits
    exact hfits
  · intro k
    have habsent := peek?_eq_none_iff ((empty capacity).useAll uses) k
    unfold peek? at habsent
    rw [Option.map_eq_none_iff] at habsent
    rw [contains, Option.isSome_iff_ne_none, ne_eq, habsent, not_not]

/-- An entry that grows, one of no size, one too large for the cache, and a
removal between them. -/
def busyUses : List (CacheUse Nat String) :=
  [.insert 1 "a" 4, .insert 2 "b" 0, .get 1, .peek 2, .insert 3 "c" 5, .insert 2 "d" 1,
   .remove 3, .get 7, .insert 4 "e" 12, .insert 1 "f" 3, .contains 4, .insert 5 "g" 7, .get 1]

theorem busy_keys_in_order_of_touch :
    (empty 10).AllHaveRoom busyUses ∧ ((empty 10).useAll busyUses).keys = [5, 1] ∧
      InOrderOfTouch (empty 10) busyUses [5, 1] ∧
      (empty 10).useAllChecked busyUses = some ((empty 10).useAll busyUses) := by
  have hroom : (empty 10).AllHaveRoom busyUses := by decide +kernel
  have hkeys : ((empty 10).useAll busyUses).keys = [5, 1] := by decide +kernel
  obtain ⟨-, -, hchecked, -, -, horder⟩ := uses_tell_sizes_and_order 10 busyUses hroom
  rw [hkeys] at horder
  exact ⟨hroom, hkeys, horder, hchecked⟩

end RecencyCache

end SegmentManager
