import Mathlib.Data.List.Nodup
import Mathlib.Data.List.Perm.Basic
import SegmentManager.Table

/-!
# Tables with distinct keys

Every operation keeps the keys of a table distinct.  On such tables the list of
entries and the partial function `get?` say the same.
-/

namespace SegmentManager.Table

variable {κ α : Type} [DecidableEq κ]

def Distinct (t : Table κ α) : Prop := t.keys.Nodup

omit [DecidableEq κ] in
theorem distinct_empty : (empty : Table κ α).Distinct := List.nodup_nil

theorem keys_erase (t : Table κ α) (k : κ) : (t.erase k).keys = t.keys.filter (· ≠ k) := by
  unfold keys erase
  rw [List.filter_map]
  rfl

theorem erase_of_absent {t : Table κ α} {k : κ} (habsent : t.get? k = none) : t.erase k = t := by
  have hkey : ∀ e ∈ t.entries, e.1 ≠ k := by
    simpa [get?] using habsent
  unfold erase
  rw [List.filter_eq_self.mpr fun e he => by simpa using hkey e he]

theorem distinct_erase {t : Table κ α} (ht : t.Distinct) (k : κ) : (t.erase k).Distinct :=
  (List.filter_sublist.map Prod.fst).nodup ht

theorem distinct_insert {t : Table κ α} (ht : t.Distinct) (k : κ) (a : α) :
    (t.insert k a).Distinct := by
  unfold Distinct keys insert
  rw [List.map_append, List.nodup_append]
  refine ⟨distinct_erase ht k, by simp, ?_⟩
  intro x hx y hy
  simp only [List.map_cons, List.map_nil, List.mem_singleton] at hy
  subst hy
  obtain ⟨e, he, rfl⟩ := List.mem_map.mp hx
  simpa [erase] using (List.mem_filter.mp he).2

omit [DecidableEq κ] in
theorem size_eq_length_keys (t : Table κ α) : t.size = t.keys.length := by
  simp [size, keys]

theorem size_insert_of_absent {t : Table κ α} {k : κ} (habsent : t.get? k = none) (a : α) :
    (t.insert k a).size = t.size + 1 := by
  unfold insert size
  rw [erase_of_absent habsent]
  simp

theorem size_erase_of_get? {t : Table κ α} (ht : t.Distinct) {k : κ} {a : α}
    (hget : t.get? k = some a) : (t.erase k).size + 1 = t.size := by
  have hmem : k ∈ t.keys := by
    rw [← contains_iff, contains, hget]
    rfl
  have hkeys : (t.erase k).keys = t.keys.erase k := by
    rw [keys_erase, List.Nodup.erase_eq_filter ht]
    refine List.filter_congr fun other _ => ?_
    by_cases hother : other = k <;> simp [hother]
  rw [size_eq_length_keys, size_eq_length_keys, hkeys, List.length_erase_of_mem hmem]
  exact Nat.sub_add_cancel (List.length_pos_of_mem hmem)

theorem mem_entries_of_get? {t : Table κ α} {k : κ} {a : α} (hget : t.get? k = some a) :
    (k, a) ∈ t.entries := by
  obtain ⟨e, he, rfl⟩ := Option.map_eq_some_iff.mp hget
  have hkey : e.1 = k := by simpa using List.find?_some he
  subst hkey
  exact List.mem_of_find?_eq_some he

theorem get?_of_mem_entries {t : Table κ α} (ht : t.Distinct) {k : κ} {a : α}
    (hmem : (k, a) ∈ t.entries) : t.get? k = some a := by
  obtain ⟨b, hb⟩ : ∃ b, t.get? k = some b := by
    have hkey : k ∈ t.keys := List.mem_map.mpr ⟨(k, a), hmem, rfl⟩
    rw [← contains_iff] at hkey
    exact Option.isSome_iff_exists.mp hkey
  have hsame := List.inj_on_of_nodup_map ht hmem (mem_entries_of_get? hb) rfl
  rw [hb, (Prod.mk.inj hsame).2]

theorem mem_values_iff {t : Table κ α} (ht : t.Distinct) {a : α} :
    a ∈ t.values ↔ ∃ k, t.get? k = some a := by
  constructor
  · intro hmem
    obtain ⟨e, he, rfl⟩ := List.mem_map.mp hmem
    exact ⟨e.1, get?_of_mem_entries ht he⟩
  · rintro ⟨k, hk⟩
    exact List.mem_map.mpr ⟨(k, a), mem_entries_of_get? hk, rfl⟩

theorem map_values {t : Table κ α} (ht : t.Distinct) {key : α → κ}
    (hkey : ∀ k a, t.get? k = some a → key a = k) : t.values.map key = t.keys := by
  unfold values keys
  rw [List.map_map]
  apply List.map_congr_left
  intro e he
  exact hkey e.1 e.2 (get?_of_mem_entries ht he)

/-! ## In any order -/

theorem entries_erase_of_split {t : Table κ α} (ht : t.Distinct) {k : κ} {a : α}
    {before later : List (κ × α)} (hsplit : t.entries = before ++ (k, a) :: later) :
    (t.erase k).entries = before ++ later := by
  have hkeys : ((k, a) :: (before ++ later)).map Prod.fst |>.Nodup := by
    have hperm : (before ++ (k, a) :: later).Perm ((k, a) :: (before ++ later)) :=
      List.perm_middle
    rw [← (hperm.map Prod.fst).nodup_iff, ← hsplit]
    exact ht
  have hother : ∀ e ∈ before ++ later, e.1 ≠ k := by
    rintro e he rfl
    exact (List.nodup_cons.mp hkeys).1 (List.mem_map.mpr ⟨e, he, rfl⟩)
  have hfilter := List.filter_eq_self.mpr fun e he => decide_eq_true (hother e he)
  unfold erase
  rw [hsplit, List.filter_append, List.filter_cons_of_neg (by simp), ← List.filter_append, hfilter]

theorem visited_perm {t : Table κ α} (ht : t.Distinct) (order : List κ) :
    (t.visited order).Perm t.values := by
  induction order generalizing t with
  | nil => exact .rfl
  | cons k later ih =>
      have hrest := (ih (distinct_erase ht k)).append_left (t.get? k).toList
      refine hrest.trans ?_
      cases hget : t.get? k with
      | none =>
          rw [erase_of_absent hget]
          exact .rfl
      | some a =>
          obtain ⟨before, later, hsplit⟩ := List.append_of_mem (mem_entries_of_get? hget)
          unfold values
          rw [entries_erase_of_split ht hsplit, hsplit, List.map_append, List.map_append,
            List.map_cons, Option.toList_some, List.singleton_append]
          exact List.perm_middle.symm

theorem visited_of_perm {t : Table κ α} (ht : t.Distinct) {entries : List (κ × α)}
    (hperm : entries.Perm t.entries) :
    t.visited (entries.map (·.1)) = entries.map (·.2) := by
  induction entries generalizing t with
  | nil =>
      have hnone : t.entries = [] := List.nil_perm.mp hperm
      simp [visited, values, hnone]
  | cons e rest ih =>
      obtain ⟨k, a⟩ := e
      have hmem := hperm.subset List.mem_cons_self
      obtain ⟨before, later, hsplit⟩ := List.append_of_mem hmem
      have hrest : rest.Perm (t.erase k).entries := by
        rw [entries_erase_of_split ht hsplit]
        rw [hsplit] at hperm
        exact (hperm.trans List.perm_middle).cons_inv
      rw [List.map_cons, List.map_cons, visited, get?_of_mem_entries ht hmem,
        ih (distinct_erase ht k) hrest]
      rfl

/-- What can be visited are the values in any order at all. -/
theorem exists_visited_eq_iff {t : Table κ α} (ht : t.Distinct) {visits : List α} :
    (∃ order, t.visited order = visits) ↔ visits.Perm t.values := by
  constructor
  · rintro ⟨order, rfl⟩
    exact visited_perm ht order
  · intro hperm
    have hlift : Relation.Comp (· = List.map Prod.snd ·) List.Perm visits t.entries := by
      rw [List.eq_map_comp_perm]
      exact hperm
    obtain ⟨entries, rfl, hentries⟩ := hlift
    exact ⟨entries.map (·.1), visited_of_perm ht hentries⟩

end SegmentManager.Table
