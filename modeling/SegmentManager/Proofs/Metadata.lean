import Mathlib.Data.List.Nodup
import SegmentManager.Manager
import SegmentManager.Simulation.Keepers

/-!
# Settings that are passed on

What a key is found under tells a map, so two maps are compared key by key.  The
settings of a vector index are those entries of a collection's map that have a key
for it.  A persistent index has the same entries, and a default under each of two
keys where the collection gives nothing.
-/

namespace SegmentManager

open Simulation

namespace Metadata

variable {m n : Metadata} {key : String} {value : Value}

/-! ## Maps told by their keys -/

theorem nodup_keys (m : Metadata) : (m.entries.map (·.1)).Nodup := by
  rw [List.Nodup, List.pairwise_map]
  refine m.sorted.imp ?_
  intro a b hlt heq
  exact String.lt_irrefl a.1 (heq ▸ hlt)

theorem mem_entries_iff : (key, value) ∈ m.entries ↔ m.get? key = some value := by
  unfold get?
  rw [Option.map_eq_some_iff]
  constructor
  · intro hmem
    cases hfind : m.entries.find? (·.1 == key) with
    | none =>
        have hall := List.find?_eq_none.mp hfind (key, value) hmem
        simp at hall
    | some e =>
        have hkey : e.1 = key := by simpa using List.find?_some hfind
        have he := List.inj_on_of_nodup_map m.nodup_keys (List.mem_of_find?_eq_some hfind) hmem hkey
        exact ⟨e, rfl, he ▸ rfl⟩
  · rintro ⟨e, hfind, rfl⟩
    have hkey : e.1 = key := by simpa using List.find?_some hfind
    exact hkey ▸ List.mem_of_find?_eq_some hfind

theorem ext_get? (h : ∀ key, m.get? key = n.get? key) : m = n := by
  apply ext
  have hmem : ∀ e, e ∈ m.entries ↔ e ∈ n.entries := by
    rintro ⟨key, value⟩
    rw [mem_entries_iff, mem_entries_iff, h]
  refine List.Perm.eq_of_pairwise ?_ m.sorted n.sorted
    ((List.perm_ext_iff_of_nodup m.nodup_keys.of_map n.nodup_keys.of_map).mpr hmem)
  intro a b _ _ hab hba
  exact (String.lt_irrefl a.1 (String.lt_trans hab hba)).elim

theorem get?_insertDefault (m : Metadata) (key other : String) (value : Value) :
    (m.insertDefault key value).get? other =
      if other = key then (m.get? key).or (some value) else m.get? other := by
  unfold insertDefault contains
  cases hget : m.get? key with
  | none =>
      simp only [Option.isSome_none, Bool.false_eq_true, if_false, Option.none_or]
      exact m.get?_insert key other value
  | some given =>
      simp only [Option.isSome_some, if_true, Option.some_or]
      by_cases heq : other = key
      · rw [if_pos heq, heq, hget]
      · rw [if_neg heq]

/-! ## What is passed on -/

theorem isHnswKey_iff : isHnswKey key = true ↔ ∃ rest, key = hnswPrefix ++ rest := by
  unfold isHnswKey
  rw [List.isPrefixOf_iff_prefix]
  constructor
  · rintro ⟨rest, hrest⟩
    refine ⟨String.ofList rest, String.toList_injective ?_⟩
    rw [← hrest]
    simp
  · rintro ⟨rest, rfl⟩
    exact ⟨rest.toList, by simp⟩

def persistentDefault? (key : String) : Option Value :=
  if key = batchSizeKey then some (.int defaultBatchSize)
  else if key = syncThresholdKey then some (.int defaultSyncThreshold)
  else none

theorem persistentDefault?_eq_some :
    persistentDefault? key = some value ↔
      (key = batchSizeKey ∧ value = .int defaultBatchSize) ∨
      (key = syncThresholdKey ∧ value = .int defaultSyncThreshold) := by
  have hne : syncThresholdKey ≠ batchSizeKey := by decide
  unfold persistentDefault?
  grind

theorem isHnswKey_of_default (h : persistentDefault? key = some value) :
    isHnswKey key = true := by
  rcases persistentDefault?_eq_some.mp h with ⟨rfl, -⟩ | ⟨rfl, -⟩
  · exact isHnswKey_batchSizeKey
  · exact isHnswKey_syncThresholdKey

theorem get?_hnswSettings (m : Metadata) (key : String) :
    m.hnswSettings.get? key = if isHnswKey key then m.get? key else none :=
  m.get?_filterKeys isHnswKey key

theorem get?_persistentHnswSettings (m : Metadata) (key : String) :
    m.persistentHnswSettings.get? key =
      if isHnswKey key then (m.get? key).or (persistentDefault? key) else none := by
  have hne : syncThresholdKey ≠ batchSizeKey := by decide
  unfold persistentHnswSettings persistentDefault?
  rw [get?_insertDefault, get?_insertDefault, get?_insertDefault, get?_hnswSettings,
    get?_hnswSettings, get?_hnswSettings, isHnswKey_batchSizeKey, isHnswKey_syncThresholdKey]
  by_cases hbatch : key = batchSizeKey
  · subst hbatch
    simp [Ne.symm hne, isHnswKey_batchSizeKey]
  · by_cases hsync : key = syncThresholdKey
    · subst hsync
      simp [hne, isHnswKey_syncThresholdKey]
    · simp [hbatch, hsync]

/-! ## Passing on again -/

section Again

variable (h : ∀ key, isHnswKey key = true → m.get? key = n.get? key)
include h

theorem hnswSettings_congr : m.hnswSettings = n.hnswSettings := by
  apply ext_get?
  intro key
  rw [get?_hnswSettings, get?_hnswSettings]
  by_cases hkey : isHnswKey key = true
  · rw [if_pos hkey, if_pos hkey, h key hkey]
  · rw [if_neg hkey, if_neg hkey]

theorem persistentHnswSettings_congr : m.persistentHnswSettings = n.persistentHnswSettings := by
  unfold persistentHnswSettings
  rw [hnswSettings_congr h]

end Again

theorem hnswSettings_hnswSettings (m : Metadata) :
    m.hnswSettings.hnswSettings = m.hnswSettings := by
  apply hnswSettings_congr
  intro key hkey
  rw [get?_hnswSettings, if_pos hkey]

theorem persistentHnswSettings_hnswSettings (m : Metadata) :
    m.hnswSettings.persistentHnswSettings = m.persistentHnswSettings := by
  unfold persistentHnswSettings
  rw [hnswSettings_hnswSettings]

/-- Defaults are settings themselves, so they pass like given ones. -/
theorem hnswSettings_persistentHnswSettings (m : Metadata) :
    m.persistentHnswSettings.hnswSettings = m.persistentHnswSettings := by
  apply ext_get?
  intro key
  rw [get?_hnswSettings, get?_persistentHnswSettings]
  split <;> rfl

theorem persistentHnswSettings_persistentHnswSettings (m : Metadata) :
    m.persistentHnswSettings.persistentHnswSettings = m.persistentHnswSettings := by
  apply ext_get?
  intro key
  rw [get?_persistentHnswSettings, get?_persistentHnswSettings]
  split
  · cases m.get? key <;> simp
  · rfl

theorem hnswSettings_insertDefault (m : Metadata) :
    ((m.insertDefault batchSizeKey (.int defaultBatchSize)).insertDefault syncThresholdKey
      (.int defaultSyncThreshold)).hnswSettings = m.persistentHnswSettings := by
  rw [← hnswSettings_persistentHnswSettings]
  apply hnswSettings_congr
  intro key hkey
  unfold persistentHnswSettings
  simp only [get?_insertDefault, get?_hnswSettings, hkey, isHnswKey_batchSizeKey,
    isHnswKey_syncThresholdKey, if_true]

theorem mem_hnswSettings :
    (key, value) ∈ m.hnswSettings.entries ↔
      (key, value) ∈ m.entries ∧ ∃ rest, key = hnswPrefix ++ rest := by
  rw [mem_entries_iff, mem_entries_iff, get?_hnswSettings, ← isHnswKey_iff]
  split <;> simp_all

theorem mem_persistentHnswSettings :
    (key, value) ∈ m.persistentHnswSettings.entries ↔
      (key, value) ∈ m.hnswSettings.entries ∨
      (m.get? key = none ∧
        ((key = batchSizeKey ∧ value = .int defaultBatchSize) ∨
        (key = syncThresholdKey ∧ value = .int defaultSyncThreshold))) := by
  rw [mem_entries_iff, mem_entries_iff, get?_persistentHnswSettings, get?_hnswSettings,
    ← persistentDefault?_eq_some]
  cases hget : m.get? key with
  | none =>
      have hdefault : persistentDefault? key = some value → isHnswKey key = true :=
        isHnswKey_of_default
      by_cases hkey : isHnswKey key = true <;> simp_all
  | some given => by_cases hkey : isHnswKey key = true <;> simp [hkey]

def PassesOn (f : Metadata → Metadata) : Prop := f = hnswSettings ∨ f = persistentHnswSettings

theorem PassesOn.again {f : Metadata → Metadata} (hf : PassesOn f) (m : Metadata) :
    f (f m) = f m := by
  rcases hf with rfl | rfl
  · exact hnswSettings_hnswSettings m
  · exact persistentHnswSettings_persistentHnswSettings m

end Metadata

namespace Registry

def PassesSettings (g : Registry) : Prop :=
  ∀ kind d f, g.get? kind = some d → d.propagate = some f → Metadata.PassesOn f

theorem propagate_propagate {g : Registry} (hg : g.PassesSettings) (kind : Kind)
    (metadata : Option Metadata) :
    g.propagate kind (g.propagate kind metadata) = g.propagate kind metadata := by
  unfold propagate
  cases hd : g.get? kind with
  | none => rfl
  | some d =>
      cases hf : d.propagate with
      | none => simp [hf]
      | some f => simp [hf, (hg kind d f hd hf).again]

end Registry

theorem Manager.mem_prepare_again {m : Manager} (hm : m.kinds.PassesSettings) {c : Collection}
    {fresh : Scope → SegmentId} {r : Record} (hr : r ∈ m.prepare c fresh) :
    r ∈ m.prepare { c with metadata := r.metadata } fresh := by
  obtain ⟨⟨kind, scope⟩, hlayout, rfl⟩ := List.mem_map.mp hr
  refine List.mem_map.mpr ⟨(kind, scope), hlayout, ?_⟩
  simp only [Registry.propagate_propagate hm]

namespace Metadata

/-- What is passed on of a map, for every map.

* Of a vector index's settings, exactly the entries whose keys start with `hnsw:`; for a
  persistent index also a default under each of two keys that the map lacks.
* Passing on again changes nothing, whichever of the two comes first, and the defaults
  may be filled in before the other keys are left out.
* Maps with the same entries under keys with `hnsw:` give the same settings.
* If all kinds of a registry pass on settings, the metadata of a segment gives
  that segment the same metadata again. -/
theorem settings_pass_once_and_for_all :
    (∀ (m : Metadata) (key : String) (value : Value),
      ((key, value) ∈ m.hnswSettings.entries ↔
        (key, value) ∈ m.entries ∧ ∃ rest, key = hnswPrefix ++ rest) ∧
      ((key, value) ∈ m.persistentHnswSettings.entries ↔
        (key, value) ∈ m.hnswSettings.entries ∨
        (m.get? key = none ∧
          ((key = batchSizeKey ∧ value = .int defaultBatchSize) ∨
          (key = syncThresholdKey ∧ value = .int defaultSyncThreshold))))) ∧
    (∀ m : Metadata,
      m.hnswSettings.hnswSettings = m.hnswSettings ∧
      m.persistentHnswSettings.persistentHnswSettings = m.persistentHnswSettings ∧
      m.hnswSettings.persistentHnswSettings = m.persistentHnswSettings ∧
      m.persistentHnswSettings.hnswSettings = m.persistentHnswSettings ∧
      ((m.insertDefault batchSizeKey (.int defaultBatchSize)).insertDefault syncThresholdKey
        (.int defaultSyncThreshold)).hnswSettings = m.persistentHnswSettings) ∧
    (∀ m n : Metadata, (∀ rest, m.get? (hnswPrefix ++ rest) = n.get? (hnswPrefix ++ rest)) →
      m.hnswSettings = n.hnswSettings ∧ m.persistentHnswSettings = n.persistentHnswSettings) ∧
    (∀ g : Registry, g.PassesSettings → ∀ kind metadata,
      g.propagate kind (g.propagate kind metadata) = g.propagate kind metadata) ∧
    ∀ m : Manager, m.kinds.PassesSettings → ∀ (c : Collection) (fresh : Scope → SegmentId),
      ∀ r ∈ m.prepare c fresh, r ∈ m.prepare { c with metadata := r.metadata } fresh := by
  refine ⟨fun m key value => ⟨mem_hnswSettings, mem_persistentHnswSettings⟩, fun m => ?_,
    fun m n hsame => ?_, fun g hg => g.propagate_propagate hg,
    fun m hm c fresh r hr => m.mem_prepare_again hm hr⟩
  · exact ⟨m.hnswSettings_hnswSettings, m.persistentHnswSettings_persistentHnswSettings,
      m.persistentHnswSettings_hnswSettings, m.hnswSettings_persistentHnswSettings,
      m.hnswSettings_insertDefault⟩
  · have hkeys : ∀ key, isHnswKey key = true → m.get? key = n.get? key := by
      intro key hkey
      obtain ⟨rest, rfl⟩ := isHnswKey_iff.mp hkey
      exact hsame rest
    exact ⟨hnswSettings_congr hkeys, persistentHnswSettings_congr hkeys⟩

def tuned : Metadata := .ofList
  [("hnsw", .bool true), ("hnsw:batch_size", .text "7"), ("hnsw:space", .text "ip"),
    ("owner", .text "hnsw:")]

def tunedSettings : Metadata := .ofList
  [("hnsw:batch_size", .text "7"), ("hnsw:space", .text "ip"), ("hnsw:sync_threshold", .int 1000)]

theorem passesSettings_keeperRegistry : keeperRegistry.PassesSettings := by
  intro kind d f hd hf
  obtain ⟨e, he, rfl⟩ := Option.map_eq_some_iff.mp hd
  have hmem := List.mem_of_find?_eq_some he
  simp only [keeperRegistry, List.mem_cons, List.not_mem_nil, or_false] at hmem
  rcases hmem with rfl | rfl | rfl | rfl | rfl | rfl <;> simp at hf <;> subst hf
  · exact .inl rfl
  · exact .inr rfl
  · exact .inl rfl

theorem tuned_settings_stay :
    ("hnsw:sync_threshold", .int 1000) ∈ tuned.persistentHnswSettings.entries ∧
    ("hnsw:batch_size", .int 100) ∉ tuned.persistentHnswSettings.entries ∧
    (tuned.insert "owner" (.bool false)).persistentHnswSettings = tuned.persistentHnswSettings ∧
    keeperRegistry.PassesSettings ∧
    keeperRegistry.propagate .hnswPersisted (some tuned) = some tunedSettings ∧
    keeperRegistry.propagate .hnswPersisted (some tunedSettings) = some tunedSettings := by
  obtain ⟨hentries, -, hsame, hagain, -⟩ := settings_pass_once_and_for_all
  have howner : ∀ rest, (tuned.insert "owner" (.bool false)).get? (hnswPrefix ++ rest) =
      tuned.get? (hnswPrefix ++ rest) := by
    intro rest
    rw [get?_insert, if_neg]
    intro heq
    have hfirst := congrArg (·.toList.head?) heq
    simp [hnswPrefix] at hfirst
  have hgiven : keeperRegistry.propagate .hnswPersisted (some tuned) = some tunedSettings := by
    decide +kernel
  have hregistry := passesSettings_keeperRegistry
  refine ⟨?_, ?_, (hsame _ _ howner).2, hregistry, hgiven, ?_⟩
  · exact ((hentries tuned _ _).2).mpr (.inr ⟨by decide +kernel, .inr ⟨rfl, rfl⟩⟩)
  · decide +kernel
  · rw [← hgiven]
    exact hagain keeperRegistry hregistry .hnswPersisted (some tuned)

end Metadata

end SegmentManager
