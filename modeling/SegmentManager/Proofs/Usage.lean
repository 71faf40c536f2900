import Mathlib.Data.List.Induction
import Mathlib.Data.String.Basic
import SegmentManager.Instance
import SegmentManager.Proofs.Cache.Capacity
import SegmentManager.Proofs.FileTree
import SegmentManager.Usage

/-!
# What a report on usage says

A report lists the directories of segments, each measured along the path under
which a manager keeps the segment.  The segments are loaded in this order, each
of them once, so those that leave the cache are the first ones of the report.
-/

namespace SegmentManager

/-! ## Names of segments -/

namespace Uuid

theorem mem_group {lengths : List Nat} {cs : List Char} {c : Char}
    (hmem : c ∈ group lengths cs) : c = '-' ∨ c ∈ cs := by
  fun_induction group lengths cs with
  | case1 cs => cases hmem
  | case2 cs n => exact .inr (List.mem_of_mem_take hmem)
  | case3 cs n m ns ih =>
      rcases List.mem_append.mp hmem with hfirst | hrest
      · exact .inr (List.mem_of_mem_take hfirst)
      · rcases List.mem_cons.mp hrest with rfl | hlater
        · exact .inl rfl
        · exact (ih hlater).imp_right List.mem_of_mem_drop

theorem mem_hexDigits {width n : Nat} {c : Char} (hmem : c ∈ hexDigits width n) :
    ∃ digit < 16, c = hexDigit digit := by
  induction width generalizing n with
  | zero => cases hmem
  | succ width ih =>
      rcases List.mem_append.mp hmem with hfirst | hlast
      · exact ih hfirst
      · exact ⟨n % 16, Nat.mod_lt n (by decide), List.mem_singleton.mp hlast⟩

theorem notMem_chars {c : Char} (hhyphen : c ≠ '-') (hdigit : ∀ digit : Fin 16, c ≠ hexDigit digit)
    (u : Uuid) : c ∉ u.chars := by
  intro hmem
  rcases mem_group hmem with rfl | hdigits
  · exact hhyphen rfl
  · obtain ⟨digit, hlt, rfl⟩ := mem_hexDigits hdigits
    exact hdigit ⟨digit, hlt⟩ rfl

end Uuid

theorem utf8Len_le (cs : List Char) : String.utf8Len cs ≤ 4 * cs.length := by
  induction cs with
  | nil => exact Nat.le_refl 0
  | cons c rest ih =>
      have hfirst := c.utf8Size_le_four
      simp only [String.utf8Len_cons, List.length_cons]
      omega

theorem SegmentId.isEntryName (segment : SegmentId) :
    FileTree.IsEntryName (toString segment) := by
  have htext : toString segment = String.ofList segment.uuid.chars := rfl
  have hchars : (toString segment).toList = segment.uuid.chars := by simp [htext]
  have hlength := segment.uuid.length_chars
  have hother : ∀ name : String, name.toList.length ≠ 36 → toString segment ≠ name := by
    rintro name hname rfl
    exact hname (hchars ▸ hlength)
  refine ⟨⟨hother "" (by decide), ?_⟩, ?_, hother "." (by decide), hother ".." (by decide), ?_⟩
  · rw [hchars]
    exact Uuid.notMem_chars (by decide) (by decide) _
  · rw [hchars]
    exact Uuid.notMem_chars (by decide) (by decide) _
  · have hbytes := utf8Len_le segment.uuid.chars
    rw [htext, String.utf8ByteSize_ofList]
    unfold FileTree.maxNameBytes
    omega

namespace Usage

/-! ## What is found -/

/-- The entries have different names, and each of those that are segments has the
name that its identifier is written as. -/
def Canonical (entries : List Node) : Prop :=
  (entries.map (·.name)).Nodup ∧
    ∀ node ∈ entries, ∀ f ∈ Found.ofNode? node, node.name = toString f.segment

instance (entries : List Node) : Decidable (Canonical entries) :=
  inferInstanceAs (Decidable (_ ∧ _))

def foundIn (entries : List Node) : List Found :=
  (entries.filterMap Found.ofNode?).mergeSort Found.le

theorem collect_eq_ok {tree : FileTree} {path : String} {limit : Option Nat} {u : Usage}
    (hcollect : collect tree path limit = .ok u) :
    ∃ entries, tree.entries? path = some entries ∧ entries.all (measurable path) = true ∧
      u = ofEntries path limit entries := by
  unfold collect report at hcollect
  cases hentries : tree.entries? path with
  | none =>
      rw [hentries] at hcollect
      cases hcollect
  | some entries =>
      rw [hentries] at hcollect
      by_cases hall : entries.all (measurable path) = true
      · simp only [hall, if_true] at hcollect
        exact ⟨entries, rfl, hall, (Except.ok.inj hcollect).symm⟩
      · simp [hall] at hcollect

theorem collect_of_entries {tree : FileTree} {path : String} {entries : List Node}
    (hentries : tree.entries? path = some entries)
    (hall : entries.all (measurable path) = true) (limit : Option Nat) :
    collect tree path limit = .ok (ofEntries path limit entries) := by
  unfold collect report
  rw [hentries]
  exact if_pos hall

theorem mem_foundIn {entries : List Node} {f : Found} :
    f ∈ foundIn entries ↔ ∃ node ∈ entries, Found.ofNode? node = some f := by
  unfold foundIn
  rw [List.mem_mergeSort, List.mem_filterMap]

theorem Found.ofNode?_eq_some {node : Node} {f : Found} (hnode : Found.ofNode? node = some f) :
    node.isDirectory = true ∧ f.bytes = node.size := by
  cases node with
  | file name bytes => cases hnode
  | link name target => cases hnode
  | directory name modified children =>
      obtain ⟨segment, -, rfl⟩ := Option.map_eq_some_iff.mp hnode
      exact ⟨rfl, rfl⟩

theorem nodup_foundIn {entries : List Node} (hcanonical : Canonical entries) :
    ((foundIn entries).map (·.segment)).Nodup := by
  have hperm := List.mergeSort_perm (entries.filterMap Found.ofNode?) Found.le
  refine (hperm.map (·.segment)).nodup_iff.mpr ?_
  obtain ⟨hnames, hwritten⟩ := hcanonical
  rw [List.Nodup, List.pairwise_map, List.pairwise_filterMap]
  rw [List.Nodup, List.pairwise_map] at hnames
  refine hnames.imp_of_mem ?_
  intro a b ha hb hne f hf f' hf' heq
  exact hne (by rw [hwritten a ha f hf, hwritten b hb f' hf', heq])

theorem collect_of_found (tree : FileTree) (path : String) (found : List Found)
    (hsome : (tree.entries? path).isSome = true)
    (hread : ∀ entries ∈ tree.entries? path, entries.all (measurable path) = true ∧
      entries.filterMap Found.ofNode? = found)
    (hsorted : found.Pairwise (fun f g => Found.le f g = true)) (limit : Option Nat) :
    ∃ entries, tree.entries? path = some entries ∧
      entries.all (measurable path) = true ∧ foundIn entries = found ∧
      collect tree path limit = .ok (ofEntries path limit entries) := by
  obtain ⟨entries, hentries⟩ := Option.isSome_iff_exists.mp hsome
  obtain ⟨hall, hfound⟩ := hread entries hentries
  refine ⟨entries, hentries, hall, ?_, collect_of_entries hentries hall limit⟩
  unfold foundIn
  rw [hfound]
  exact List.mergeSort_of_pairwise hsorted

theorem reaches_of_found {path : String} {entries : List Node}
    (hmeasurable : entries.all (measurable path) = true) {node : Node} (hnode : node ∈ entries)
    {f : Found} (hfound : Found.ofNode? node = some f) :
    FileTree.reaches (FileTree.join path node.name) node = true := by
  have hnodeMeasurable := List.all_eq_true.mp hmeasurable node hnode
  simpa [measurable, hfound] using hnodeMeasurable

theorem sizeOf_found {tree : FileTree} {path : String} {entries : List Node}
    (hentries : tree.entries? path = some entries) (hcanonical : Canonical entries)
    (hmeasurable : entries.all (measurable path) = true) {f : Found} (hf : f ∈ foundIn entries) :
    tree.sizeOf (segmentDirectory path f.segment) = .ok f.bytes := by
  obtain ⟨node, hnode, hfound⟩ := mem_foundIn.mp hf
  obtain ⟨hdirectory, hbytes⟩ := Found.ofNode?_eq_some hfound
  have hname := hcanonical.2 node hnode f hfound
  have hreaches := reaches_of_found hmeasurable hnode hfound
  unfold segmentDirectory
  rw [← hname, hbytes]
  exact FileTree.sizeOf_entry hentries hcanonical.1 hnode hdirectory
    (hname ▸ f.segment.isEntryName) hreaches

/-! ## What leaves -/

abbrev SegmentCache := RecencyCache SegmentId Unit

def load (f : Found) : Option SegmentCache → List SegmentId × Option SegmentCache
  | none => ([], none)
  | some cache =>
      let (out, cache) := cache.insert f.segment () f.bytes
      (out.map (·.1), some cache)

def loadAll (limit : Option Nat) (found : List Found) : List SegmentId × Option SegmentCache :=
  found.foldl (fun (gone, cache) f => (gone ++ (load f cache).1, (load f cache).2))
    ([], limit.map RecencyCache.empty)

theorem loadAll_concat (limit : Option Nat) (found : List Found) (f : Found) :
    loadAll limit (found ++ [f]) =
      ((loadAll limit found).1 ++ (load f (loadAll limit found).2).1,
        (load f (loadAll limit found).2).2) := by
  unfold loadAll
  rw [List.foldl_concat]

theorem loadAll_none (found : List Found) : loadAll none found = ([], none) := by
  induction found using List.reverseRecOn with
  | nil => rfl
  | append_singleton found f ih =>
      rw [loadAll_concat, ih]
      rfl

def Found.entry (f : Found) : RecencyEntry SegmentId Unit := ⟨f.segment, (), f.bytes⟩

theorem keys_entries (found : List Found) :
    (found.map Found.entry).map (·.key) = found.map (·.segment) := by
  rw [List.map_map]
  rfl

theorem loadAll_some (capacity : Nat) (found : List Found) :
    loadAll (some capacity) found =
      (((RecencyCache.empty capacity).insertAll (found.map Found.entry)).1.map (·.1),
        some ((RecencyCache.empty capacity).insertAll (found.map Found.entry)).2) := by
  induction found using List.reverseRecOn with
  | nil => rfl
  | append_singleton found f ih =>
      rw [loadAll_concat, ih, List.map_append, List.map_singleton, RecencyCache.insertAll_concat,
        List.map_append]
      rfl

theorem loadAll_fst (limit : Option Nat) (found : List Found) :
    (loadAll limit found).1 =
      match limit with
      | some capacity => evictions capacity found
      | none => [] := by
  cases limit with
  | none => rw [loadAll_none]
  | some capacity =>
      suffices hfold : ∀ gone (cache : SegmentCache),
          (found.foldl (fun (gone, cache) f => (gone ++ (load f cache).1, (load f cache).2))
            (gone, some cache)).1 =
          (found.foldl (fun (gone, cache) f =>
            let (out, cache) := cache.insert f.segment () f.bytes
            (gone ++ out.map (·.1), cache)) (gone, cache)).1 from hfold [] _
      intro gone cache
      induction found generalizing gone cache with
      | nil => rfl
      | cons f rest ih => exact ih _ _

theorem nodup_of_concat {found : List Found} {f : Found}
    (hdistinct : ((found ++ [f]).map (·.segment)).Nodup) :
    (found.map (·.segment)).Nodup ∧ f.segment ∉ found.map (·.segment) := by
  rw [List.map_append, List.nodup_append] at hdistinct
  exact ⟨hdistinct.1, fun hmem => hdistinct.2.2 _ hmem _ (List.mem_singleton_self _) rfl⟩

theorem loadAll_split (limit : Option Nat) {found : List Found}
    (hdistinct : (found.map (·.segment)).Nodup) :
    ∃ kept, (loadAll limit found).1 ++ kept = found.map (·.segment) ∧
      ∀ cache, (loadAll limit found).2 = some cache → cache.keys = kept := by
  cases limit with
  | none =>
      rw [loadAll_none]
      exact ⟨_, List.nil_append _, by rintro cache ⟨⟩⟩
  | some capacity =>
      obtain ⟨⟨gone, hgone, hsplit⟩, -⟩ :=
        RecencyCache.insertAll_split capacity (keys_entries found ▸ hdistinct)
      have hkeys := congrArg (List.map (·.key)) hsplit
      rw [keys_entries, List.map_append] at hkeys
      rw [loadAll_some]
      refine ⟨_, ?_, by rintro cache ⟨⟩; rfl⟩
      rw [hgone, List.map_map]
      exact hkeys

theorem mem_of_mem_loadAll {limit : Option Nat} {found : List Found}
    (hdistinct : (found.map (·.segment)).Nodup) {segment : SegmentId}
    (hmem : segment ∈ (loadAll limit found).1) : segment ∈ found.map (·.segment) := by
  obtain ⟨kept, hsplit, -⟩ := loadAll_split limit hdistinct
  exact hsplit ▸ List.mem_append_left kept hmem

theorem segments_ofEntries (path : String) (memoryLimit : Option Nat) (entries : List Node) :
    (ofEntries path memoryLimit entries).segments = (foundIn entries).map fun f =>
      ⟨f.segment, f.bytes,
        (loadAll (memoryLimit.filter (0 < ·)) (foundIn entries)).1.contains f.segment⟩ := by
  rw [loadAll_fst]
  rfl

theorem countP_evicted (path : String) (memoryLimit : Option Nat) {entries : List Node}
    (hcanonical : Canonical entries) :
    (ofEntries path memoryLimit entries).segments.countP (·.evicted) =
      (loadAll (memoryLimit.filter (0 < ·)) (foundIn entries)).1.length := by
  have hdistinct := nodup_foundIn hcanonical
  obtain ⟨kept, hsplit, -⟩ := loadAll_split (memoryLimit.filter (0 < ·)) hdistinct
  rw [segments_ofEntries, List.countP_map]
  generalize (loadAll (memoryLimit.filter (0 < ·)) (foundIn entries)).1 = gone at hsplit ⊢
  rw [← hsplit, List.nodup_append] at hdistinct
  have hgone : gone.countP gone.contains = gone.length :=
    List.countP_eq_length.mpr fun segment hmem => List.contains_iff_mem.mpr hmem
  have hkept : kept.countP gone.contains = 0 := by
    apply List.countP_eq_zero.mpr
    intro segment hmem hcontains
    exact hdistinct.2.2 segment (List.contains_iff_mem.mp hcontains) segment hmem rfl
  calc (foundIn entries).countP (fun f => gone.contains f.segment)
      = ((foundIn entries).map (·.segment)).countP gone.contains := by
        rw [List.countP_map]
        rfl
    _ = gone.length := by rw [← hsplit, List.countP_append, hgone, hkept, Nat.add_zero]

end Usage

end SegmentManager
