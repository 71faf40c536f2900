import Mathlib.Algebra.Order.BigOperators.Group.List
import Mathlib.Data.List.Dedup
import Mathlib.Data.List.Forall2
import SegmentManager.Proofs.Usage

/-!
# What a limit does to a report

A report flags the segments that leave a cache of the limit's size.  A larger limit
never flags more.  If no two directories are named after the same segment, those
that are not flagged are the longest end of the report that fits the limit.  A
segment may be spelled in several ways, and with two of them the report lists it
twice and flags both or none, whichever of them is in the cache.
-/

namespace SegmentManager.Usage

open RecencyCache

/-! ## Directories under the workplace -/

def holding (name : String) (bytes second : Nat) : Node :=
  .directory name (FileTree.atSeconds second) [.file "data_level0.bin" bytes]

def workplaceOf (nodes : List Node) : FileTree :=
  nodes.foldl (FileTree.put · FileTree.workplace ·) .empty

def foundAt (segment bytes second : Nat) : Found :=
  ⟨FileTree.atSeconds second, ⟨.ofNat segment⟩, bytes⟩

/-- A segment, another one, and the first one again in capital letters. -/
def respelled : FileTree := workplaceOf
  [holding "00000000-0000-0000-0000-00000000000b" 6 1,
   holding "00000000-0000-0000-0000-00000000000c" 6 2,
   holding "00000000-0000-0000-0000-00000000000B" 6 3]

theorem respelled_report (limit : Option Nat) :
    ∃ entries, foundIn entries = [foundAt 11 6 1, foundAt 12 6 2, foundAt 11 6 3] ∧
      collect respelled FileTree.workplacePath limit =
        .ok (ofEntries FileTree.workplacePath limit entries) := by
  obtain ⟨entries, -, -, hfound, hcollect⟩ :=
    collect_of_found respelled FileTree.workplacePath
      [foundAt 11 6 1, foundAt 12 6 2, foundAt 11 6 3]
      (by decide +kernel) (by decide +kernel) (by decide +kernel) limit
  exact ⟨entries, hfound, hcollect⟩

/-! ## More memory -/

/-- The entries of one report against those of another: the same segments with the
same sizes, and flagged wherever the others are. -/
def FlagsAllOf (u other : Usage) : Prop :=
  List.Forall₂ (fun s s' => s.segment = s'.segment ∧ s.bytes = s'.bytes ∧
    (s'.evicted = true → s.evicted = true)) u.segments other.segments

theorem flagsAllOf_of_le {small large : Nat} (hsmall : 0 < small) (hle : small ≤ large)
    (path : String) (entries : List Node) :
    (ofEntries path (some small) entries).FlagsAllOf (ofEntries path (some large) entries) := by
  have hfilter : ∀ {n : Nat}, 0 < n → (some n).filter (0 < ·) = some n := by
    intro n hn
    simp [hn]
  unfold FlagsAllOf
  rw [segments_ofEntries, segments_ofEntries, hfilter hsmall, hfilter (hsmall.trans_le hle),
    List.forall₂_map_left_iff, List.forall₂_map_right_iff, List.forall₂_same]
  intro f hf
  refine ⟨rfl, rfl, ?_⟩
  simp only [loadAll_some, List.contains_iff_mem]
  exact left_of_left hle

theorem not_evicted_of_unlimited {limit : Option Nat} (hlimit : limit = none ∨ limit = some 0)
    (path : String) (entries : List Node) :
    ∀ s ∈ (ofEntries path limit entries).segments, s.evicted = false := by
  have hnone : limit.filter (0 < ·) = none := by
    rcases hlimit with rfl | rfl <;> rfl
  rw [segments_ofEntries, hnone, loadAll_none]
  intro s hs
  obtain ⟨f, -, rfl⟩ := List.mem_map.mp hs
  rfl

/-- Entries that are put into a small and a large cache, with other or the same keys:
what the small one holds is an end of what the large one holds, every key that the
large one evicted the small one evicted too, and the totals of both stay within a
word of 64 bits if those of the large one do.  So of two limits the larger flags no
segment of a directory that the smaller does not flag, and without a limit none is
flagged. -/
theorem larger_limits_never_flag_more :
    (∀ {κ α : Type} [DecidableEq κ] {small large : Nat}, small ≤ large →
      ∀ entries : List (RecencyEntry κ α),
        let c := (empty small).insertAll entries
        let c' := (empty large).insertAll entries
        c.2.entries <:+ c'.2.entries ∧
        (∀ k ∈ c'.1.map (·.1), k ∈ c.1.map (·.1)) ∧
        ((empty large).AllHaveRoom (insertions entries) →
          (empty small).useAllChecked (insertions entries) = some c.2 ∧
          (empty large).useAllChecked (insertions entries) = some c'.2)) ∧
    ∀ (tree : FileTree) (path : String),
      (∀ {small large : Nat}, 0 < small → small ≤ large →
        ∀ u, collect tree path (some large) = .ok u →
          ∃ u', collect tree path (some small) = .ok u' ∧ u'.FlagsAllOf u) ∧
      ∀ limit, limit = none ∨ limit = some 0 →
        ∀ u, collect tree path limit = .ok u → ∀ s ∈ u.segments, s.evicted = false := by
  refine ⟨?_, fun tree path => ⟨?_, ?_⟩⟩
  · intro κ α _ small large hle entries c c'
    refine ⟨suffix_insertAll hle entries, fun k hk => left_of_left hle hk, fun hroom => ?_⟩
    have hroom' : (empty small).AllHaveRoom (insertions entries) :=
      allHaveRoom_of_suffix (wellFormed_empty small) (wellFormed_empty large) hle
        List.suffix_rfl hroom
    rw [useAllChecked_eq (wellFormed_empty small) hroom',
      useAllChecked_eq (wellFormed_empty large) hroom, ← insertAll_snd, ← insertAll_snd]
    exact ⟨rfl, rfl⟩
  · intro small large hsmall hle u hcollect
    obtain ⟨entries, hentries, hall, rfl⟩ := collect_eq_ok hcollect
    exact ⟨_, collect_of_entries hentries hall _, flagsAllOf_of_le hsmall hle path entries⟩
  · intro limit hlimit u hcollect
    obtain ⟨entries, -, -, rfl⟩ := collect_eq_ok hcollect
    exact not_evicted_of_unlimited hlimit path entries

def growing : List (RecencyEntry Nat String) := [⟨1, "a", 2⟩, ⟨2, "b", 3⟩, ⟨1, "c", 4⟩, ⟨3, "d", 3⟩]

def allRespelled (evicted : Bool) : List SegmentUsage :=
  [⟨⟨.ofNat 11⟩, 6, evicted⟩, ⟨⟨.ofNat 12⟩, 6, evicted⟩, ⟨⟨.ofNat 11⟩, 6, evicted⟩]

theorem more_room_spares_growing_and_respelled :
    (4 ≤ 7 ∧ ((empty 4).insertAll growing).2.entries <:+ ((empty 7).insertAll growing).2.entries ∧
      ((empty 4).insertAll growing).2.keys = [3] ∧
      ((empty 7).insertAll growing).2.keys = [1, 3]) ∧
    ∃ u u' free, 0 < 6 ∧ 6 ≤ 12 ∧
      collect respelled FileTree.workplacePath (some 12) = .ok u ∧
      u.segments = allRespelled false ∧
      collect respelled FileTree.workplacePath (some 6) = .ok u' ∧
      u'.segments = allRespelled true ∧ u'.FlagsAllOf u ∧
      collect respelled FileTree.workplacePath (some 0) = .ok free ∧
      ∀ s ∈ free.segments, s.evicted = false := by
  obtain ⟨hcaches, hreports⟩ := larger_limits_never_flag_more
  obtain ⟨hlimits, hunlimited⟩ := hreports respelled FileTree.workplacePath
  obtain ⟨entries, hfound, hcollect⟩ := respelled_report (some 12)
  obtain ⟨entries', hfound', hsmall⟩ := respelled_report (some 6)
  obtain ⟨_, -, hfree⟩ := respelled_report (some 0)
  have hless : 0 < 6 ∧ 6 ≤ 12 := by decide
  obtain ⟨u', hcollect', hflags⟩ := hlimits hless.1 hless.2 _ hcollect
  obtain rfl := Except.ok.inj (hcollect'.symm.trans hsmall)
  refine ⟨⟨by decide, (hcaches (by decide) growing).1, by decide, by decide⟩,
    _, _, _, by decide, by decide, hcollect, ?_, hsmall, ?_, hflags, hfree,
    hunlimited (some 0) (.inr rfl) _ hfree⟩
  · rw [segments_ofEntries, hfound]
    decide +kernel
  · rw [segments_ofEntries, hfound']
    decide +kernel

/-! ## What is not flagged -/

def kept (u : Usage) : List SegmentUsage := u.segments.filter (!·.evicted)

def lastBytes (u : Usage) (segment : SegmentId) : Nat :=
  ((u.segments.reverse.find? (·.segment = segment)).map (·.bytes)).getD 0

def entryOf (s : SegmentUsage) : RecencyEntry SegmentId Unit := ⟨s.segment, (), s.bytes⟩

/-- No two directories are named after the same segment, in whatever spelling. -/
def SpelledOnce (entries : List Node) : Prop :=
  ((entries.filterMap Found.ofNode?).map (·.segment)).Nodup

section Kept

variable {limit : Nat} {path : String} {entries : List Node}

def loaded (limit : Nat) (entries : List Node) : SegmentCache :=
  ((empty limit).insertAll ((foundIn entries).map Found.entry)).2

def pushedOut (limit : Nat) (entries : List Node) : List SegmentId :=
  ((empty limit).insertAll ((foundIn entries).map Found.entry)).1.map (·.1)

def listed (gone : List SegmentId) (f : Found) : SegmentUsage :=
  ⟨f.segment, f.bytes, gone.contains f.segment⟩

theorem segments_eq_listed (hlimit : 0 < limit) (path : String) (entries : List Node) :
    (ofEntries path (some limit) entries).segments =
      (foundIn entries).map (listed (pushedOut limit entries)) := by
  have hfilter : (some limit).filter (0 < ·) = some limit := by simp [hlimit]
  rw [segments_ofEntries, hfilter, loadAll_some]
  rfl

theorem map_entryOf_listed (gone : List SegmentId) (found : List Found) :
    (found.map (listed gone)).map entryOf = found.map Found.entry := by
  rw [List.map_map]
  rfl

theorem map_segment_listed (gone : List SegmentId) (found : List Found) :
    (found.map (listed gone)).map (·.segment) = found.map (·.segment) := by
  rw [List.map_map]
  rfl

theorem nodup_found_iff (entries : List Node) :
    ((foundIn entries).map (·.segment)).Nodup ↔ SpelledOnce entries :=
  ((List.mergeSort_perm (entries.filterMap Found.ofNode?) Found.le).map (·.segment)).nodup_iff

theorem nodup_segments_iff (hlimit : 0 < limit) (path : String) (entries : List Node) :
    ((ofEntries path (some limit) entries).segments.map (·.segment)).Nodup ↔
      SpelledOnce entries := by
  rw [segments_eq_listed hlimit, map_segment_listed]
  exact nodup_found_iff entries

theorem loaded_split (limit : Nat) (honce : SpelledOnce entries) :
    (∃ gone, pushedOut limit entries = gone.map (·.key) ∧
      gone ++ (loaded limit entries).entries = (foundIn entries).map Found.entry) ∧
    LongestFitting limit ((foundIn entries).map Found.entry) (loaded limit entries).entries := by
  have hdistinct : (((foundIn entries).map Found.entry).map (·.key)).Nodup := by
    rw [keys_entries]
    exact (nodup_found_iff entries).mpr honce
  obtain ⟨⟨gone, hgone, hsplit⟩, hlongest⟩ := insertAll_split limit hdistinct
  refine ⟨⟨gone, ?_, hsplit⟩, hlongest⟩
  unfold pushedOut
  rw [hgone, List.map_map]
  rfl

theorem kept_eq_loaded (hlimit : 0 < limit) (path : String) (honce : SpelledOnce entries) :
    let u := ofEntries path (some limit) entries
    u.kept <:+ u.segments ∧ u.kept.map entryOf = (loaded limit entries).entries := by
  intro u
  have hsegments : u.segments = _ := segments_eq_listed hlimit path entries
  have hdistinct := (nodup_found_iff entries).mpr honce
  obtain ⟨⟨gone, hgone, hsplit⟩, -⟩ := loaded_split limit honce
  obtain ⟨first, last, hfound, rfl, hlast⟩ := List.map_eq_append_iff.mp hsplit.symm
  have hout : pushedOut limit entries = first.map (·.segment) := by
    rw [hgone, List.map_map]
    rfl
  -- a segment that left is not loaded again, so the report flags just the first ones
  rw [hfound, List.map_append, List.nodup_append] at hdistinct
  have hflagged : ∀ f ∈ first, (listed (pushedOut limit entries) f).evicted = true := by
    intro f hf
    rw [hout]
    exact List.contains_iff_mem.mpr (List.mem_map_of_mem hf)
  have hspared : ∀ f ∈ last, (listed (pushedOut limit entries) f).evicted = false := by
    intro f hf
    rw [hout]
    apply Bool.eq_false_iff.mpr
    intro hcontains
    exact hdistinct.2.2 f.segment (List.contains_iff_mem.mp hcontains) f.segment
      (List.mem_map_of_mem hf) rfl
  have hkept : u.kept = last.map (listed (pushedOut limit entries)) := by
    unfold kept
    rw [hsegments, hfound, List.map_append, List.filter_append,
      List.filter_eq_nil_iff.mpr, List.filter_eq_self.mpr, List.nil_append]
    · simpa using hspared
    · simpa using hflagged
  refine ⟨?_, ?_⟩
  · rw [hkept, hsegments, hfound, List.map_append]
    exact List.suffix_append _ _
  · rw [hkept, map_entryOf_listed, hlast]

theorem longestFitting_kept (hlimit : 0 < limit) (path : String) (honce : SpelledOnce entries) :
    let u := ofEntries path (some limit) entries
    LongestFitting limit (u.segments.map entryOf) (u.kept.map entryOf) := by
  intro u
  rw [(kept_eq_loaded hlimit path honce).2, segments_eq_listed hlimit path, map_entryOf_listed]
  exact (loaded_split limit honce).2

theorem getLast?_kept (hlimit : 0 < limit) (path : String) (honce : SpelledOnce entries) :
    let u := ofEntries path (some limit) entries
    u.kept.getLast? = u.segments.getLast? := by
  intro u
  obtain ⟨⟨front, hfront⟩, hloaded⟩ := kept_eq_loaded hlimit path honce
  by_cases hempty : u.kept = []
  · have hnone : (foundIn entries).map Found.entry = [] := by
      by_contra hne
      apply insertAll_ne_nil (empty limit) hne
      rw [hempty] at hloaded
      exact hloaded.symm
    have hsegments : u.segments = [] := by
      rw [segments_eq_listed hlimit path, List.map_eq_nil_iff.mp hnone]
      rfl
    rw [hempty, hsegments]
  · rw [← hfront, List.getLast?_append_of_ne_nil _ hempty]

theorem lastBytes_of_loaded (hlimit : 0 < limit) (path : String)
    {e : RecencyEntry SegmentId Unit} (he : e ∈ (loaded limit entries).entries) :
    (ofEntries path (some limit) entries).lastBytes e.key = e.size := by
  unfold loaded at he
  rw [insertAll_snd] at he
  have hlast := lastGiven?_of_mem_entries he
  rw [lastGiven?_insertions, ← List.map_reverse, List.find?_map] at hlast
  obtain ⟨entry, hentry, hpair⟩ := Option.map_eq_some_iff.mp hlast
  obtain ⟨f, hf, rfl⟩ := Option.map_eq_some_iff.mp hentry
  have hsame : (foundIn entries).reverse.find?
      ((fun s : SegmentUsage => decide (s.segment = e.key)) ∘ listed (pushedOut limit entries)) =
        some f := hf
  unfold lastBytes
  rw [segments_eq_listed hlimit, ← List.map_reverse, List.find?_map, hsame]
  exact congrArg Prod.snd hpair

theorem kept_fits (hlimit : 0 < limit) (path : String) (entries : List Node) :
    let u := ofEntries path (some limit) entries
    let segments := (u.kept.map (·.segment)).dedup
    (segments.map u.lastBytes).sum ≤ limit ∨ segments.length ≤ 1 := by
  intro u segments
  have hwell : (loaded limit entries).WellFormed := wellFormed_insertAll (wellFormed_empty limit) _
  have hheld : segments ⊆ (loaded limit entries).keys := by
    intro segment hsegment
    obtain ⟨s, hs, rfl⟩ := List.mem_map.mp (List.mem_dedup.mp hsegment)
    obtain ⟨hlisted, hspared⟩ := List.mem_filter.mp hs
    rw [segments_eq_listed hlimit path] at hlisted
    obtain ⟨f, hf, rfl⟩ := List.mem_map.mp hlisted
    have hput : f.segment ∈ ((foundIn entries).map Found.entry).map (·.key) := by
      rw [keys_entries]
      exact List.mem_map_of_mem hf
    refine (held_or_left (empty limit) hput).resolve_right ?_
    intro hleft
    have hstays : f.segment ∉ pushedOut limit entries := by simpa [listed] using hspared
    exact hstays hleft
  obtain ⟨part, hperm, hpart⟩ := List.subperm_of_subset (List.nodup_dedup _) hheld
  have hsum : ((loaded limit entries).keys.map u.lastBytes).sum = (loaded limit entries).total := by
    rw [hwell.total_eq, RecencyCache.sizeOf, keys, List.map_map]
    congr 1
    exact List.map_congr_left fun e he => lastBytes_of_loaded hlimit path he
  rcases hwell.fits with hfits | hone
  · left
    calc (segments.map u.lastBytes).sum
        = (part.map u.lastBytes).sum := (hperm.map u.lastBytes).sum_eq.symm
      _ ≤ ((loaded limit entries).keys.map u.lastBytes).sum :=
          (hpart.map u.lastBytes).sum_le_sum fun n _ => Nat.zero_le n
      _ = (loaded limit entries).total := hsum
      _ ≤ (loaded limit entries).capacity := hfits
      _ = limit := capacity_insertAll _ _
  · right
    calc segments.length
        = part.length := hperm.length_eq.symm
      _ ≤ (loaded limit entries).keys.length := hpart.length_le
      _ = 1 := by rw [keys, List.length_map, hone]

end Kept

/-- What a report on any directory with a positive limit says.  It lists no segment
twice just if no two directories are named after the same one, in whatever spelling.
Then those that are not flagged are an end of the report with its last segment, the
longest end that fits the limit, or that segment alone where it is too large.  Under
any names at all, the segments that are not flagged fit the limit, each with the
bytes that it is listed with last, or there is no more than one of them. -/
theorem distinct_names_keep_longest_fitting_end {tree : FileTree} {path : String}
    {entries : List Node} {limit : Nat} (hlimit : 0 < limit)
    (hentries : tree.entries? path = some entries)
    (hmeasurable : entries.all (measurable path) = true) :
    ∃ u, collect tree path (some limit) = .ok u ∧
      ((u.segments.map (·.segment)).Nodup ↔ SpelledOnce entries) ∧
      (SpelledOnce entries →
        u.kept <:+ u.segments ∧ u.kept.getLast? = u.segments.getLast? ∧
        LongestFitting limit (u.segments.map entryOf) (u.kept.map entryOf)) ∧
      let segments := (u.kept.map (·.segment)).dedup
      (segments.map u.lastBytes).sum ≤ limit ∨ segments.length ≤ 1 := by
  refine ⟨_, collect_of_entries hentries hmeasurable _, nodup_segments_iff hlimit path entries,
    fun honce => ⟨?_, getLast?_kept hlimit path honce, longestFitting_kept hlimit path honce⟩,
    kept_fits hlimit path entries⟩
  exact (kept_eq_loaded hlimit path honce).1

/-- A segment in capital letters, another one in braces, and one without hyphens. -/
def oddlySpelled : FileTree := workplaceOf
  [holding "00000000-0000-0000-0000-00000000000B" 4 1,
   holding "\x7b00000000-0000-0000-0000-00000000000c\x7d" 5 2,
   holding "0000000000000000000000000000000D" 3 3]

theorem oddly_spelled_segments_keep_end :
    ∃ entries u, oddlySpelled.entries? FileTree.workplacePath = some entries ∧ 0 < 8 ∧
      entries.all (measurable FileTree.workplacePath) = true ∧ SpelledOnce entries ∧
      collect oddlySpelled FileTree.workplacePath (some 8) = .ok u ∧
      LongestFitting 8 (u.segments.map entryOf) (u.kept.map entryOf) ∧
      u.kept = [⟨⟨.ofNat 12⟩, 5, false⟩, ⟨⟨.ofNat 13⟩, 3, false⟩] := by
  obtain ⟨entries, hentries, hmeasurable, hfound, -⟩ :=
    collect_of_found oddlySpelled FileTree.workplacePath
      [foundAt 11 4 1, foundAt 12 5 2, foundAt 13 3 3]
      (by decide +kernel) (by decide +kernel) (by decide +kernel) (some 8)
  have height : 0 < 8 := by decide
  have honce : SpelledOnce entries := by
    rw [← nodup_segments_iff height "" entries,
      segments_eq_listed (by decide), map_segment_listed, hfound]
    decide +kernel
  obtain ⟨u, hcollect, -, hlongest, -⟩ :=
    distinct_names_keep_longest_fitting_end height hentries hmeasurable
  refine ⟨entries, u, hentries, by decide, hmeasurable, honce, hcollect, (hlongest honce).2.2, ?_⟩
  obtain ⟨entries', hentries', -, rfl⟩ := collect_eq_ok hcollect
  obtain rfl := Option.some.inj (hentries.symm.trans hentries')
  unfold kept
  rw [segments_eq_listed (by decide), pushedOut, hfound]
  decide +kernel

/-- The last segment is flagged and no entry is kept, though the segment is in the
cache; and with a limit for two all three entries are. -/
theorem respelled_segment_confuses_report :
    (∃ u, collect respelled FileTree.workplacePath (some 10) = .ok u ∧
      ¬ (u.segments.map (·.segment)).Nodup ∧ u.segments ≠ [] ∧ u.kept = []) ∧
    ∃ u, collect respelled FileTree.workplacePath (some 12) = .ok u ∧
      u.kept = u.segments ∧ 12 < (u.segments.map (·.bytes)).sum := by
  obtain ⟨entries, hfound, hcollect⟩ := respelled_report (some 10)
  obtain ⟨entries', hfound', hcollect'⟩ := respelled_report (some 12)
  refine ⟨⟨_, hcollect, ?_⟩, _, hcollect', ?_⟩
  · unfold kept
    rw [segments_eq_listed (by decide), pushedOut, hfound]
    decide +kernel
  · unfold kept
    rw [segments_eq_listed (by decide), pushedOut, hfound']
    decide +kernel

end SegmentManager.Usage
