import Mathlib.Data.List.Perm.Basic
import Mathlib.Data.Prod.Lex
import SegmentManager.Proofs.FileTree.Order
import SegmentManager.Proofs.Usage

/-!
# Reports and the order of listings

What is found in a directory is put into an order that is linear on all that a report
depends on, so it is found in the same order however the directory and those below it
are listed.  What leaves the cache hangs on that order and is the same as well.
-/

namespace SegmentManager

theorem Uuid.toNat_injective : Function.Injective toNat :=
  fun _ _ heq => congrArg Uuid.mk (BitVec.eq_of_toNat_eq heq)

theorem SegmentId.toNat_uuid_inj {a b : SegmentId} :
    a.uuid.toNat = b.uuid.toNat ↔ a = b := by
  constructor
  · exact fun heq => congrArg SegmentId.mk (Uuid.toNat_injective heq)
  · rintro rfl
    rfl

namespace Usage

open FileTree

/-! ## The order of a report -/

namespace Found

def key (f : Found) : Int ×ₗ Nat ×ₗ Nat :=
  toLex (f.modified, toLex (f.segment.uuid.toNat, f.bytes))

theorem key_injective : Function.Injective key := by
  rintro ⟨modified, segment, bytes⟩ ⟨modified', segment', bytes'⟩ hkey
  simp only [key, toLex_inj, Prod.mk.injEq, SegmentId.toNat_uuid_inj] at hkey
  obtain ⟨rfl, rfl, rfl⟩ := hkey
  rfl

theorem le_iff_key_le (f g : Found) : f.le g = true ↔ f.key ≤ g.key := by
  unfold le key
  simp only [Prod.Lex.le_iff, ofLex_toLex]
  by_cases hmodified : f.modified = g.modified
  · by_cases hsegment : f.segment = g.segment
    · simp [hmodified, hsegment]
    · have hne : f.segment.uuid.toNat ≠ g.segment.uuid.toNat :=
        mt SegmentId.toNat_uuid_inj.mp hsegment
      simp [hmodified, hsegment, hne]
  · simp [hmodified]

end Found

theorem foundIn_sorted (entries : List Node) :
    (foundIn entries).Pairwise fun f g => f.key ≤ g.key := by
  have htrans : ∀ f g h : Found, f.le g = true → g.le h = true → f.le h = true := by
    intro f g h
    rw [Found.le_iff_key_le, Found.le_iff_key_le, Found.le_iff_key_le]
    exact le_trans
  have htotal : ∀ f g : Found, (f.le g || g.le f) = true := by
    intro f g
    rw [Bool.or_eq_true, Found.le_iff_key_le, Found.le_iff_key_le]
    exact le_total _ _
  refine (List.pairwise_mergeSort htrans htotal _).imp ?_
  intro f g
  exact (Found.le_iff_key_le f g).mp

theorem foundIn_eq_of_perm {entries entries' : List Node}
    (h : (entries.filterMap Found.ofNode?).Perm (entries'.filterMap Found.ofNode?)) :
    foundIn entries = foundIn entries' := by
  have hperm : (foundIn entries).Perm (foundIn entries') :=
    (List.mergeSort_perm _ _).trans (h.trans (List.mergeSort_perm _ _).symm)
  refine hperm.eq_of_pairwise ?_ (foundIn_sorted entries) (foundIn_sorted entries')
  intro f g _ _ hfg hgf
  exact Found.key_injective (hfg.antisymm hgf)

/-! ## Other listings -/

section Reordered

variable {node node' : Node} {entries entries' : List Node} {tree tree' : FileTree}

theorem ofNode?_reordered (h : node.Reordered node') :
    Found.ofNode? node = Found.ofNode? node' := by
  have hsize := h.size_eq
  cases h with
  | file name bytes => rfl
  | link name target => rfl
  | directory same order => simp only [Found.ofNode?, hsize]

theorem measurable_reordered (path : String) (h : node.Reordered node') :
    measurable path node = measurable path node' := by
  unfold measurable
  rw [ofNode?_reordered h, h.name_eq, h.reaches_eq]

theorem report_relisted (path : String) (limit : Option Nat)
    (h : Node.Relisted entries entries') :
    report path limit (some entries') = report path limit (some entries) := by
  have hfound : foundIn entries' = foundIn entries :=
    (foundIn_eq_of_perm (h.filterMap_perm fun _ _ _ hab => ofNode?_reordered hab)).symm
  have hmeasurable : entries'.all (measurable path) = entries.all (measurable path) := by
    rw [Bool.eq_iff_iff, List.all_eq_true, List.all_eq_true]
    refine (h.forall_iff ?_).symm
    intro a _ b hab
    rw [measurable_reordered path hab]
  unfold foundIn at hfound
  simp only [report, ofEntries, hfound, hmeasurable]

theorem collect_reordered (hnames : tree.root.WellNamed) (h : tree.root.Reordered tree'.root)
    (path : String) (limit : Option Nat) :
    collect tree' path limit = collect tree path limit := by
  have hentries := entries?_reordered hnames h path
  unfold collect
  generalize tree.entries? path = listing, tree'.entries? path = listing' at hentries ⊢
  cases hentries with
  | none => rfl
  | some hrel => exact report_relisted path limit hrel

end Reordered

/-! ## What a report says of which directory -/

theorem forall₂_filterMap {α β : Type} {f : α → Option β} {r : α → β → Prop} {l : List α}
    (hr : ∀ a ∈ l, ∀ b, f a = some b → r a b) :
    List.Forall₂ r (l.filter fun a => (f a).isSome) (l.filterMap f) := by
  induction l with
  | nil => exact .nil
  | cons first rest ih =>
      have hrest := ih fun a ha => hr a (List.mem_cons_of_mem _ ha)
      cases hfirst : f first with
      | none => simpa [hfirst] using hrest
      | some b =>
          have hb := hr first List.mem_cons_self b hfirst
          simpa [hfirst] using ⟨hb, hrest⟩

def Describes (tree : FileTree) (path : String) (node : Node) (f : Found) : Prop :=
  (∃ children, node = .directory node.name f.modified children) ∧
    SegmentId.ofString? node.name = some f.segment ∧
    tree.sizeOf (join path node.name) = .ok f.bytes

def namesSegment (node : Node) : Bool :=
  node.isDirectory && (SegmentId.ofString? node.name).isSome

theorem isSome_ofNode? (node : Node) : (Found.ofNode? node).isSome = namesSegment node := by
  cases node with
  | file name bytes => rfl
  | link name target => rfl
  | directory name modified children =>
      simp [Found.ofNode?, namesSegment, Node.isDirectory, Node.name]

theorem describes_of_found {tree : FileTree} {path : String} {entries : List Node}
    (hnames : tree.root.WellNamed) (hentries : tree.entries? path = some entries)
    (hall : entries.all (measurable path) = true) {node : Node} (hnode : node ∈ entries)
    {f : Found} (hfound : Found.ofNode? node = some f) : Describes tree path node f := by
  obtain ⟨place, parent, -, hparent, -, rfl⟩ := entries?_eq_some hentries
  have hwell := wellNamed_of_at? hnames hparent
  obtain ⟨hdirectory, hbytes⟩ := Found.ofNode?_eq_some hfound
  have hsize := sizeOf_entry hentries hwell.distinct hnode hdirectory
    (hwell.isEntryName hnode) (reaches_of_found hall hnode hfound)
  rw [← hbytes] at hsize
  obtain ⟨name, modified, children, rfl⟩ := Node.eq_directory hdirectory
  obtain ⟨segment, hsegment, rfl⟩ := Option.map_eq_some_iff.mp hfound
  exact ⟨⟨children, rfl⟩, hsegment, hsize⟩

theorem exists_described {tree : FileTree} {path : String} {entries : List Node}
    (hnames : tree.root.WellNamed) (hentries : tree.entries? path = some entries)
    (hall : entries.all (measurable path) = true) :
    ∃ listed, (entries.filter namesSegment).Perm listed ∧
      List.Forall₂ (Describes tree path) listed (foundIn entries) := by
  have hlisted : List.Forall₂ (Describes tree path) (entries.filter namesSegment)
      (entries.filterMap Found.ofNode?) := by
    have hfound := forall₂_filterMap fun node hnode f =>
      describes_of_found hnames hentries hall hnode
    simpa only [isSome_ofNode?] using hfound
  have hsorted := (List.mergeSort_perm (entries.filterMap Found.ofNode?) Found.le).symm
  have hboth : Relation.Comp (List.Forall₂ (Describes tree path)) List.Perm
      (entries.filter namesSegment) (foundIn entries) := ⟨_, hlisted, hsorted⟩
  rwa [List.forall₂_comp_perm_eq_perm_comp_forall₂] at hboth

/-- The report on a directory is the same in whatever order entries are listed, there and
in all directories below.  Each real directory that is named after a segment is measured
along its own path and reported once, in the order of times, identifiers and sizes, and
what is evicted and the total hang on that order and on the limit alone. -/
theorem reports_ignore_listing_order {tree tree' : FileTree} (hnames : tree.root.WellNamed)
    (horder : tree.root.Reordered tree'.root) (path : String) (limit : Option Nat) :
    collect tree' path limit = collect tree path limit ∧
    ∀ u, collect tree path limit = .ok u →
      ∃ entries listed found, tree.entries? path = some entries ∧
        (entries.filter namesSegment).Perm listed ∧
        List.Forall₂ (Describes tree path) listed found ∧
        found.Pairwise (fun f g => f.key ≤ g.key) ∧
        u.segments = found.map (fun f => ⟨f.segment, f.bytes,
          (loadAll (limit.filter (0 < ·)) found).1.contains f.segment⟩) ∧
        u.total = (u.segments.map (·.bytes)).sum := by
  refine ⟨collect_reordered hnames horder path limit, ?_⟩
  intro u hcollect
  obtain ⟨entries, hentries, hall, rfl⟩ := collect_eq_ok hcollect
  obtain ⟨listed, hlisted, hdescribed⟩ := exists_described hnames hentries hall
  have hsegments := segments_ofEntries path limit entries
  refine ⟨entries, listed, foundIn entries, hentries, hlisted, hdescribed,
    foundIn_sorted entries, hsegments, ?_⟩
  rw [hsegments, List.map_map]
  rfl

def tied : FileTree :=
  ⟨.directory "" 0
    [.directory "00000000-0000-0000-0000-00000000000B" 1 [.file "a" 1, .file "b" 3],
      .directory "00000000-0000-0000-0000-00000000000b" 1
        [.directory "q" 0 [.file "a" 2, .link "b" ".."], .file "c" 4],
      .directory "00000000-0000-0000-0000-00000000000c" 2 [.file "a" 5],
      .directory "other" 0 [.file "a" 8], .link "00000000-0000-0000-0000-00000000000d" "other"]⟩

def tiedOtherwise : FileTree :=
  ⟨.directory "" 0
    [.link "00000000-0000-0000-0000-00000000000d" "other", .directory "other" 0 [.file "a" 8],
      .directory "00000000-0000-0000-0000-00000000000c" 2 [.file "a" 5],
      .directory "00000000-0000-0000-0000-00000000000b" 1
        [.file "c" 4, .directory "q" 0 [.link "b" "..", .file "a" 2]],
      .directory "00000000-0000-0000-0000-00000000000B" 1 [.file "b" 3, .file "a" 1]]⟩

theorem tied_reordered : tied.root.Reordered tiedOtherwise.root := by
  have hq : (Node.directory "q" 0 [.file "a" 2, .link "b" ".."]).Reordered
      (.directory "q" 0 [.link "b" "..", .file "a" 2]) :=
    .directory (List.forall₂_same.mpr fun n _ => .refl n) (.swap _ _ _)
  have hroot : List.Forall₂ Node.Reordered tied.root.children tiedOtherwise.root.children.reverse :=
    .cons (.directory (List.forall₂_same.mpr fun n _ => .refl n) (.swap _ _ _))
      (.cons (.directory (.cons hq (.cons (.refl _) .nil)) (.swap _ _ _))
        (List.forall₂_same.mpr fun n _ => .refl n))
  exact .directory hroot (List.reverse_perm _)

theorem tied_segments_are_reported_by_size :
    tied.root.WellNamed ∧ tied.root.Reordered tiedOtherwise.root ∧
      ∃ u, collect tiedOtherwise "/" (some 8) = .ok u ∧ u.total = 15 ∧
        u.segments = [⟨⟨.ofNat 11⟩, 4, true⟩, ⟨⟨.ofNat 11⟩, 6, true⟩, ⟨⟨.ofNat 12⟩, 5, false⟩] := by
  have hnames : tied.root.WellNamed := by decide +kernel
  obtain ⟨hsame, hreport⟩ := reports_ignore_listing_order hnames tied_reordered "/" (some 8)
  obtain ⟨entries, hentries, -, hfound, hcollect⟩ :=
    collect_of_found tied "/" [⟨1, ⟨.ofNat 11⟩, 4⟩, ⟨1, ⟨.ofNat 11⟩, 6⟩, ⟨2, ⟨.ofNat 12⟩, 5⟩]
      (by decide +kernel) (by decide +kernel) (by decide +kernel) (some 8)
  obtain ⟨-, -, -, -, -, -, -, -, htotal⟩ := hreport _ hcollect
  have hsegments : (ofEntries "/" (some 8) entries).segments =
      [⟨⟨.ofNat 11⟩, 4, true⟩, ⟨⟨.ofNat 11⟩, 6, true⟩, ⟨⟨.ofNat 12⟩, 5, false⟩] := by
    rw [segments_ofEntries, hfound]
    decide +kernel
  refine ⟨hnames, tied_reordered, _, hsame.trans hcollect, ?_, hsegments⟩
  rw [htotal, hsegments]
  rfl

end Usage

end SegmentManager
