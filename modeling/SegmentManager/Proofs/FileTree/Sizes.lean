import Mathlib.Algebra.Order.BigOperators.Group.List
import Mathlib.Algebra.Order.Group.Nat
import SegmentManager.Proofs.Cache.Uses
import SegmentManager.Proofs.FileTree.Walks

/-!
# Sizes of directories

A directory accounts for the regular files below it, each of them once, under the
names of the real directories that lead to it.  Links count nothing wherever they
lead.  Measuring goes from path to path, and since a path has an end it comes to one
too.
-/

namespace SegmentManager

namespace Node

variable {node entry : Node} {first : String} {names : List String} {bytes : Nat}

/-! ## Regular files -/

mutual

/-- The regular files of a node with their lengths, each under the names that lead to it. -/
def files : Node → List (List String × Nat)
  | file _ bytes => [([], bytes)]
  | link _ _ => []
  | directory _ _ children => filesAll children

def filesAll : List Node → List (List String × Nat)
  | [] => []
  | node :: rest => (files node).map (fun f => (node.name :: f.1, f.2)) ++ filesAll rest

end

theorem filesAll_eq_flatMap (entries : List Node) :
    filesAll entries = entries.flatMap fun e => e.files.map fun f => (e.name :: f.1, f.2) := by
  induction entries with
  | nil => rfl
  | cons first rest ih => rw [filesAll, ih, List.flatMap_cons]

theorem sum_files (node : Node) : (node.files.map (·.2)).sum = node.filesBelow := by
  induction node using Node.induction with
  | file name bytes => simp [files, filesBelow]
  | link name target => rfl
  | directory name modified children ih =>
      rw [files, filesBelow]
      induction children with
      | nil => rfl
      | cons first rest ihRest =>
          rw [filesAll, filesBelowAll, List.map_append, List.sum_append, List.map_map,
            ihRest fun child hchild => ih child (List.mem_cons_of_mem _ hchild)]
          exact congrArg (· + _) (ih first List.mem_cons_self)

theorem mem_files_iff (h : node.WellNamed) :
    (names, bytes) ∈ node.files ↔ ∃ name, names.foldlM child? node = some (file name bytes) := by
  induction node using Node.induction generalizing names with
  | file name length =>
      cases names with
      | nil => simp [files, eq_comm]
      | cons first rest => simp [files, child?, children]
  | link name target =>
      cases names with
      | nil => simp [files]
      | cons first rest => simp [files, child?, children]
  | directory name modified children ih =>
      rw [files, filesAll_eq_flatMap]
      cases names with
      | nil => simp
      | cons first rest =>
          have hfound : ∀ name, (first :: rest).foldlM child? (directory name modified children) =
              ((directory name modified children).child? first).bind fun e =>
                rest.foldlM child? e := fun name => List.foldlM_cons
          simp only [hfound, Option.bind_eq_some_iff, h.child?_eq_some_iff, List.mem_flatMap,
            List.mem_map, Prod.mk.injEq, List.cons.injEq]
          constructor
          · rintro ⟨e, he, ⟨names, length⟩, hf, ⟨rfl, rfl⟩, rfl⟩
            obtain ⟨name, hname⟩ := (ih e he (h.of_mem he)).mp hf
            exact ⟨name, e, ⟨he, rfl⟩, hname⟩
          · rintro ⟨name, e, ⟨he, rfl⟩, hname⟩
            exact ⟨e, he, (rest, bytes), (ih e he (h.of_mem he)).mpr ⟨name, hname⟩, ⟨rfl, rfl⟩, rfl⟩

theorem nodup_files (h : node.WellNamed) : (node.files.map (·.1)).Nodup := by
  induction node using Node.induction with
  | file name bytes => simp [files]
  | link name target => simp [files]
  | directory name modified children ih =>
      have hdistinct := h.distinct
      rw [List.Nodup, List.pairwise_map] at hdistinct
      rw [files, filesAll_eq_flatMap, List.map_flatMap, List.nodup_flatMap]
      constructor
      · intro e he
        rw [List.map_map]
        have hbelow := (ih e he (h.of_mem he)).map (List.cons_injective (a := e.name))
        rwa [List.map_map] at hbelow
      · refine hdistinct.imp ?_
        intro a b hne names ha hb
        simp only [List.map_map, List.mem_map, Function.comp_apply] at ha hb
        obtain ⟨f, -, rfl⟩ := ha
        obtain ⟨g, -, hg⟩ := hb
        exact hne (List.cons.inj hg).1.symm

def bytes? : Node → Option Nat
  | file _ bytes => some bytes
  | _ => none

theorem filesBelowAll_eq_directories_add_files (entries : List Node) :
    filesBelowAll entries =
      ((entries.filter isDirectory).map filesBelow).sum + (entries.filterMap bytes?).sum := by
  induction entries with
  | nil => rfl
  | cons first rest ih =>
      rw [filesBelowAll, ih]
      cases first with
      | file name bytes =>
          rw [List.filterMap_cons_some (f := bytes?) rfl,
            List.filter_cons_of_neg (by simp [isDirectory]), List.sum_cons, filesBelow]
          omega
      | link name target =>
          rw [List.filterMap_cons_none (f := bytes?) rfl,
            List.filter_cons_of_neg (by simp [isDirectory]), filesBelow]
          omega
      | directory name modified children =>
          rw [List.filterMap_cons_none (f := bytes?) rfl,
            List.filter_cons_of_pos (by simp [isDirectory]), List.map_cons, List.sum_cons]
          omega

theorem filesBelow_of_isDirectory (h : node.isDirectory = true) :
    node.filesBelow = filesBelowAll node.children := by
  obtain ⟨name, modified, children, rfl⟩ := eq_directory h
  rfl

theorem filesBelow_le_of_mem (hentry : entry ∈ node.children) :
    entry.filesBelow ≤ node.filesBelow := by
  rw [filesBelow_of_isDirectory (isDirectory_of_mem hentry), filesBelowAll_eq_sum]
  exact List.le_sum_of_mem (List.mem_map_of_mem hentry)

/-! ## Links left out -/

mutual

def withoutLinks : Node → Node
  | directory name modified children => directory name modified (withoutLinksAll children)
  | node => node

def withoutLinksAll : List Node → List Node
  | [] => []
  | node :: rest =>
      if node.isLink then withoutLinksAll rest else withoutLinks node :: withoutLinksAll rest

end

@[simp] theorem name_withoutLinks (node : Node) : node.withoutLinks.name = node.name := by
  cases node <;> rfl

@[simp] theorem isLink_withoutLinks (node : Node) : node.withoutLinks.isLink = node.isLink := by
  cases node <;> rfl

@[simp] theorem isDirectory_withoutLinks (node : Node) :
    node.withoutLinks.isDirectory = node.isDirectory := by
  cases node <;> rfl

theorem withoutLinksAll_eq (entries : List Node) :
    withoutLinksAll entries = (entries.filter (!·.isLink)).map withoutLinks := by
  induction entries with
  | nil => rfl
  | cons first rest ih =>
      rw [withoutLinksAll, ih]
      cases hlink : first.isLink <;> simp [hlink]

theorem filesBelow_of_isLink (h : node.isLink = true) : node.filesBelow = 0 := by
  cases node with
  | file name bytes => cases h
  | link name target => rfl
  | directory name modified children => cases h

theorem filesBelow_withoutLinks (node : Node) :
    node.withoutLinks.filesBelow = node.filesBelow := by
  induction node using Node.induction with
  | file name bytes => rfl
  | link name target => rfl
  | directory name modified children ih =>
      rw [withoutLinks, filesBelow, filesBelow]
      induction children with
      | nil => rfl
      | cons first rest ihRest =>
          have hrest := ihRest fun child hchild => ih child (List.mem_cons_of_mem _ hchild)
          have hfirst := ih first List.mem_cons_self
          cases hlink : first.isLink with
          | false => simp [withoutLinksAll, hlink, filesBelowAll, hfirst, hrest]
          | true =>
              have hnone := filesBelow_of_isLink hlink
              simp [withoutLinksAll, hlink, filesBelowAll, hnone, hrest]

theorem reach_withoutLinks (node : Node) : node.withoutLinks.reach = node.reach := by
  induction node using Node.induction with
  | file name bytes => rfl
  | link name target => rfl
  | directory name modified children ih =>
      apply eq_of_forall_ge_iff
      intro n
      simp only [withoutLinks, reach, reachAll_le_iff, withoutLinksAll_eq, List.forall_mem_map,
        List.mem_filter, isDirectory_withoutLinks, name_withoutLinks]
      constructor
      · intro hall child hchild hdirectory
        have hlink := isLink_of_isDirectory hdirectory
        have hle := hall child ⟨hchild, by simp [hlink]⟩ hdirectory
        rwa [ih child hchild] at hle
      · rintro hall child ⟨hchild, -⟩ hdirectory
        rw [ih child hchild]
        exact hall child hchild hdirectory

theorem children_withoutLinks (node : Node) :
    node.withoutLinks.children = (node.children.filter (!·.isLink)).map withoutLinks := by
  cases node with
  | file name bytes => rfl
  | link name target => rfl
  | directory name modified children => exact withoutLinksAll_eq children

theorem WellNamed.withoutLinks (h : node.WellNamed) : node.withoutLinks.WellNamed := by
  induction node using Node.induction with
  | file name bytes => exact h
  | link name target => exact h
  | directory name modified children ih =>
      refine .of_children ?_ ?_
      · rw [children_withoutLinks, List.map_map]
        have hnames : Node.name ∘ Node.withoutLinks = Node.name := funext name_withoutLinks
        rw [hnames]
        exact h.distinct.sublist (List.filter_sublist.map _)
      · intro entry hentry
        rw [children_withoutLinks] at hentry
        obtain ⟨child, hchild, rfl⟩ := List.mem_map.mp hentry
        have hmem := List.mem_of_mem_filter hchild
        rw [name_withoutLinks]
        exact ⟨h.isEntryName hmem, ih child hmem (h.of_mem hmem)⟩

theorem WellNamed.child?_withoutLinks (h : node.WellNamed)
    (hentry : node.child? first = some entry) (hlink : entry.isLink = false) :
    node.withoutLinks.child? first = some entry.withoutLinks := by
  obtain ⟨hmem, hname⟩ := h.child?_eq_some_iff.mp hentry
  rw [h.withoutLinks.child?_eq_some_iff, children_withoutLinks, name_withoutLinks]
  exact ⟨List.mem_map_of_mem (List.mem_filter.mpr ⟨hmem, by simp [hlink]⟩), hname⟩

end Node

namespace FileTree

open Node

variable {tree : FileTree} {path : String} {place : List String} {node entry : Node}

/-! ## From path to path -/

def addBytes? (measure? : String → Option Nat) (path : String) (total : Nat) :
    Node → Option Nat
  | .directory name _ _ => (measure? (join path name)).bind (RecencyCache.plus? total)
  | .file _ bytes => RecencyCache.plus? total bytes
  | .link .. => some total

/-- Measures a path by looking up what is there and going on along the paths of its
entries, at most to a given depth.  There is no result if a path cannot be read or the
depth or a total does not suffice. -/
def measure? (tree : FileTree) : Nat → String → Option Nat
  | 0, _ => none
  | depth + 1, path =>
      match tree.lookup path false with
      | .error .notFound => some 0
      | .error _ => none
      | .ok node =>
          if node.isDirectory then
            (tree.entries? path).bind (·.foldlM (addBytes? (measure? tree depth) path) 0)
          else some node.ownLength

theorem foldlM_addBytes? {measure? : String → Option Nat} {entries : List Node} {total : Nat}
    (hmeasure : ∀ entry ∈ entries, entry.isDirectory = true →
      measure? (join path entry.name) = some entry.filesBelow)
    (hroom : total + filesBelowAll entries < 2 ^ 64) :
    entries.foldlM (addBytes? measure? path) total = some (total + filesBelowAll entries) := by
  induction entries generalizing total with
  | nil => rfl
  | cons first rest ih =>
      rw [filesBelowAll] at hroom ⊢
      have hplus : RecencyCache.plus? total first.filesBelow = some (total + first.filesBelow) :=
        if_pos (by omega)
      have hfirst : addBytes? measure? path total first = some (total + first.filesBelow) := by
        cases first with
        | file name bytes => exact hplus
        | link name target => rfl
        | directory name modified children =>
            have hbelow := hmeasure _ List.mem_cons_self rfl
            simp only [Node.name] at hbelow
            rw [addBytes?, hbelow]
            exact hplus
      rw [List.foldlM_cons, hfirst]
      have hrest : rest.foldlM (addBytes? measure? path) (total + first.filesBelow) =
          some (total + first.filesBelow + filesBelowAll rest) :=
        ih (fun entry hentry => hmeasure entry (List.mem_cons_of_mem _ hentry)) (by omega)
      rw [← Nat.add_assoc]
      exact hrest

theorem measure?_of_misses (hnames : tree.root.WellNamed) (h : tree.Misses path) {depth : Nat}
    (hdepth : 0 < depth) : tree.measure? depth path = some 0 := by
  obtain ⟨depth, rfl⟩ := Nat.exists_eq_succ_of_ne_zero hdepth.ne'
  rw [measure?, h.lookup hnames]

/-- The depth suffices if it is above what the directories below add to the path, since
each of them adds something. -/
theorem Stands.measure? (hnames : tree.root.WellNamed) (h : tree.Stands path place node)
    (hreaches : reaches path node = true) (hroom : node.filesBelow < 2 ^ 64) {depth : Nat}
    (hdepth : node.reach < depth) : tree.measure? depth path = some node.filesBelow := by
  induction depth generalizing path place node with
  | zero => exact (Nat.not_lt_zero _ hdepth).elim
  | succ depth ih =>
      rw [FileTree.measure?, h.lookup, h.entries?]
      simp only [h.isDirectory, if_true, Option.bind_some]
      have hsum := filesBelow_of_isDirectory h.isDirectory
      rw [foldlM_addBytes? ?_ (by omega), Nat.zero_add, hsum]
      intro entry hentry hdirectory
      obtain ⟨hstands, hbelow⟩ := h.child hnames hreaches hentry hdirectory
      have hless := filesBelow_le_of_mem hentry
      have hcloser := reach_le_of_mem hentry hdirectory
      exact ih hstands hbelow (by omega) (by omega)

/-! ## Without links -/

def withoutLinks (tree : FileTree) : FileTree := ⟨tree.root.withoutLinks⟩

theorem at?_withoutLinks (hnames : tree.root.WellNamed) (hnode : tree.at? place = some node)
    (hlink : node.isLink = false) : tree.withoutLinks.at? place = some node.withoutLinks := by
  induction place using List.reverseRecOn generalizing node with
  | nil =>
      cases hnode
      rfl
  | append_singleton place first ih =>
      rw [at?_append] at hnode
      obtain ⟨parent, hparent, hchild⟩ := Option.bind_eq_some_iff.mp hnode
      have hentry : parent.child? first = some node := by simpa using hchild
      have hparentLink := isLink_of_isDirectory (isDirectory_of_child? hentry)
      have hfound := (wellNamed_of_at? hnames hparent).child?_withoutLinks hentry hlink
      rw [at?_append, ih hparent hparentLink]
      simpa using hfound

theorem links_le_of_step (h : tree.Steps w w') : w'.links ≤ w.links := by
  cases h with
  | stay hhere hdirectory => exact Nat.le_refl _
  | up hhere hdirectory => exact Nat.le_refl _
  | enter hhere hentry hlink => exact Nat.le_refl _
  | follow hhere hentry hmore => exact Nat.le_succ _

theorem step_withoutLinks (hnames : tree.root.WellNamed) (h : tree.Steps w w')
    (hlinks : w'.links = w.links) : tree.withoutLinks.Steps w w' := by
  cases h with
  | stay hhere hdirectory =>
      exact .stay (at?_withoutLinks hnames hhere (isLink_of_isDirectory hdirectory))
        (by simpa using hdirectory)
  | up hhere hdirectory =>
      exact .up (at?_withoutLinks hnames hhere (isLink_of_isDirectory hdirectory))
        (by simpa using hdirectory)
  | enter hhere hentry hlink =>
      have hdirectory := isLink_of_isDirectory (isDirectory_of_child? hentry)
      exact .enter (at?_withoutLinks hnames hhere hdirectory)
        ((wellNamed_of_at? hnames hhere).child?_withoutLinks hentry hlink) (by simpa using hlink)
  | follow hhere hentry hmore => exact (Nat.succ_ne_self _ hlinks.symm).elim

theorem comes_withoutLinks (hnames : tree.root.WellNamed) (h : tree.Comes path w) :
    w.links ≤ maxLinks ∧ (w.links = maxLinks → tree.withoutLinks.Comes path w) := by
  -- Links only ever get fewer, so a walk that has them all has followed none of them.
  induction h with
  | refl => exact ⟨Nat.le_refl _, fun _ => .refl⟩
  | tail _ hstep ih =>
      obtain ⟨hle, hcomes⟩ := ih
      have hfewer := links_le_of_step hstep
      refine ⟨hfewer.trans hle, ?_⟩
      intro hall
      exact .tail (hcomes (by omega)) (step_withoutLinks hnames hstep (by omega))

theorem Names.withoutLinks (hnames : tree.root.WellNamed) (h : tree.Names path place node) :
    tree.withoutLinks.Names path place node.withoutLinks where
  isPath := h.isPath
  comes := (comes_withoutLinks hnames h.comes).2 rfl
  found := at?_withoutLinks hnames h.found (isLink_of_isDirectory h.isDirectory)
  isDirectory := by simpa using h.isDirectory

theorem Names.sizeOf_withoutLinks (hnames : tree.root.WellNamed)
    (h : tree.Names path place node) (hreaches : reaches path node = true) :
    tree.withoutLinks.sizeOf path = tree.sizeOf path := by
  have hnames' : tree.withoutLinks.root.WellNamed := hnames.withoutLinks
  have hreaches' : reaches path node.withoutLinks = true := by
    rwa [reaches, reach_withoutLinks]
  rw [((h.withoutLinks hnames).stands hnames').sizeOf hreaches', filesBelow_withoutLinks,
    (h.stands hnames).sizeOf hreaches]

/-! ## The flat sum -/

/-- What is measured at a place: its files under the names that lead to them from there,
each of them once. -/
def FilesAt (tree : FileTree) (place : List String) (files : List (List String × Nat)) : Prop :=
  (files.map (·.1)).Nodup ∧ ∀ names bytes,
    (names, bytes) ∈ files ↔ ∃ name, tree.at? (place ++ names) = some (.file name bytes)

theorem filesAt_of_at? (hnames : tree.root.WellNamed) (hnode : tree.at? place = some node) :
    tree.FilesAt place node.files := by
  have hnode' := wellNamed_of_at? hnames hnode
  refine ⟨nodup_files hnode', ?_⟩
  intro names bytes
  rw [mem_files_iff hnode', at?_append, hnode, Option.bind_some]

theorem Stands.children (hnames : tree.root.WellNamed) (h : tree.Stands path place node)
    (hreaches : reaches path node = true) :
    List.Forall₂ (fun entry size => tree.sizeOf (join path entry.name) = .ok size)
      (node.children.filter (·.isDirectory))
      ((node.children.filter (·.isDirectory)).map filesBelow) := by
  rw [List.forall₂_map_right_iff, List.forall₂_same]
  intro entry hentry
  obtain ⟨hmem, hdirectory⟩ := List.mem_filter.mp hentry
  obtain ⟨hstands, hbelow⟩ := h.child hnames hreaches hmem hdirectory
  exact hstands.sizeOf hbelow

/-- A path without links to a directory, with no path below it too long, accounts for the flat
sum of the regular files that real directories lead to from there.  It does so whichever
way it is measured: from path to path, with the links in the tree or without them, from
the directories in this one and its own files.  No path's size hangs on the order of
listings, and one that misses what it names has none. -/
theorem directory_sizes_are_flat_sums (tree : FileTree) (hnames : tree.root.WellNamed) :
    (∀ path place node, tree.Names path place node → reaches path node = true →
      ∃ files total, tree.FilesAt place files ∧ total = (files.map (·.2)).sum ∧
        tree.sizeOf path = .ok total ∧
        (total < 2 ^ 64 → ∀ depth > maxPathBytes, tree.measure? depth path = some total) ∧
        tree.withoutLinks.sizeOf path = .ok total ∧
        ∃ sizes, List.Forall₂ (fun entry size => tree.sizeOf (join path entry.name) = .ok size)
            (node.children.filter (·.isDirectory)) sizes ∧
          total = sizes.sum + (node.children.filterMap bytes?).sum) ∧
    (∀ tree' : FileTree, tree.root.Reordered tree'.root →
      ∀ path, tree'.sizeOf path = tree.sizeOf path) ∧
    ∀ path, tree.Misses path → tree.sizeOf path = .ok 0 ∧
      ∀ depth > 0, tree.measure? depth path = some 0 := by
  refine ⟨?_, ?_, ?_⟩
  · intro path place node hpath hreaches
    have hstands := hpath.stands hnames
    have hsize := hstands.sizeOf hreaches
    have hdepth : node.reach ≤ maxPathBytes := by
      simp only [reaches, decide_eq_true_eq] at hreaches
      omega
    refine ⟨node.files, node.filesBelow, filesAt_of_at? hnames hpath.found, (sum_files node).symm,
      hsize, ?_, (hpath.sizeOf_withoutLinks hnames hreaches).trans hsize, _,
      hstands.children hnames hreaches, ?_⟩
    · intro hroom depth hdeep
      exact hstands.measure? hnames hreaches hroom (hdepth.trans_lt hdeep)
    · rw [filesBelow_of_isDirectory hpath.isDirectory, filesBelowAll_eq_directories_add_files]
  · intro tree' horder path
    exact sizeOf_reordered hnames horder path
  · intro path hmisses
    exact ⟨hmisses.sizeOf hnames, fun depth hdepth => measure?_of_misses hnames hmisses hdepth⟩

/-- A directory whose links lead to what is above it, to a file and to the top. -/
def tangled : FileTree :=
  ⟨.directory "" 0
    [.directory "p" 0
      [.file "a" 5, .link "up" "..",
        .directory "q" 0 [.file "a" 7, .link "top" "/", .link "s" "../../s"]],
    .file "s" 100]⟩

def tangledOtherwise : FileTree :=
  ⟨.directory "" 0
    [.file "s" 100,
    .directory "p" 0
      [.directory "q" 0 [.link "top" "/", .file "a" 7, .link "s" "../../s"],
        .link "up" "..", .file "a" 5]]⟩

theorem tangled_reordered : tangled.root.Reordered tangledOtherwise.root := by
  have hq : (Node.directory "q" 0 [.file "a" 7, .link "top" "/", .link "s" "../../s"]).Reordered
      (.directory "q" 0 [.link "top" "/", .file "a" 7, .link "s" "../../s"]) :=
    .directory (List.forall₂_same.mpr fun n _ => .refl n) (.swap _ _ _)
  have hp : (Node.directory "p" 0 [.file "a" 5, .link "up" "..",
        .directory "q" 0 [.file "a" 7, .link "top" "/", .link "s" "../../s"]]).Reordered
      (.directory "p" 0 [.directory "q" 0 [.link "top" "/", .file "a" 7, .link "s" "../../s"],
        .link "up" "..", .file "a" 5]) :=
    .directory (.cons (.refl _) (.cons (.refl _) (.cons hq .nil))) (List.reverse_perm _).symm
  exact .directory (.cons hp (.cons (.refl _) .nil)) (.swap _ _ _)

theorem tangled_directory_has_twelve :
    tangled.root.WellNamed ∧ tangled.root.Reordered tangledOtherwise.root ∧
      (∃ node, tangled.Names "/p" ["p"] node ∧ reaches "/p" node = true) ∧
      tangled.Misses "/p/up/r/a" ∧
      (∃ files, tangled.FilesAt ["p"] files ∧ (files.map (·.2)).sum = 12) ∧
      (∀ depth > maxPathBytes, tangled.measure? depth "/p" = some 12) ∧
      tangled.withoutLinks.sizeOf "/p" = .ok 12 ∧ tangledOtherwise.sizeOf "/p" = .ok 12 ∧
      tangled.sizeOf "/p/up/r/a" = .ok 0 := by
  have hnames : tangled.root.WellNamed := by decide +kernel
  obtain ⟨hsums, horder, hmissed⟩ := directory_sizes_are_flat_sums tangled hnames
  have hdirect : tangled.Comes "/p" ⟨maxLinks, ["p"], []⟩ := by
    have hstart : startOf "/p" = [] := by decide +kernel
    have hahead : pathNames "/p" = ["p"] := by decide +kernel
    unfold Comes
    rw [hstart, hahead]
    exact .single (.enter rfl rfl rfl)
  have hcyclic : tangled.Comes "/p/up/r/a" ⟨39, [], ["r", "a"]⟩ := by
    have hstart : startOf "/p/up/r/a" = [] := by decide +kernel
    have hahead : pathNames "/p/up/r/a" = ["p", "up", "r", "a"] := by decide +kernel
    have htarget : pathNames ".." = [".."] := by decide +kernel
    have hrelative : isAbsolute ".." = false := by decide +kernel
    have hfollow : tangled.Steps ⟨40, ["p"], ["up", "r", "a"]⟩
        ⟨39, if isAbsolute ".." then [] else ["p"], pathNames ".." ++ ["r", "a"]⟩ :=
      .follow rfl rfl (by simp)
    rw [htarget, hrelative] at hfollow
    unfold Comes
    rw [hstart, hahead]
    exact .tail (.tail (.single (.enter rfl rfl rfl)) hfollow) (.up rfl rfl)
  have hpath : IsPath "/p" := ⟨by decide, by decide +kernel, by decide +kernel⟩
  have hlonger : IsPath "/p/up/r/a" := ⟨by decide, by decide +kernel, by decide +kernel⟩
  have hname : IsEntryName "r" := by decide +kernel
  have hnamed : tangled.Names "/p" ["p"] _ := ⟨hpath, hdirect, rfl, rfl⟩
  have hmisses : tangled.Misses "/p/up/r/a" :=
    ⟨hlonger, 39, [], "r", ["a"], _, hcyclic, rfl, rfl, hname, rfl⟩
  obtain ⟨files, total, hfiles, hsum, hsize, hmeasure, hlinkless, -⟩ :=
    hsums "/p" ["p"] _ hnamed (by decide +kernel)
  have htwelve : tangled.sizeOf "/p" = .ok 12 := by decide +kernel
  obtain rfl : total = 12 := Except.ok.inj (hsize.symm.trans htwelve)
  exact ⟨hnames, tangled_reordered, ⟨_, hnamed, by decide +kernel⟩, hmisses,
    ⟨files, hfiles, hsum.symm⟩, hmeasure (by decide), hlinkless,
    (horder tangledOtherwise tangled_reordered "/p").trans htwelve, (hmissed _ hmisses).1⟩

end FileTree

end SegmentManager
