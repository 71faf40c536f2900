import Mathlib.Logic.Relation
import SegmentManager.Proofs.FileTree.Order

/-!
# Walks along paths

A walk takes the names of a path one by one, and those of the links that it follows.
Each step leaves what the walk comes to as it is, so a path leads to where its walk ends.
Real directories are entered by their names alone, and what is below one has a path of
its own, as long as it is not too long.
-/

namespace SegmentManager

namespace Node

variable {node entry : Node} {first : String}

theorem isDirectory_of_child? (h : node.child? first = some entry) : node.isDirectory = true :=
  isDirectory_of_mem (List.mem_of_find?_eq_some h)

theorem WellNamed.isEntryName_of_child? (h : node.WellNamed)
    (hentry : node.child? first = some entry) : FileTree.IsEntryName first := by
  obtain ⟨hmem, rfl⟩ := h.child?_eq_some_iff.mp hentry
  exact h.isEntryName hmem

def isLink : Node → Bool
  | link .. => true
  | _ => false

theorem isLink_of_isDirectory (h : node.isDirectory = true) : node.isLink = false := by
  obtain ⟨name, modified, children, rfl⟩ := eq_directory h
  rfl

theorem reach_eq_reachAll (node : Node) : node.reach = reachAll node.children := by
  cases node <;> rfl

theorem reach_le_of_mem (hentry : entry ∈ node.children) (hdirectory : entry.isDirectory = true) :
    1 + entry.name.utf8ByteSize + entry.reach ≤ node.reach :=
  reachAll_le_iff.mp node.reach_eq_reachAll.ge entry hentry hdirectory

end Node

namespace FileTree

open Node

variable {tree : FileTree} {path : String} {place : List String} {node entry : Node}

/-! ## Walks in steps -/

structure Walker where
  links : Nat
  here : List String
  ahead : List String

variable {w w' : Walker}

/-- A step by the next name.  A link that is the last name stands for itself. -/
inductive Steps (tree : FileTree) : Walker → Walker → Prop
  | stay {links : Nat} {here rest : List String} {node : Node}
      (hhere : tree.at? here = some node) (hdirectory : node.isDirectory = true) :
      Steps tree ⟨links, here, "." :: rest⟩ ⟨links, here, rest⟩
  | up {links : Nat} {here rest : List String} {node : Node}
      (hhere : tree.at? here = some node) (hdirectory : node.isDirectory = true) :
      Steps tree ⟨links, here, ".." :: rest⟩ ⟨links, here.dropLast, rest⟩
  | enter {links : Nat} {here rest : List String} {first : String} {node entry : Node}
      (hhere : tree.at? here = some node) (hentry : node.child? first = some entry)
      (hlink : entry.isLink = false) :
      Steps tree ⟨links, here, first :: rest⟩ ⟨links, here ++ [first], rest⟩
  | follow {links : Nat} {here rest : List String} {first name target : String} {node : Node}
      (hhere : tree.at? here = some node) (hentry : node.child? first = some (.link name target))
      (hmore : rest ≠ []) :
      Steps tree ⟨links + 1, here, first :: rest⟩
        ⟨links, if isAbsolute target then [] else here, pathNames target ++ rest⟩

def Comes (tree : FileTree) (path : String) : Walker → Prop :=
  Relation.ReflTransGen tree.Steps ⟨maxLinks, startOf path, pathNames path⟩

theorem walk_eq_walkNames (tree : FileTree) (followLast : Bool) (links : Nat) :
    ∃ follow, tree.walk followLast links = tree.walkNames followLast follow := by
  cases links with
  | zero => exact ⟨_, rfl⟩
  | succ links => exact ⟨_, rfl⟩

theorem walk_of_step (hnames : tree.root.WellNamed) (h : tree.Steps w w') (followLast : Bool) :
    tree.walk followLast w.links w.here w.ahead =
      tree.walk followLast w'.links w'.here w'.ahead := by
  cases h with
  | @stay links here rest node hhere hdirectory =>
      obtain ⟨follow, hwalk⟩ := tree.walk_eq_walkNames followLast links
      simp [hwalk, walkNames, hhere, hdirectory]
  | @up links here rest node hhere hdirectory =>
      obtain ⟨follow, hwalk⟩ := tree.walk_eq_walkNames followLast links
      simp [hwalk, walkNames, hhere, hdirectory]
  | @enter links here rest first node entry hhere hentry hlink =>
      obtain ⟨follow, hwalk⟩ := tree.walk_eq_walkNames followLast links
      have hname := (wellNamed_of_at? hnames hhere).isEntryName_of_child? hentry
      simp only [hwalk, walkNames, hhere, isDirectory_of_child? hentry, hname.ne_here,
        hname.ne_up, Nat.not_lt.mpr hname.short, hentry, Bool.not_true, Bool.false_eq_true,
        if_false]
      cases entry with
      | file name bytes => rfl
      | link name target => cases hlink
      | directory name modified children => rfl
  | @follow links here rest first name target node hhere hentry hmore =>
      have hname := (wellNamed_of_at? hnames hhere).isEntryName_of_child? hentry
      simp only [walk, walkNames, hhere, isDirectory_of_child? hentry, hname.ne_here,
        hname.ne_up, Nat.not_lt.mpr hname.short, hentry, hmore, Bool.not_true, Bool.false_eq_true,
        if_false, false_and]

theorem walk_of_comes (hnames : tree.root.WellNamed) (h : tree.Comes path w)
    (followLast : Bool) :
    tree.walk followLast maxLinks (startOf path) (pathNames path) =
      tree.walk followLast w.links w.here w.ahead := by
  induction h with
  | refl => rfl
  | tail _ hstep ih => exact ih.trans (walk_of_step hnames hstep followLast)

structure IsPath (path : String) : Prop where
  nonempty : path ≠ ""
  plain : '\x00' ∉ path.toList
  short : path.utf8ByteSize ≤ maxPathBytes

theorem resolve_of_comes (hnames : tree.root.WellNamed) (hpath : IsPath path)
    (h : tree.Comes path w) (followLast : Bool) :
    tree.resolve path followLast = tree.walk followLast w.links w.here w.ahead := by
  unfold resolve
  rw [if_neg (by simpa using hpath.plain), if_neg (Nat.not_lt.mpr hpath.short),
    if_neg hpath.nonempty]
  exact walk_of_comes hnames h followLast

theorem walk_nil (tree : FileTree) (followLast : Bool) (links : Nat) (here : List String) :
    tree.walk followLast links here [] = .ok here := by
  obtain ⟨follow, hwalk⟩ := tree.walk_eq_walkNames followLast links
  rw [hwalk, walkNames]

/-! ## Paths that lead somewhere, and paths that do not -/

/-- A path leads to a real directory with no link on the way.  A walk that follows a link
has one fewer left in the end. -/
structure Names (tree : FileTree) (path : String) (place : List String) (node : Node) :
    Prop where
  isPath : IsPath path
  comes : tree.Comes path ⟨maxLinks, place, []⟩
  found : tree.at? place = some node
  isDirectory : node.isDirectory = true

/-- A path comes to a directory, through links or not, where nothing has the name that is
next on it. -/
def Misses (tree : FileTree) (path : String) : Prop :=
  IsPath path ∧ ∃ links here first rest node, tree.Comes path ⟨links, here, first :: rest⟩ ∧
    tree.at? here = some node ∧ node.isDirectory = true ∧ IsEntryName first ∧
    node.child? first = none

theorem Misses.lookup (hnames : tree.root.WellNamed) (h : tree.Misses path) :
    tree.lookup path false = .error .notFound := by
  obtain ⟨hpath, links, here, first, rest, node, hcomes, hhere, hdirectory, hname, hnone⟩ := h
  obtain ⟨follow, hwalk⟩ := tree.walk_eq_walkNames false links
  have hresolve : tree.resolve path false = .error .notFound := by
    rw [resolve_of_comes hnames hpath hcomes, hwalk]
    simp [walkNames, hhere, hdirectory, hname.ne_here, hname.ne_up, Nat.not_lt.mpr hname.short,
      hnone]
  simp [FileTree.lookup, hresolve, bind, Except.bind]

theorem Misses.sizeOf (hnames : tree.root.WellNamed) (h : tree.Misses path) :
    tree.sizeOf path = .ok 0 := by
  rw [FileTree.sizeOf, h.lookup hnames]

/-- A directory that a path leads to, whether or not links at its end are followed. -/
structure Stands (tree : FileTree) (path : String) (place : List String) (node : Node) :
    Prop where
  resolves : ∀ followLast, tree.resolve path followLast = .ok place
  found : tree.at? place = some node
  isDirectory : node.isDirectory = true

theorem Names.stands (hnames : tree.root.WellNamed) (h : tree.Names path place node) :
    tree.Stands path place node where
  resolves followLast := by rw [resolve_of_comes hnames h.isPath h.comes, walk_nil]
  found := h.found
  isDirectory := h.isDirectory

namespace Stands

theorem lookup (h : tree.Stands path place node) (followLast : Bool) :
    tree.lookup path followLast = .ok node := by
  simp [FileTree.lookup, h.resolves, h.found, bind, Except.bind]

theorem entries? (h : tree.Stands path place node) :
    tree.entries? path = some node.children := by
  obtain ⟨name, modified, children, rfl⟩ := eq_directory h.isDirectory
  unfold FileTree.entries?
  rw [h.lookup]
  rfl

theorem sizeOf (h : tree.Stands path place node) (hreaches : reaches path node = true) :
    tree.sizeOf path = .ok node.filesBelow := by
  simp [FileTree.sizeOf, h.lookup, hreaches, size, h.isDirectory]

theorem reaches_child (h : tree.Stands path place node) (hreaches : reaches path node = true)
    (hentry : entry ∈ node.children) (hdirectory : entry.isDirectory = true)
    (hname : IsName entry.name) :
    (join path entry.name).utf8ByteSize + entry.reach ≤ maxPathBytes := by
  have hpath := (resolve_eq_ok (h.resolves true)).1
  have hbelow := reach_le_of_mem hentry hdirectory
  have hsome : path.utf8ByteSize ≠ 0 := by simpa using hpath
  have hslash : "/".utf8ByteSize = 1 := rfl
  simp only [reaches, decide_eq_true_eq] at hreaches
  unfold join
  rw [if_neg (by simp [hpath, isAbsolute_of_isName hname])]
  cases hcloses : endsInSlash path with
  | true =>
      simp only [hcloses, if_true, String.utf8ByteSize_append] at hreaches ⊢
      omega
  | false =>
      simp only [hcloses, Bool.false_eq_true, if_false, String.utf8ByteSize_append] at hreaches ⊢
      omega

theorem child (hnames : tree.root.WellNamed) (h : tree.Stands path place node)
    (hreaches : reaches path node = true) (hentry : entry ∈ node.children)
    (hdirectory : entry.isDirectory = true) :
    tree.Stands (join path entry.name) (place ++ [entry.name]) entry ∧
      reaches (join path entry.name) entry = true := by
  have hnode := wellNamed_of_at? hnames h.found
  have hname := hnode.isEntryName hentry
  have hlists : tree.Lists place entry :=
    ⟨node, h.found, h.isDirectory, child?_of_mem hnode.distinct hentry, hdirectory⟩
  have hfits := h.reaches_child hreaches hentry hdirectory hname.isName
  have hopen := endsInSlash_join (resolve_eq_ok (h.resolves true)).1 hname.isName
  refine ⟨⟨?_, hlists.at?, hdirectory⟩, ?_⟩
  · exact resolve_entry (h.resolves true) hlists hname (by omega)
  · simpa [reaches, hopen] using hfits

end Stands

end FileTree

end SegmentManager
