import Mathlib.Algebra.BigOperators.Group.List.Basic
import Mathlib.Algebra.GroupWithZero.Nat
import Mathlib.Data.List.Forall2
import Mathlib.Data.List.Induction
import Mathlib.Data.Nat.Basic
import Mathlib.Order.Basic
import SegmentManager.Proofs.FileTree

/-!
# Listings in another order

A directory lists its entries in no particular order.  Two trees that differ in the
order of their listings only, at whatever depth, cannot be told apart along paths:
every path leads to the same place in both, and the nodes there differ in the order
of listings only.
-/

namespace SegmentManager

namespace Node

@[elab_as_elim]
theorem induction {motive : Node → Prop} (file : ∀ name bytes, motive (.file name bytes))
    (link : ∀ name target, motive (.link name target))
    (directory : ∀ name modified children, (∀ child ∈ children, motive child) →
      motive (.directory name modified children)) (node : Node) : motive node := by
  refine @Node.rec motive (fun nodes => ∀ child ∈ nodes, motive child) file link directory
    (by simp) ?_ node
  intro first rest hfirst hrest child hmem
  rcases List.mem_cons.mp hmem with rfl | hlater
  · exact hfirst
  · exact hrest child hlater

/-! ## Names -/

mutual

def nodes : Node → List Node
  | file name bytes => [file name bytes]
  | link name target => [link name target]
  | directory name modified children => directory name modified children :: nodesAll children

def nodesAll : List Node → List Node
  | [] => []
  | node :: rest => nodes node ++ nodesAll rest

end

/-- In every directory the entries have different names, and each name stands for an
entry and nothing else. -/
def WellNamed (node : Node) : Prop :=
  ∀ n ∈ node.nodes, (n.children.map name).Nodup ∧
    ∀ child ∈ n.children, FileTree.IsEntryName child.name

instance : DecidablePred WellNamed := fun node =>
  inferInstanceAs (Decidable (∀ n ∈ node.nodes, (n.children.map name).Nodup ∧
    ∀ child ∈ n.children, FileTree.IsEntryName child.name))

variable {node node' entry : Node} {first : String}

theorem isDirectory_of_mem (hentry : entry ∈ node.children) : node.isDirectory = true := by
  cases node with
  | file name bytes => cases hentry
  | link name target => cases hentry
  | directory name modified children => rfl

theorem eq_directory (h : node.isDirectory = true) :
    ∃ name modified children, node = directory name modified children := by
  cases node with
  | file name bytes => cases h
  | link name target => cases h
  | directory name modified children => exact ⟨name, modified, children, rfl⟩

theorem mem_nodes_self (node : Node) : node ∈ node.nodes := by
  cases node <;> simp [nodes]

theorem mem_nodesAll_iff {n : Node} {entries : List Node} :
    n ∈ nodesAll entries ↔ ∃ entry ∈ entries, n ∈ entry.nodes := by
  induction entries with
  | nil => simp [nodesAll]
  | cons first rest ih => simp [nodesAll, ih]

namespace WellNamed

theorem distinct (h : node.WellNamed) : (node.children.map name).Nodup :=
  (h node node.mem_nodes_self).1

theorem isEntryName (h : node.WellNamed) (hentry : entry ∈ node.children) :
    FileTree.IsEntryName entry.name :=
  (h node node.mem_nodes_self).2 entry hentry

theorem of_mem (h : node.WellNamed) (hentry : entry ∈ node.children) : entry.WellNamed := by
  intro n hn
  obtain ⟨name, modified, children, rfl⟩ := eq_directory (isDirectory_of_mem hentry)
  exact h n (List.mem_cons_of_mem _ (mem_nodesAll_iff.mpr ⟨entry, hentry, hn⟩))

theorem of_children (hdistinct : (node.children.map name).Nodup)
    (hentries : ∀ entry ∈ node.children, FileTree.IsEntryName entry.name ∧ entry.WellNamed) :
    node.WellNamed := by
  intro n hn
  have hself : n = node ∨ ∃ entry ∈ node.children, n ∈ entry.nodes := by
    cases node with
    | file name bytes => exact .inl (List.mem_singleton.mp hn)
    | link name target => exact .inl (List.mem_singleton.mp hn)
    | directory name modified children =>
        exact (List.mem_cons.mp hn).imp_right mem_nodesAll_iff.mp
  rcases hself with rfl | ⟨entry, hentry, hbelow⟩
  · exact ⟨hdistinct, fun entry hentry => (hentries entry hentry).1⟩
  · exact (hentries entry hentry).2 n hbelow

theorem child?_eq_some_iff (h : node.WellNamed) :
    node.child? first = some entry ↔ entry ∈ node.children ∧ entry.name = first := by
  constructor
  · intro hfind
    exact ⟨List.mem_of_find?_eq_some hfind, by simpa using List.find?_some hfind⟩
  · rintro ⟨hmem, rfl⟩
    exact child?_of_mem h.distinct hmem

end WellNamed

/-! ## The same tree in another order -/

/-- The same tree, with the entries of each directory in any order. -/
inductive Reordered : Node → Node → Prop
  | file (name : String) (bytes : Nat) : Reordered (file name bytes) (file name bytes)
  | link (name target : String) : Reordered (link name target) (link name target)
  | directory {name : String} {modified : Int} {children listed children' : List Node}
      (same : List.Forall₂ Reordered children listed) (order : listed.Perm children') :
      Reordered (directory name modified children) (directory name modified children')

/-- The same entries in any order, each of them reordered in turn. -/
def Relisted (entries entries' : List Node) : Prop :=
  ∃ listed, List.Forall₂ Reordered entries listed ∧ listed.Perm entries'

namespace Relisted

variable {entries entries' : List Node} {β : Type}

theorem map_perm (h : Relisted entries entries') {f : Node → β}
    (hf : ∀ a ∈ entries, ∀ b, Reordered a b → f a = f b) :
    (entries.map f).Perm (entries'.map f) := by
  obtain ⟨listed, hsame, horder⟩ := h
  have hmap : entries.map f = listed.map f := by
    clear horder
    induction hsame with
    | nil => rfl
    | cons hab _ ih =>
        rw [List.map_cons, List.map_cons, hf _ List.mem_cons_self _ hab,
          ih fun a ha => hf a (List.mem_cons_of_mem _ ha)]
  exact hmap ▸ horder.map f

theorem filterMap_perm (h : Relisted entries entries') {f : Node → Option β}
    (hf : ∀ a ∈ entries, ∀ b, Reordered a b → f a = f b) :
    (entries.filterMap f).Perm (entries'.filterMap f) := by
  have hperm := (h.map_perm hf).filterMap id
  rwa [List.filterMap_map, List.filterMap_map] at hperm

theorem forall_iff (h : Relisted entries entries') {p : Node → Prop}
    (hp : ∀ a ∈ entries, ∀ b, Reordered a b → (p a ↔ p b)) :
    (∀ a ∈ entries, p a) ↔ ∀ b ∈ entries', p b := by
  have hperm := h.map_perm fun a ha b hab => propext (hp a ha b hab)
  constructor
  · intro hall b hb
    obtain ⟨a, ha, heq⟩ := List.mem_map.mp (hperm.symm.subset (List.mem_map_of_mem hb))
    exact heq ▸ hall a ha
  · intro hall a ha
    obtain ⟨b, hb, heq⟩ := List.mem_map.mp (hperm.subset (List.mem_map_of_mem ha))
    exact heq ▸ hall b hb

theorem exists_of_mem (h : Relisted entries entries') (hentry : entry ∈ entries) :
    ∃ entry' ∈ entries', Reordered entry entry' := by
  obtain ⟨listed, hsame, horder⟩ := h
  have hlisted : ∃ entry' ∈ listed, Reordered entry entry' := by
    clear horder
    induction hsame with
    | nil => cases hentry
    | cons hab _ ih =>
        rcases List.mem_cons.mp hentry with rfl | hlater
        · exact ⟨_, List.mem_cons_self, hab⟩
        · obtain ⟨entry', hmem, hentry'⟩ := ih hlater
          exact ⟨entry', List.mem_cons_of_mem _ hmem, hentry'⟩
  obtain ⟨entry', hmem, hentry'⟩ := hlisted
  exact ⟨entry', horder.subset hmem, hentry'⟩

end Relisted

theorem filesBelowAll_eq_sum (nodes : List Node) :
    filesBelowAll nodes = (nodes.map filesBelow).sum :=
  filesBelowAll_eq nodes

theorem reachAll_le_iff {entries : List Node} {n : Nat} :
    reachAll entries ≤ n ↔
      ∀ entry ∈ entries, entry.isDirectory = true →
        1 + entry.name.utf8ByteSize + entry.reach ≤ n := by
  induction entries with
  | nil => simp [reachAll]
  | cons first rest ih =>
      rw [reachAll, Nat.max_le, ih, List.forall_mem_cons]
      cases first.isDirectory <;> simp

namespace Reordered

theorem refl (node : Node) : node.Reordered node := by
  induction node using Node.induction with
  | file name bytes => exact .file name bytes
  | link name target => exact .link name target
  | directory name modified children ih => exact .directory (List.forall₂_same.mpr ih) .rfl

theorem name_eq (h : Reordered node node') : node.name = node'.name := by
  cases h <;> rfl

theorem isDirectory_eq (h : Reordered node node') : node.isDirectory = node'.isDirectory := by
  cases h <;> rfl

theorem children (h : Reordered node node') : Relisted node.children node'.children := by
  cases h with
  | file name bytes => exact ⟨[], .nil, .nil⟩
  | link name target => exact ⟨[], .nil, .nil⟩
  | directory same order => exact ⟨_, same, order⟩

theorem filesBelow_eq (h : Reordered node node') : node.filesBelow = node'.filesBelow := by
  induction node using Node.induction generalizing node' with
  | file name bytes => cases h; rfl
  | link name target => cases h; rfl
  | directory name modified children ih =>
      cases h with
      | directory same order =>
          have hperm := Relisted.map_perm ⟨_, same, order⟩ fun a ha b hab => ih a ha hab
          simp only [filesBelow, filesBelowAll_eq_sum]
          exact hperm.sum_eq

theorem reach_eq (h : Reordered node node') : node.reach = node'.reach := by
  induction node using Node.induction generalizing node' with
  | file name bytes => cases h; rfl
  | link name target => cases h; rfl
  | directory name modified children ih =>
      cases h with
      | directory same order =>
          apply eq_of_forall_ge_iff
          intro n
          simp only [reach, reachAll_le_iff]
          refine Relisted.forall_iff ⟨_, same, order⟩ ?_
          intro a ha b hab
          rw [hab.isDirectory_eq, hab.name_eq, ih a ha hab]

theorem size_eq (h : Reordered node node') : node.size = node'.size := by
  unfold size
  rw [h.isDirectory_eq, h.filesBelow_eq]
  cases h <;> rfl

theorem reaches_eq (h : Reordered node node') (path : String) :
    FileTree.reaches path node = FileTree.reaches path node' := by
  unfold FileTree.reaches
  rw [h.reach_eq]

theorem child? (h : Reordered node node') (hnames : (node.children.map name).Nodup)
    (first : String) : Option.Rel Reordered (node.child? first) (node'.child? first) := by
  have hnames' : (node'.children.map name).Nodup :=
    (h.children.map_perm fun _ _ _ hab => hab.name_eq).nodup_iff.mp hnames
  cases hfind : node.child? first with
  | none =>
      have hnone : node'.child? first = none := by
        apply List.find?_eq_none.mpr
        refine (h.children.forall_iff ?_).mp (List.find?_eq_none.mp hfind)
        intro a ha b hab
        rw [hab.name_eq]
      rw [hnone]
      exact .none
  | some entry =>
      have hname : entry.name = first := by simpa using List.find?_some hfind
      obtain ⟨entry', hmem, hentry⟩ := h.children.exists_of_mem (List.mem_of_find?_eq_some hfind)
      have hfind' := child?_of_mem hnames' hmem
      rw [← hentry.name_eq, hname] at hfind'
      rw [hfind']
      exact .some hentry

end Reordered

end Node

namespace FileTree

open Node

variable {tree tree' : FileTree} {node : Node}

/-! ## Along names -/

theorem at?_append (tree : FileTree) (place names : List String) :
    tree.at? (place ++ names) = (tree.at? place).bind fun node => names.foldlM child? node := by
  unfold at?
  rw [List.foldlM_append]
  rfl

theorem wellNamed_of_at? (h : tree.root.WellNamed) {names : List String}
    (hnode : tree.at? names = some node) : node.WellNamed := by
  induction names using List.reverseRecOn generalizing node with
  | nil =>
      cases hnode
      exact h
  | append_singleton names first ih =>
      rw [at?_append] at hnode
      obtain ⟨parent, hparent, hchild⟩ := Option.bind_eq_some_iff.mp hnode
      have hchild' : parent.child? first = some node := by simpa using hchild
      exact (ih hparent).of_mem ((ih hparent).child?_eq_some_iff.mp hchild').1

section Reordered

variable (hnames : tree.root.WellNamed) (h : tree.root.Reordered tree'.root)
include hnames h

theorem at?_reordered (names : List String) :
    Option.Rel Reordered (tree.at? names) (tree'.at? names) := by
  induction names using List.reverseRecOn with
  | nil => exact .some h
  | append_singleton names first ih =>
      rw [at?_append, at?_append]
      generalize hnode : tree.at? names = found, tree'.at? names = found' at ih
      cases ih with
      | none => exact .none
      | some hrel => simpa using hrel.child? (wellNamed_of_at? hnames hnode).distinct first

theorem walkNames_reordered (followLast : Bool)
    (follow : List String → String → List String → Except IoKind (List String))
    (here names : List String) :
    tree'.walkNames followLast follow here names = tree.walkNames followLast follow here names := by
  induction names generalizing here with
  | nil => rfl
  | cons first rest ih =>
      have hhere := at?_reordered hnames h here
      unfold walkNames
      generalize hnode : tree.at? here = found, tree'.at? here = found' at hhere ⊢
      cases hhere with
      | none => rfl
      | @some node node' hrel =>
          have hchild := hrel.child? (wellNamed_of_at? hnames hnode).distinct first
          simp only [← hrel.isDirectory_eq, ih]
          generalize node.child? first = next, node'.child? first = next' at hchild ⊢
          cases hchild with
          | none => rfl
          | some hentry => cases hentry <;> rfl

theorem walk_reordered (followLast : Bool) (links : Nat) :
    tree'.walk followLast links = tree.walk followLast links := by
  induction links with
  | zero =>
      funext here names
      exact walkNames_reordered hnames h followLast _ here names
  | succ links ih =>
      funext here names
      unfold walk
      rw [ih]
      exact walkNames_reordered hnames h followLast _ here names

theorem resolve_reordered (path : String) (followLast : Bool) :
    tree'.resolve path followLast = tree.resolve path followLast := by
  unfold resolve
  rw [walk_reordered hnames h]

theorem lookup_reordered (path : String) (followLast : Bool) :
    (∃ kind, tree.lookup path followLast = .error kind ∧
      tree'.lookup path followLast = .error kind) ∨
    ∃ node node', tree.lookup path followLast = .ok node ∧
      tree'.lookup path followLast = .ok node' ∧ node.Reordered node' := by
  unfold lookup
  rw [resolve_reordered hnames h]
  cases hresolve : tree.resolve path followLast with
  | error kind => exact .inl ⟨kind, rfl, rfl⟩
  | ok place =>
      have hplace := at?_reordered hnames h place
      simp only [bind, Except.bind]
      generalize tree.at? place = found, tree'.at? place = found' at hplace ⊢
      cases hplace with
      | none => exact .inl ⟨.notFound, rfl, rfl⟩
      | some hrel => exact .inr ⟨_, _, rfl, rfl, hrel⟩

theorem sizeOf_reordered (path : String) : tree'.sizeOf path = tree.sizeOf path := by
  unfold sizeOf
  rcases lookup_reordered hnames h path false with ⟨kind, hnone, hnone'⟩ |
    ⟨node, node', hnode, hnode', hrel⟩
  · rw [hnone, hnone']
  · rw [hnode, hnode']
    simp only [hrel.reaches_eq path, hrel.size_eq]

theorem entries?_reordered (path : String) :
    Option.Rel Relisted (tree.entries? path) (tree'.entries? path) := by
  unfold entries?
  rcases lookup_reordered hnames h path true with ⟨kind, hnone, hnone'⟩ |
    ⟨node, node', hnode, hnode', hrel⟩
  · rw [hnone, hnone']
    exact .none
  · rw [hnode, hnode']
    cases hrel with
    | file name bytes => exact .none
    | link name target => exact .none
    | directory same order => exact .some ⟨_, same, order⟩

end Reordered

end FileTree

end SegmentManager
