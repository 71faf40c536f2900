import Mathlib.Data.List.Nodup
import SegmentManager.FileTree.Path

/-!
# Entries along a path

A path leads to a directory, through links or not, and its entries are found
along longer paths.  Going on by the name of an entry that is itself a directory
leads to that entry.
-/

namespace SegmentManager

theorem Node.child?_of_mem {node child : Node} (hnames : (node.children.map (·.name)).Nodup)
    (hchild : child ∈ node.children) : node.child? child.name = some child := by
  unfold child?
  cases hfind : node.children.find? (·.name == child.name) with
  | none =>
      have hall := List.find?_eq_none.mp hfind child hchild
      simp at hall
  | some other =>
      have hname : other.name = child.name := by simpa using List.find?_some hfind
      rw [List.inj_on_of_nodup_map hnames (List.mem_of_find?_eq_some hfind) hchild hname]

namespace FileTree

structure IsEntryName (name : String) : Prop where
  isName : IsName name
  plain : '\x00' ∉ name.toList
  ne_here : name ≠ "."
  ne_up : name ≠ ".."
  short : name.utf8ByteSize ≤ maxNameBytes

instance : DecidablePred IsName := fun name =>
  inferInstanceAs (Decidable (name ≠ "" ∧ '/' ∉ name.toList))

instance : DecidablePred IsEntryName := fun name =>
  decidable_of_iff
    (IsName name ∧ '\x00' ∉ name.toList ∧ name ≠ "." ∧ name ≠ ".." ∧
      name.utf8ByteSize ≤ maxNameBytes)
    ⟨fun ⟨isName, plain, ne_here, ne_up, short⟩ => ⟨isName, plain, ne_here, ne_up, short⟩,
      fun h => ⟨h.isName, h.plain, h.ne_here, h.ne_up, h.short⟩⟩

/-- A directory stands in the directory at a place, under its own name. -/
def Lists (tree : FileTree) (place : List String) (child : Node) : Prop :=
  ∃ node, tree.at? place = some node ∧ node.isDirectory = true ∧
    node.child? child.name = some child ∧ child.isDirectory = true

variable {tree : FileTree} {place : List String} {child : Node}

theorem Lists.at? (h : tree.Lists place child) : tree.at? (place ++ [child.name]) = some child := by
  obtain ⟨node, hnode, -, hchild, -⟩ := h
  unfold FileTree.at? at hnode ⊢
  rw [List.foldlM_append, hnode]
  simpa using hchild

/-! ## Walking on -/

section Walk

variable {follow follow' : List String → String → List String → Except IoKind (List String)}

inductive Onward (tree : FileTree) (here : List String) (name : String) : Prop
  | stops (kind : IoKind) (h : ∀ followLast follow rest, rest ≠ [] ∨ followLast = true →
      tree.walkNames followLast follow here (name :: rest) = .error kind)
  | moves (next : List String) (h : ∀ followLast follow rest, rest ≠ [] ∨ followLast = true →
      tree.walkNames followLast follow here (name :: rest) =
        tree.walkNames followLast follow next rest)
  | follows (target : String) (h : ∀ followLast follow rest, rest ≠ [] ∨ followLast = true →
      tree.walkNames followLast follow here (name :: rest) = follow here target rest)

theorem onward (tree : FileTree) (here : List String) (name : String) :
    tree.Onward here name := by
  cases hnode : tree.at? here with
  | none =>
      refine .stops .notFound ?_
      intro followLast follow rest hrest
      simp only [walkNames, hnode]
  | some node =>
      cases hdirectory : node.isDirectory with
      | false =>
          refine .stops .notADirectory ?_
          intro followLast follow rest hrest
          simp [walkNames, hnode, hdirectory]
      | true =>
          by_cases hhere : name = "."
          · refine .moves here ?_
            intro followLast follow rest hrest
            simp [walkNames, hnode, hdirectory, hhere]
          by_cases hup : name = ".."
          · refine .moves here.dropLast ?_
            intro followLast follow rest hrest
            simp [walkNames, hnode, hdirectory, hup]
          by_cases hlong : name.utf8ByteSize > maxNameBytes
          · refine .stops .invalidFilename ?_
            intro followLast follow rest hrest
            simp [walkNames, hnode, hdirectory, hhere, hup, hlong]
          cases hnext : node.child? name with
          | none =>
              refine .stops .notFound ?_
              intro followLast follow rest hrest
              simp [walkNames, hnode, hdirectory, hhere, hup, hlong, hnext]
          | some next =>
              cases next with
              | link other target =>
                  refine .follows target ?_
                  intro followLast follow rest hrest
                  rcases hrest with hmore | rfl
                  · simp [walkNames, hnode, hdirectory, hhere, hup, hlong, hnext, hmore]
                  · simp [walkNames, hnode, hdirectory, hhere, hup, hlong, hnext]
              | file other bytes =>
                  refine .moves (here ++ [name]) ?_
                  intro followLast follow rest hrest
                  simp [walkNames, hnode, hdirectory, hhere, hup, hlong, hnext]
              | directory other modified children =>
                  refine .moves (here ++ [name]) ?_
                  intro followLast follow rest hrest
                  simp [walkNames, hnode, hdirectory, hhere, hup, hlong, hnext]

theorem walkNames_child (h : tree.Lists place child) (hname : IsEntryName child.name)
    (followLast : Bool) :
    tree.walkNames followLast follow place [child.name] = .ok (place ++ [child.name]) := by
  obtain ⟨node, hnode, hdirectory, hchild, hentry⟩ := h
  simp only [walkNames, hnode, hdirectory, hname.ne_here, hname.ne_up, hchild, Bool.not_true,
    Bool.false_eq_true, if_false, Nat.not_lt.mpr hname.short]
  cases child with
  | file name bytes => cases hentry
  | link name target => cases hentry
  | directory name modified children => rfl

theorem eq_of_walkNames_tail {tail here : List String} (htail : tail = [] ∨ tail = ["."])
    (hwalk : tree.walkNames true follow here tail = .ok place) : here = place := by
  rcases htail with rfl | rfl
  · exact Except.ok.inj hwalk
  · unfold walkNames at hwalk
    cases hnode : tree.at? here with
    | none => simp [hnode] at hwalk
    | some node =>
        cases hdirectory : node.isDirectory with
        | false => simp [hnode, hdirectory] at hwalk
        | true =>
            simp only [hnode, hdirectory, Bool.not_true, Bool.false_eq_true, if_false,
              if_true] at hwalk
            exact Except.ok.inj hwalk

/-- Where a walk ends in the directory, one that goes on by the entry's name ends
in the entry, if it goes on from links as the other one does. -/
theorem walkNames_entry (h : tree.Lists place child) (hname : IsEntryName child.name)
    {tail : List String} (htail : tail = [] ∨ tail = ["."]) (followLast : Bool)
    (hfollow : ∀ here target rest, follow here target (rest ++ tail) = .ok place →
      follow' here target (rest ++ [child.name]) = .ok (place ++ [child.name]))
    {names here : List String}
    (hwalk : tree.walkNames true follow here (names ++ tail) = .ok place) :
    tree.walkNames followLast follow' here (names ++ [child.name]) =
      .ok (place ++ [child.name]) := by
  induction names generalizing here with
  | nil =>
      rw [eq_of_walkNames_tail htail hwalk]
      exact walkNames_child h hname followLast
  | cons first rest ih =>
      have hmore : rest ++ [child.name] ≠ [] := by simp
      rw [List.cons_append] at hwalk ⊢
      cases tree.onward here first with
      | stops kind hstops =>
          rw [hstops true follow _ (.inr rfl)] at hwalk
          cases hwalk
      | moves next hmoves =>
          rw [hmoves true follow _ (.inr rfl)] at hwalk
          rw [hmoves followLast follow' _ (.inl hmore)]
          exact ih hwalk
      | follows target hfollows =>
          rw [hfollows true follow _ (.inr rfl)] at hwalk
          rw [hfollows followLast follow' _ (.inl hmore)]
          exact hfollow here target rest hwalk

end Walk

theorem walk_entry (h : tree.Lists place child) (hname : IsEntryName child.name)
    {tail : List String} (htail : tail = [] ∨ tail = ["."]) (followLast : Bool) {links : Nat}
    {names here : List String}
    (hwalk : tree.walk true links here (names ++ tail) = .ok place) :
    tree.walk followLast links here (names ++ [child.name]) = .ok (place ++ [child.name]) := by
  -- On the links that may still be followed, of which each that is met leaves one fewer.
  induction links generalizing here names with
  | zero => exact walkNames_entry h hname htail followLast (by rintro here target rest ⟨⟩) hwalk
  | succ links ih =>
      refine walkNames_entry h hname htail followLast ?_ hwalk
      intro here target rest hfollowed
      rw [← List.append_assoc] at hfollowed ⊢
      exact ih hfollowed

/-! ## Longer paths -/

theorem pathNames_eq (path : String) :
    ∃ tail, (tail = [] ∨ tail = ["."]) ∧ pathNames path = splitNames path.toList ++ tail := by
  unfold pathNames
  by_cases hcloses : splitNames path.toList ≠ [] ∧ endsInSlash path = true
  · exact ⟨["."], .inr rfl, if_pos hcloses⟩
  · exact ⟨[], .inl rfl, (if_neg hcloses).trans (List.append_nil _).symm⟩

section Join

variable {path name : String}

theorem isAbsolute_of_isName (hname : IsName name) : isAbsolute name = false := by
  simp only [isAbsolute, decide_eq_false_iff_not]
  exact fun hfirst => hname.2 (List.mem_of_head? hfirst)

theorem toList_join (hpath : path ≠ "") (hname : IsName name) :
    ∃ front, (path.toList = front ∨ path.toList = front ++ ['/']) ∧
      (join path name).toList = front ++ '/' :: name.toList := by
  unfold join
  rw [if_neg (by simp [hpath, isAbsolute_of_isName hname])]
  cases hcloses : endsInSlash path with
  | false => exact ⟨path.toList, .inl rfl, by simp⟩
  | true =>
      have hlast : path.toList.getLast? = some '/' := by simpa [endsInSlash] using hcloses
      obtain ⟨front, hfront⟩ := List.getLast?_eq_some_iff.mp hlast
      exact ⟨front, .inr hfront, by simp [hfront]⟩

theorem pathNames_join_eq_splitNames (hpath : path ≠ "") (hname : IsName name) :
    pathNames (join path name) = splitNames path.toList ++ [name] := by
  obtain ⟨front, hfront, hjoin⟩ := toList_join hpath hname
  have hopen : endsInSlash (join path name) = false := by
    simp only [endsInSlash, decide_eq_false_iff_not, hjoin]
    exact getLast?_append_slash_name hname front
  have hsame : splitNames path.toList = splitNames front := by
    rcases hfront with h | h
    · rw [h]
    · rw [h, splitNames_append_slash]
      exact List.append_nil _
  simp [pathNames, hopen, hjoin, splitNames_append_slash, splitNames_of_isName hname, hsame]

theorem endsInSlash_join (hpath : path ≠ "") (hname : IsName name) :
    endsInSlash (join path name) = false := by
  obtain ⟨front, -, hjoin⟩ := toList_join hpath hname
  simp only [endsInSlash, decide_eq_false_iff_not, hjoin]
  exact getLast?_append_slash_name hname front

theorem startOf_join (hpath : path ≠ "") (hname : IsName name) :
    startOf (join path name) = startOf path := by
  have hfirst : (join path name).toList.head? = path.toList.head? := by
    obtain ⟨front, hfront, hjoin⟩ := toList_join hpath hname
    have hsome : path.toList ≠ [] := by simpa using hpath
    rw [hjoin]
    rcases hfront with h | h <;> rw [h] at hsome ⊢ <;> cases front
    · exact (hsome rfl).elim
    all_goals rfl
  unfold startOf isAbsolute
  rw [hfirst]

end Join

theorem resolve_eq_ok {path : String} {followLast : Bool}
    (hresolve : tree.resolve path followLast = .ok place) :
    path ≠ "" ∧ '\x00' ∉ path.toList ∧
      tree.walk followLast maxLinks (startOf path) (pathNames path) = .ok place := by
  unfold resolve at hresolve
  by_cases hzero : path.toList.contains '\x00' = true
  · rw [if_pos hzero] at hresolve
    cases hresolve
  · rw [if_neg hzero] at hresolve
    by_cases hlong : path.utf8ByteSize > maxPathBytes
    · rw [if_pos hlong] at hresolve
      cases hresolve
    · rw [if_neg hlong] at hresolve
      by_cases hempty : path = ""
      · rw [if_pos hempty] at hresolve
        cases hresolve
      · rw [if_neg hempty] at hresolve
        exact ⟨hempty, by simpa using hzero, hresolve⟩

theorem resolve_entry {path : String} (hresolve : tree.resolve path true = .ok place)
    (h : tree.Lists place child) (hname : IsEntryName child.name)
    (hfits : (join path child.name).utf8ByteSize ≤ maxPathBytes) (followLast : Bool) :
    tree.resolve (join path child.name) followLast = .ok (place ++ [child.name]) := by
  obtain ⟨hpath, hplain, hwalk⟩ := resolve_eq_ok hresolve
  obtain ⟨tail, htail, hnames⟩ := pathNames_eq path
  rw [hnames] at hwalk
  have hentry := walk_entry h hname htail followLast hwalk
  obtain ⟨front, hfront, hjoin⟩ := toList_join hpath hname.isName
  have hplain' : ¬ (join path child.name).toList.contains '\x00' = true := by
    have hnone : '\x00' ∉ front := by
      rcases hfront with h | h
      · rwa [h] at hplain
      · rw [h] at hplain
        exact fun hmem => hplain (List.mem_append_left _ hmem)
    simp [hjoin, hnone, hname.plain]
  have hsome : join path child.name ≠ "" := by
    intro hempty
    simp [hempty] at hjoin
  unfold resolve
  rw [if_neg hplain', if_neg (Nat.not_lt.mpr hfits), if_neg hsome,
    startOf_join hpath hname.isName, pathNames_join_eq_splitNames hpath hname.isName]
  exact hentry

theorem entries?_eq_some {path : String} {entries : List Node}
    (hentries : tree.entries? path = some entries) :
    ∃ place node, tree.resolve path true = .ok place ∧ tree.at? place = some node ∧
      node.isDirectory = true ∧ node.children = entries := by
  unfold entries? lookup at hentries
  cases hresolve : tree.resolve path true with
  | error kind => simp [hresolve, bind, Except.bind] at hentries
  | ok place =>
      cases hnode : tree.at? place with
      | none => simp [hresolve, hnode, bind, Except.bind] at hentries
      | some node =>
          simp only [hresolve, hnode, bind, Except.bind] at hentries
          cases node with
          | file name bytes => cases hentries
          | link name target => cases hentries
          | directory name modified children =>
              exact ⟨place, _, rfl, hnode, rfl, Option.some.inj hentries⟩

theorem sizeOf_entry {path : String} {entries : List Node}
    (hentries : tree.entries? path = some entries) (hnames : (entries.map (·.name)).Nodup)
    (hchild : child ∈ entries) (hdirectory : child.isDirectory = true)
    (hname : IsEntryName child.name)
    (hreaches : reaches (join path child.name) child = true) :
    tree.sizeOf (join path child.name) = .ok child.size := by
  obtain ⟨place, node, hresolve, hnode, hparent, rfl⟩ := entries?_eq_some hentries
  have hlists : tree.Lists place child :=
    ⟨node, hnode, hparent, Node.child?_of_mem hnames hchild, hdirectory⟩
  have hfits : (join path child.name).utf8ByteSize ≤ maxPathBytes := by
    have hopen := endsInSlash_join (resolve_eq_ok hresolve).1 hname.isName
    simp only [reaches, hopen, Bool.false_eq_true, if_false, Nat.sub_zero,
      decide_eq_true_eq] at hreaches
    omega
  have hfound : tree.lookup (join path child.name) false = .ok child := by
    simp only [lookup, resolve_entry hresolve hlists hname hfits false, bind, Except.bind,
      hlists.at?]
  simp only [sizeOf, hfound, hreaches, if_true]

end FileTree

end SegmentManager
