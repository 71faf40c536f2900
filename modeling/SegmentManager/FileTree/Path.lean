import SegmentManager.FileTree
import SegmentManager.Fault

/-!
# Paths

A path is resolved one name at a time, an absolute one from the top of the tree
and a relative one from the workplace.  A name in the middle must be a directory
or lead to one through links; `.` stays and `..` goes up.  A path that ends in a
slash names what its last link leads to, and that has to be a directory.  The
empty path leads nowhere.  At most forty links are followed, a name has at most
255 bytes, and a path at most 4095.
-/

namespace SegmentManager.FileTree

def isAbsolute (path : String) : Bool := path.toList.head? = some '/'

def endsInSlash (path : String) : Bool := path.toList.getLast? = some '/'

def splitNames (cs : List Char) : List String :=
  ((cs.splitOn '/').filter (· ≠ [])).map String.ofList

/-- The names of a path.  A closing slash reads like a closing `.`. -/
def pathNames (path : String) : List String :=
  let names := splitNames path.toList
  if names ≠ [] ∧ endsInSlash path then names ++ ["."] else names

def maxLinks : Nat := 40

def maxNameBytes : Nat := 255

def maxPathBytes : Nat := 4095

/-- Walks on from the node under `here`, itself free of links.  A link as the
last name is followed only on request.  `follow` goes on from a link in the
directory under `here`, given its target and the names after it. -/
def walkNames (tree : FileTree) (followLast : Bool)
    (follow : List String → String → List String → Except IoKind (List String))
    (here : List String) : List String → Except IoKind (List String)
  | [] => .ok here
  | name :: rest =>
      match tree.at? here with
      | none => .error .notFound
      | some node =>
          if !node.isDirectory then .error .notADirectory
          else if name = "." then walkNames tree followLast follow here rest
          else if name = ".." then walkNames tree followLast follow here.dropLast rest
          else if name.utf8ByteSize > maxNameBytes then .error .invalidFilename
          else
            match node.child? name with
            | none => .error .notFound
            | some (.link _ target) =>
                if rest = [] ∧ !followLast then .ok (here ++ [name]) else follow here target rest
            | some _ => walkNames tree followLast follow (here ++ [name]) rest

def walk (tree : FileTree) (followLast : Bool) :
    Nat → List String → List String → Except IoKind (List String)
  | 0 => tree.walkNames followLast fun _ _ _ => .error .filesystemLoop
  | links + 1 => tree.walkNames followLast fun here target rest =>
      walk tree followLast links (if isAbsolute target then [] else here)
        (pathNames target ++ rest)

def startOf (path : String) : List String := if isAbsolute path then [] else workplace

def resolve (tree : FileTree) (path : String) (followLast : Bool) :
    Except IoKind (List String) :=
  if path.toList.contains '\x00' then .error .invalidInput
  else if path.utf8ByteSize > maxPathBytes then .error .invalidFilename
  else if path = "" then .error .notFound
  else walk tree followLast maxLinks (startOf path) (pathNames path)

def lookup (tree : FileTree) (path : String) (followLast : Bool) : Except IoKind Node := do
  let names ← tree.resolve path followLast
  match tree.at? names with
  | some node => .ok node
  | none => .error .notFound

/-- Whether the directories below the node at a path have paths along it that are
not too long. -/
def reaches (path : String) (node : Node) : Bool :=
  let stem := path.utf8ByteSize - if endsInSlash path then 1 else 0
  stem + node.reach ≤ maxPathBytes

/-- The bytes that a path accounts for.  What does not exist has none; a path
that cannot be read has no size, nor has one with directories out of reach. -/
def sizeOf (tree : FileTree) (path : String) : Except IoKind Nat :=
  match tree.lookup path false with
  | .ok node => if reaches path node then .ok node.size else .error .invalidFilename
  | .error .notFound => .ok 0
  | .error kind => .error kind

def entries? (tree : FileTree) (path : String) : Option (List Node) :=
  match tree.lookup path true with
  | .ok (.directory _ _ children) => some children
  | _ => none

def join (path next : String) : String :=
  if path = "" ∨ isAbsolute next then next
  else if endsInSlash path then path ++ next
  else path ++ "/" ++ next

def IsName (name : String) : Prop := name ≠ "" ∧ '/' ∉ name.toList

theorem splitNames_append_slash (front back : List Char) :
    splitNames (front ++ '/' :: back) = splitNames front ++ splitNames back := by
  simp [splitNames, List.splitOn_append_cons_self]

theorem splitNames_of_isName {name : String} (h : IsName name) :
    splitNames name.toList = [name] := by
  have nonempty : name.toList ≠ [] := by simpa using h.1
  simp [splitNames, List.splitOn_eq_singleton h.2, nonempty]

theorem getLast?_append_slash_name {name : String} (h : IsName name) (front : List Char) :
    (front ++ '/' :: name.toList).getLast? ≠ some '/' := by
  intro last
  have nonempty : name.toList ≠ [] := by simpa using h.1
  have mem : '/' ∈ name.toList := by
    rw [List.getLast?_append, List.getLast?_cons_of_ne_nil nonempty] at last
    cases e : name.toList.getLast? with
    | none => simp [nonempty] at e
    | some c =>
        rw [e, Option.some_or, Option.some.injEq] at last
        exact last ▸ List.mem_of_getLast? e
  exact h.2 mem

/-! ## Making trees -/

def makeDirectories (tree : FileTree) (start names : List String) : FileTree × List String :=
  names.foldl (fun (tree, here) name =>
    match tree.walk true maxLinks here [name] with
    | .ok place => (tree, place)
    | .error _ => (tree.putNew here (.directory name present []), here ++ [name]))
    (tree, start)

def makeParents (tree : FileTree) (path : String) : FileTree × List String × String :=
  let names := pathNames path
  let (tree, parent) := tree.makeDirectories (startOf path) names.dropLast
  (tree, parent, names.getLast?.getD "")

def makeDirectory (tree : FileTree) (path : String) : FileTree :=
  (tree.makeDirectories (startOf path) (pathNames path)).1

/-- The directory and the name that a name in a directory leads to through
links, whether or not anything is there. -/
def linkedPlace? (tree : FileTree) (links : Nat) (here : List String) (name : String) :
    Option (List String × String) :=
  match (tree.at? here).bind (·.child? name) with
  | some (.link _ target) =>
      match links, (pathNames target).getLast? with
      | links + 1, some last =>
          let start := if isAbsolute target then [] else here
          match tree.walk true links start (pathNames target).dropLast with
          | .ok place => linkedPlace? tree links place last
          | .error _ => none
      | _, _ => none
  | _ => if name = "." ∨ name = ".." then none else some (here, name)

/-- Writes a regular file of the given length.  A link that stands there is
written through, also to where nothing is yet; a directory stays. -/
def writeFile (tree : FileTree) (path : String) (bytes : Nat) : FileTree :=
  let (tree, parent, name) := tree.makeParents path
  match tree.linkedPlace? maxLinks parent name with
  | none => tree
  | some (parent, name) =>
      match (tree.at? parent).bind (·.child? name) with
      | some (.directory ..) => tree
      | _ => tree.put parent (.file name bytes)

def makeLink (tree : FileTree) (path target : String) : FileTree :=
  let (tree, parent, name) := tree.makeParents path
  tree.putNew parent (.link name target)

def touch (tree : FileTree) (path : String) (modified : Int) : FileTree :=
  match tree.resolve path true with
  | .error _ => tree
  | .ok place =>
      match tree.at? place, place.getLast? with
      | some (.directory name _ children), some _ =>
          tree.put place.dropLast (.directory name modified children)
      | _, _ => tree

/-- Removes a directory with all that is below it.  A link is removed itself;
a regular file is refused. -/
def removeAll (tree : FileTree) (path : String) : Except IoKind FileTree := do
  let place ← tree.resolve path false
  match tree.at? place with
  | none => .error .notFound
  | some (.file ..) => .error .notADirectory
  | some node => .ok (tree.erase place.dropLast node.name)

end SegmentManager.FileTree
