/-!
# File trees

A tree of directories, regular files and symbolic links.  Every node carries
its own name, and a directory lists its children in no particular order.  A
directory also has a time of last modification, in nanoseconds since the start
of 1970.  A directory that was never given one was modified at present, and the
present is fixed, so that no answer hangs on a clock.

A tree is the whole of a system's files: what is worked on stands in the
workplace, and around it are the usual directories, as good as bare.
-/

namespace SegmentManager

inductive Node
  | file (name : String) (bytes : Nat)
  | link (name : String) (target : String)
  | directory (name : String) (modified : Int) (children : List Node)
deriving Repr

namespace Node

def name : Node → String
  | file name _ => name
  | link name _ => name
  | directory name _ _ => name

def isDirectory : Node → Bool
  | directory .. => true
  | _ => false

def children : Node → List Node
  | directory _ _ children => children
  | _ => []

def child? (node : Node) (name : String) : Option Node :=
  node.children.find? (·.name == name)

def ownLength : Node → Nat
  | file _ bytes => bytes
  | link _ target => target.utf8ByteSize
  | directory .. => 0

mutual

/-- The summed length of the regular files below a directory.  Real directories
are entered, links are not followed and count nothing. -/
def filesBelow : Node → Nat
  | file _ bytes => bytes
  | link .. => 0
  | directory _ _ children => filesBelowAll children

def filesBelowAll : List Node → Nat
  | [] => 0
  | node :: rest => filesBelow node + filesBelowAll rest

end

mutual

/-- The bytes that the longest path to a directory below adds to a path to the
node.  Links are not followed. -/
def reach : Node → Nat
  | directory _ _ children => reachAll children
  | _ => 0

def reachAll : List Node → Nat
  | [] => 0
  | node :: rest =>
      max (if node.isDirectory then 1 + node.name.utf8ByteSize + reach node else 0) (reachAll rest)

end

/-- What a path's node counts: all files below a directory, else its own
length. -/
def size (node : Node) : Nat :=
  if node.isDirectory then node.filesBelow else node.ownLength

theorem filesBelowAll_eq (nodes : List Node) :
    filesBelowAll nodes = (nodes.map filesBelow).foldr (· + ·) 0 := by
  induction nodes with
  | nil => rfl
  | cons node rest ih => simp [filesBelowAll, ih]

def putChild (children : List Node) (node : Node) : List Node :=
  children.filter (·.name != node.name) ++ [node]

end Node

structure FileTree where
  root : Node
deriving Repr

namespace FileTree

def atSeconds (seconds : Int) : Int := seconds * 1000000000

/-- The nineteenth of November 2026. -/
def present : Int := atSeconds 1795046400

def bare (name : String) : Node := .directory name present []

/-- The directory that is worked in, where relative paths start. -/
def workplace : List String := ["tmp", "segments.d"]

def workplacePath : String := String.join (workplace.map ("/" ++ ·))

def empty : FileTree :=
  ⟨.directory "" present
    ([.directory "tmp" present [bare "segments.d"],
      .directory "dev" present (bare "pts" :: bare "shm" ::
        ["full", "null", "random", "tty", "urandom", "zero"].map (.file · 0)),
      .directory "etc" present (["group", "hostname", "hosts", "passwd"].map (.file · 0)),
      .directory "usr" present
        (["bin", "include", "lib", "lib64", "local", "sbin", "share", "src"].map bare),
      .directory "var" present (["cache", "lib", "log", "spool", "tmp"].map bare),
      .link "bin" "usr/bin", .link "lib" "usr/lib", .link "lib64" "usr/lib64",
      .link "sbin" "usr/sbin"] ++
    ["boot", "home", "media", "mnt", "opt", "proc", "root", "run", "srv", "sys"].map bare)⟩

instance : Inhabited FileTree := ⟨empty⟩

def at? (tree : FileTree) (names : List String) : Option Node :=
  names.foldlM Node.child? tree.root

def mapChildren (change : List Node → List Node) : List String → Node → Node
  | [], .directory name modified children => .directory name modified (change children)
  | first :: rest, .directory name modified children =>
      .directory name modified (children.map fun child =>
        if child.name = first then mapChildren change rest child else child)
  | _, node => node

def put (tree : FileTree) (directory : List String) (node : Node) : FileTree :=
  ⟨mapChildren (Node.putChild · node) directory tree.root⟩

def putNew (tree : FileTree) (directory : List String) (node : Node) : FileTree :=
  if ((tree.at? directory).bind (·.child? node.name)).isSome then tree
  else tree.put directory node

def erase (tree : FileTree) (directory : List String) (name : String) : FileTree :=
  ⟨mapChildren (·.filter (·.name != name)) directory tree.root⟩

end FileTree

end SegmentManager
