import SegmentManager.FileTree.Path
import SegmentManager.Json.Value

/-!
# Trees from descriptions

A tree is described by what is to be made, in order: a link with its target, a
file with its length, or else a directory.  When all is made, times of
modification are set.
-/

namespace SegmentManager.FileTree

def describedPath (entry : Json) : String := ((entry.field? "path").bind Json.string?).getD ""

def make (tree : FileTree) (entry : Json) : FileTree :=
  let path := describedPath entry
  match (entry.field? "link").bind Json.string?, (entry.field? "bytes").bind Json.natural? with
  | some target, _ => tree.makeLink path target
  | none, some bytes => tree.writeFile path bytes
  | none, none => tree.makeDirectory path

def date (tree : FileTree) (entry : Json) : FileTree :=
  match (entry.field? "mtime").bind Json.integer? with
  | some seconds => tree.touch (describedPath entry) (atSeconds seconds)
  | none => tree

def furnish (tree : FileTree) (entries : List Json) : FileTree :=
  entries.foldl date (entries.foldl make tree)

end SegmentManager.FileTree
