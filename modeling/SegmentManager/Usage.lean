import SegmentManager.Cache.Recency
import SegmentManager.FileTree.Path
import SegmentManager.Json.Printer
import SegmentManager.Record.Json
import SegmentManager.Text.ByteSize
import SegmentManager.Text.Quoted

/-!
# Usage of a persist directory

What the segments under a persist directory occupy, the one changed longest ago
first, and which of them a manager with a given memory limit would have evicted
after loading them in that order.
-/

namespace SegmentManager

structure SegmentUsage where
  segment : SegmentId
  bytes : Nat
  evicted : Bool
deriving DecidableEq, Repr

/-- A limit of zero is none. -/
structure Usage where
  path : String
  total : Nat
  memoryLimit : Option Nat
  segments : List SegmentUsage
deriving DecidableEq, Repr

namespace Usage

structure Found where
  modified : Int
  segment : SegmentId
  bytes : Nat
deriving DecidableEq, Repr

namespace Found

/-- By time of change, then identifier, then size. -/
def le (a b : Found) : Bool :=
  if a.modified ≠ b.modified then a.modified < b.modified
  else if a.segment = b.segment then a.bytes ≤ b.bytes
  else a.segment.uuid.toNat < b.segment.uuid.toNat

def ofNode? : Node → Option Found
  | node@(.directory name modified _) =>
      (SegmentId.ofString? name).map fun segment => ⟨modified, segment, node.size⟩
  | _ => none

end Found

def evictions (capacity : Nat) (found : List Found) : List SegmentId :=
  (found.foldl (fun (evicted, cache) f =>
    let (out, cache) := cache.insert f.segment () f.bytes
    (evicted ++ out.map (·.1), cache))
    (([] : List SegmentId), (RecencyCache.empty capacity : RecencyCache SegmentId Unit))).1

def ofEntries (path : String) (memoryLimit : Option Nat) (entries : List Node) : Usage :=
  let found := (entries.filterMap Found.ofNode?).mergeSort Found.le
  let limit := memoryLimit.filter (0 < ·)
  let evicted := match limit with
    | some capacity => evictions capacity found
    | none => []
  { path := path
    total := (found.map (·.bytes)).foldr (· + ·) 0
    memoryLimit := limit
    segments := found.map fun f => ⟨f.segment, f.bytes, evicted.contains f.segment⟩ }

inductive Refusal
  | noDirectory (path : String)
  | pathTooLong
deriving DecidableEq, Repr

def Refusal.message : Refusal → String
  | noDirectory path => "No persist directory found at " ++ Text.quoted path
  | pathTooLong => IoKind.invalidFilename.systemMessage

/-- A segment is measured along its whole path, which may be too long. -/
def measurable (path : String) (node : Node) : Bool :=
  (Found.ofNode? node).isNone || FileTree.reaches (FileTree.join path node.name) node

def report (path : String) (memoryLimit : Option Nat) (entries : Option (List Node)) :
    Except Refusal Usage :=
  match entries with
  | none => .error (.noDirectory path)
  | some entries =>
      if entries.all (measurable path) then .ok (ofEntries path memoryLimit entries)
      else .error .pathTooLong

def collect (tree : FileTree) (path : String) (memoryLimit : Option Nat) : Except Refusal Usage :=
  report path memoryLimit (tree.entries? path)

def toJson (u : Usage) : Json :=
  let limit := match u.memoryLimit with
    | some n => [("memory_limit", Json.natural n)]
    | none => []
  let segment (s : SegmentUsage) : Json :=
    .object [("segment", s.segment.toJson), ("size_bytes", .natural s.bytes),
      ("evicted", .bool s.evicted)]
  .object ([("path", .string u.path), ("total_size", .natural u.total)] ++ limit ++
    [("segments", .array (u.segments.map segment))])

def lines (u : Usage) : List String :=
  let budget := match u.memoryLimit with
    | some n => ["Budget:     " ++ Text.byteSize n ++ " bytes"]
    | none => []
  let row (s : SegmentUsage) : String :=
    "  " ++ toString s.segment ++ "  " ++ Text.alignRight 10 (Text.byteSize s.bytes) ++
      (if s.evicted then "  (evicted)" else "")
  ["Segment Usage", "=============", "", "Path:       " ++ u.path,
    "Total size: " ++ Text.byteSize u.total ++ " bytes"] ++ budget ++ [""] ++ u.segments.map row

end Usage

end SegmentManager
