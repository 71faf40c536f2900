import SegmentManager.CommandLine

/-!
# The program

Reads what the command line asks for from the file system and prints the
answer.
-/

namespace SegmentManager

/-- The soft limit on open files in a listing of the system's limits.  To be unlimited
is to have the largest number of 64 bits for a limit. -/
def listedHandleLimit? (listing : String) : Option Nat := do
  let line ← (listing.splitOn "\n").find? (·.startsWith "Max open files")
  let soft ← ((line.splitOn " ").filter (· ≠ ""))[3]?
  if soft = "unlimited" then some (UInt64.size - 1) else soft.toNat?

def systemHandleLimit : IO Nat := do
  try
    let listing ← IO.FS.readFile "/proc/self/limits"
    return (listedHandleLimit? listing).getD Settings.defaultHandleLimit
  catch _ => return Settings.defaultHandleLimit

partial def loadNode (entry : IO.FS.DirEntry) : IO Node := do
  let status ← entry.path.symlinkMetadata
  match status.type with
  | .dir =>
      let below ← entry.path.readDir
      let children ← below.toList.mapM loadNode
      let modified := FileTree.atSeconds status.modified.sec + status.modified.nsec.toNat
      return .directory entry.fileName modified children
  | .file => return .file entry.fileName status.byteSize.toNat
  | _ => return .link entry.fileName ""

def loadEntries (path : String) : IO (Option (List Node)) := do
  try
    let self : IO.FS.DirEntry := ⟨path, "."⟩
    let entries ← self.path.readDir
    some <$> entries.toList.mapM loadNode
  catch _ => return none

end SegmentManager

open SegmentManager in
def main (args : List String) : IO UInt32 := do
  let outcome ← match CommandLine.read args with
    | .error stop => pure stop.outcome
    | .ok invocation => do
        let entries ← match invocation.command, invocation.path with
          | .usage _, some path => loadEntries path
          | _, _ => pure none
        pure (invocation.answer (← systemHandleLimit) fun _ => entries)
  IO.print outcome.output
  IO.eprint outcome.errors
  return outcome.code.toUInt32
