import SegmentManager.Fault

/-!
# Settings

How a manager that runs segments in its own process is set up.
-/

namespace SegmentManager

/-- The limit on file handles where the system does not tell its own. -/
def Settings.defaultHandleLimit : Nat := 1024

/-- Without a persist directory nothing is kept on disk.  A memory limit of
zero is none, and counts only if the cache of vector records is bounded.  Where no
number of file handles is set, the system's limit on them counts. -/
structure Settings where
  persistDirectory : Option String := none
  bounded : Bool := false
  memoryLimit : Nat := 0
  maxFileHandles : Option Nat := none
  handlesPerIndex : Option Nat := none
  systemLimit : Nat := Settings.defaultHandleLimit
deriving DecidableEq, Repr

namespace Settings

def defaultHandlesPerIndex : Nat := 4

def isPersistent (s : Settings) : Bool := s.persistDirectory.isSome

def usesMemoryBudget (s : Settings) : Bool := s.bounded && s.memoryLimit != 0

def handleLimit (s : Settings) : Nat := s.maxFileHandles.getD s.systemLimit

def validate (s : Settings) : Except Fault Unit :=
  if s.maxFileHandles = some 0 then
    .error (.invalidSettings "max_file_handles must be positive")
  else if s.handlesPerIndex = some 0 then
    .error (.invalidSettings "handles_per_persistent_index must be positive")
  else .ok ()

end Settings

end SegmentManager
