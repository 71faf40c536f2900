import SegmentManager.Uuid
import SegmentManager.Kind

/-!
# Faults

What can go wrong while segments are looked up, started or torn down.  Each
constructor is a cause; `message` gives its wording.
-/

namespace SegmentManager

inductive IoKind
  | notFound
  | permissionDenied
  | notADirectory
  | invalidInput
  | invalidFilename
  | filesystemLoop
  | other
deriving DecidableEq, Repr

namespace IoKind

def message : IoKind → String
  | notFound => "entity not found"
  | permissionDenied => "permission denied"
  | notADirectory => "not a directory"
  | invalidInput => "invalid input parameter"
  | invalidFilename => "invalid filename"
  | filesystemLoop => "filesystem loop or indirection limit (e.g. symlink loop)"
  | other => "other error"

def systemMessage : IoKind → String
  | notFound => "No such file or directory (os error 2)"
  | permissionDenied => "Permission denied (os error 13)"
  | notADirectory => "Not a directory (os error 20)"
  | invalidInput => "file name contained an unexpected NUL byte"
  | invalidFilename => "File name too long (os error 36)"
  | filesystemLoop => "Too many levels of symbolic links (os error 40)"
  | other => "other error"

end IoKind

inductive Fault
  | io (kind : IoKind) (text : String)
  | invalidCapability (capability : String)
  | segmentNotFound (collection : CollectionId) (scope : Scope)
  | unknownKind (tag : String)
  | startFailed (segment : SegmentId) (text : String)
  | stopFailed (segment : SegmentId) (text : String)
  | deleteFailed (segment : SegmentId) (text : String)
  | persistentIndex (segment : SegmentId) (text : String)
  | partialDelete (completed : List SegmentId) (failed : SegmentId) (cause : Fault)
  | endpointResolution (text : String)
  | catalog (text : String)
  | invalidSettings (text : String)
deriving DecidableEq, Repr

namespace Fault

def message : Fault → String
  | io _ text => "I/O error: " ++ text
  | invalidCapability capability => "invalid capability: " ++ capability
  | segmentNotFound collection scope =>
      "no segment of a known type for collection " ++ toString collection ++
        " in scope " ++ scope.name
  | unknownKind tag => "unknown segment type: " ++ tag
  | startFailed segment text => "failed to start segment " ++ toString segment ++ ": " ++ text
  | stopFailed segment text => "failed to stop segment " ++ toString segment ++ ": " ++ text
  | deleteFailed segment text => "failed to delete segment " ++ toString segment ++ ": " ++ text
  | persistentIndex segment text =>
      "persistent index error on segment " ++ toString segment ++ ": " ++ text
  | partialDelete completed failed cause =>
      "delete stopped at segment " ++ toString failed ++ " after " ++
        toString completed.length ++ " completed: " ++ cause.message
  | endpointResolution text => "endpoint resolution failed: " ++ text
  | catalog text => "sysdb error: " ++ text
  | invalidSettings text => "invalid configuration: " ++ text

def causes : Fault → List String
  | io _ text => [text]
  | partialDelete _ _ cause => cause.message :: cause.causes
  | _ => []

end Fault

end SegmentManager
