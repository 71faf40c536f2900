import SegmentManager.Record
import SegmentManager.Fault
import SegmentManager.FileTree.Path

/-!
# Instances and the site they run at

An instance is a live segment.  It is known by the serial number of its making
and carries the record that it was made from; its resources and what becomes of
them are the concern of a backend.  A backend makes instances and carries out
actions on them, and any of this may fail.  A `Site` is a backend's world with
a serial number for the next instance and a journal of every call so far, the
latest first.
-/

namespace SegmentManager

structure Views where
  persistentIndex : Bool
  metadataReader : Bool
  vectorReader : Bool
deriving DecidableEq, Repr

structure Instance where
  serial : Nat
  record : Record
  views : Views
deriving DecidableEq, Repr

inductive Action
  | start
  | stop
  | delete
  | openIndex
  | closeIndex
deriving DecidableEq, Repr

/-- A backend over worlds of a type.  `build` is told under which directory the
segment may keep files and the serial number of the instance. -/
class Backend (W : Type) where
  build : Option String → Nat → Record → W → Except Fault Views × W
  perform : Action → Instance → W → Except Fault Unit × W
  /-- The file handles that the instance's index holds at the moment. -/
  heldHandles : W → Instance → Nat
  files : W → FileTree

inductive Call
  | build (record : Record) (ok : Bool)
  | act (action : Action) (target : Instance) (ok : Bool)
deriving DecidableEq, Repr

structure Site (W : Type) where
  world : W
  built : Nat
  journal : List Call

def segmentDirectory (root : String) (segment : SegmentId) : String :=
  FileTree.join root (toString segment)

namespace Site

variable {W : Type} [Backend W]

def callsAfter (site : Site W) (count : Nat) : List Call :=
  (site.journal.take (site.journal.length - count)).reverse

def fresh (world : W) : Site W := ⟨world, 0, []⟩

def build (root : Option String) (r : Record) (site : Site W) : Except Fault Instance × Site W :=
  match Backend.build root site.built r site.world with
  | (.ok views, world) =>
      (.ok ⟨site.built, r, views⟩, ⟨world, site.built + 1, (.build r true :: site.journal)⟩)
  | (.error fault, world) =>
      (.error fault, { site with world, journal := .build r false :: site.journal })

def perform (action : Action) (i : Instance) (site : Site W) : Except Fault Unit × Site W :=
  match Backend.perform action i site.world with
  | (outcome, world) =>
      (outcome, { site with world, journal := .act action i outcome.isOk :: site.journal })

def heldHandles (site : Site W) (i : Instance) : Nat := Backend.heldHandles site.world i

/-- The bytes on disk of a segment under a root; what cannot be measured counts
nothing. -/
def bytesOnDisk (site : Site W) (root : String) (segment : SegmentId) : Nat :=
  match (Backend.files site.world).sizeOf (segmentDirectory root segment) with
  | .ok bytes => bytes
  | .error _ => 0

/-- Carries out an action on each instance in turn, whatever fails, and reports
the first failure. -/
def performAll (action : Action) (targets : List Instance) (site : Site W) :
    Except Fault Unit × Site W :=
  targets.foldl (fun (first, site) i =>
    match first, site.perform action i with
    | .ok (), (outcome, site) => (outcome, site)
    | .error fault, (_, site) => (.error fault, site)) (.ok (), site)

@[simp] theorem built_perform (action : Action) (i : Instance) (site : Site W) :
    (site.perform action i).2.built = site.built := rfl

end Site

end SegmentManager
