import SegmentManager.Simulation.Keepers

/-!
# An eviction scenario

A persistent manager with a memory budget, some collections with vector data of
given sizes, and a sequence of uses.
-/

namespace SegmentManager.Simulation

structure Scenario where
  memoryLimit : Nat
  maxFileHandles : Nat
  sizes : List Nat
  uses : List Nat
  hinting : Bool
deriving DecidableEq, Repr

namespace Scenario

def settings (f : Scenario) : Settings where
  persistDirectory := some FileTree.workplacePath
  bounded := true
  memoryLimit := f.memoryLimit
  maxFileHandles := some f.maxFileHandles

def writeVectors (s : System World) (n bytes : Nat) : System World :=
  match segmentOf? (numberedCollection n).id .vector s with
  | (some segment, s) => writeSegment FileTree.workplacePath segment bytes s
  | (none, s) => s

def initial (f : Scenario) : Except Fault (System World) :=
  (Manager.inProcess f.settings keeperRegistry).map fun m =>
    let s := createNumbered f.sizes.length (around m keeperWorld)
    (List.range f.sizes.length).zip f.sizes |>.foldl (fun s (n, bytes) => writeVectors s n bytes) s

def useOne (f : Scenario) (s : System World) (n : Nat) : System World :=
  let c := (numberedCollection n).id
  if f.hinting then (s.hint c .add).2 else (s.getSegment c .vectorReader).2

def run (f : Scenario) : Except Fault (System World) :=
  f.initial.map fun s => f.uses.foldl f.useOne s

def latestLife? (s : System World) (n : Nat) : Option Life :=
  (s.site.world.livesOf (numberedSegment n .vector)).head?

end Scenario

end SegmentManager.Simulation
