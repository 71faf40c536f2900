import SegmentManager.System.Lookup
import SegmentManager.System.Teardown

/-!
# Runs

What callers may ask of a manager, as data.  A run is a list of requests, each
answered in the state that those before it left behind.
-/

namespace SegmentManager

/-- Calls on all instances come with the order in which they visit them; whatever it
leaves out is visited last. -/
inductive Request
  | get (c : CollectionId) (capability : Capability)
  | getNamed (c : CollectionId) (capability : String)
  | hint (c : CollectionId) (operation : Operation)
  | delete (c : CollectionId)
  | start (order : List SegmentId := [])
  | stop (order : List SegmentId := [])
  | reset (order : List SegmentId := [])
deriving DecidableEq, Repr

inductive Reply
  | served (i : Instance)
  | deleted (segments : List SegmentId)
  | done
deriving DecidableEq, Repr

namespace System

variable {W : Type} [Backend W]

def reply {α : Type} (form : α → Reply) (outcome : Except Fault α × System W) :
    Except Fault Reply × System W :=
  (outcome.1.map form, outcome.2)

def handle (request : Request) (s : System W) : Except Fault Reply × System W :=
  match request with
  | .get c capability => reply .served (s.getSegment c capability)
  | .getNamed c capability => reply .served (s.getSegmentNamed c capability)
  | .hint c operation => reply (fun _ => .done) (s.hint c operation)
  | .delete c => reply .deleted (s.deleteSegments c)
  | .start order => reply (fun _ => .done) (s.startAll order)
  | .stop order => reply (fun _ => .done) (s.stopAll order)
  | .reset order => reply (fun _ => .done) (s.reset order)

def run : List Request → System W → List (Except Fault Reply) × System W
  | [], s => ([], s)
  | request :: rest, s =>
      let (answer, s) := s.handle request
      let (answers, s) := run rest s
      (answer :: answers, s)

end System

end SegmentManager
