import SegmentManager.Simulation.Keepers

/-!
# Many callers

Several callers work on one manager.  What is counted in the end does not
depend on how their calls interleave, so they are run one after the other.
-/

namespace SegmentManager.Simulation

structure LookupOutcome where
  failures : Nat
  /-- Whether all callers that were answered got one and the same instance. -/
  sameInstance : Bool
deriving DecidableEq, Repr

def lookUpMany (c : CollectionId) (capability : Capability) (callers rounds : Nat)
    (s : System World) : LookupOutcome × System World :=
  let step (state : List (Except Fault Instance) × System World) (_ : Nat) :=
    let (answer, s) := state.2.getSegment c capability
    (answer :: state.1, s)
  let (answers, s) := (List.range (callers * rounds)).foldl step ([], s)
  let instances := answers.filterMap Except.toOption
  let same := match instances with
    | [] => true
    | first :: rest => rest.all (· = first)
  (⟨answers.countP (!·.isOk), same⟩, s)

def hintMany (collections : List CollectionId) (callers : Nat) (s : System World) :
    Nat × System World :=
  let round (caller : Nat) : List CollectionId :=
    let first := caller % max collections.length 1
    collections.drop first ++ collections.take first
  let step (state : Nat × System World) (c : CollectionId) :=
    let (outcome, s) := state.2.hint c .add
    (if outcome.isOk then state.1 else state.1 + 1, s)
  ((List.range callers).flatMap round).foldl step (0, s)

end SegmentManager.Simulation
