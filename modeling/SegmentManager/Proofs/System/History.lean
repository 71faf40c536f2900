import Mathlib.Data.List.Induction
import Mathlib.Data.List.Nodup
import SegmentManager.Simulation.Keepers
import SegmentManager.System.Run

/-!
# Histories

A manager is not alone: between its requests rows come and go in the catalog,
the catalog may refuse reads for a time, members of the group change, and the
world of the backend goes its own way.  A history is a list of such events, and
what holds in every state is shown from the initial one, event by event.
-/

namespace SegmentManager

inductive Event (W : Type)
  | request (q : Request)
  /-- New rows enter the catalog. -/
  | enter (rows : List Record)
  /-- The rows of a collection leave the catalog. -/
  | withdraw (c : CollectionId)
  /-- From now on the catalog refuses reads, or serves them again. -/
  | refuse (text : Option String)
  | regroup (members : List String)
  /-- The world changes on its own: files, and which calls will fail. -/
  | elapse (change : W → W)

inductive Manager.Fresh : Manager → Prop
  | inProcess {settings : Settings} {g : Registry} {m : Manager}
      (hm : Manager.inProcess settings g = .ok m) : Fresh m
  | distributed (workers : Workers) (g : Registry) : Fresh (.distributed workers g)

namespace System

variable {W : Type} [Backend W]

def initial (m : Manager) (w : W) : System W := ⟨m, .empty, .fresh w⟩

def after (s : System W) : Event W → System W
  | .request q => (s.handle q).2
  | .enter rows => { s with catalog := s.catalog.add rows }
  | .withdraw c => { s with catalog := s.catalog.remove c }
  | .refuse text => { s with catalog := { s.catalog with refusal := text } }
  | .regroup members => { s with manager := s.manager.withMembers members }
  | .elapse change => { s with site := { s.site with world := change s.site.world } }

def replay (events : List (Event W)) (s : System W) : System W := events.foldl after s

@[simp] theorem replay_nil (s : System W) : s.replay [] = s := rfl

theorem replay_append (events later : List (Event W)) (s : System W) :
    s.replay (events ++ later) = (s.replay events).replay later :=
  List.foldl_append

theorem replay_concat (events : List (Event W)) (e : Event W) (s : System W) :
    s.replay (events ++ [e]) = (s.replay events).after e :=
  replay_append events [e] s

end System

namespace Event

variable {W : Type}

def entered : Event W → List Record
  | enter rows => rows
  | _ => []

/-- The rows that ever came into being, those that left again included. -/
def created (events : List (Event W)) : List Record := events.flatMap entered

theorem created_append (events later : List (Event W)) :
    created (events ++ later) = created events ++ created later :=
  List.flatMap_append

theorem created_concat (events : List (Event W)) (e : Event W) :
    created (events ++ [e]) = created events ++ e.entered := by
  simp [created]

/-- No two rows that ever came into being are of one segment. -/
def NeverShared (events : List (Event W)) : Prop := ((created events).map (·.id)).Nodup

theorem NeverShared.of_append {events later : List (Event W)}
    (hids : NeverShared (events ++ later)) : NeverShared events := by
  unfold NeverShared at hids ⊢
  rw [created_append, List.map_append] at hids
  exact (List.nodup_append.mp hids).1

instance (events : List (Event W)) : Decidable (NeverShared events) :=
  inferInstanceAs (Decidable (List.Nodup _))

end Event

namespace System

variable {W : Type} [Backend W]

/-- What holds at first and is kept by every event holds after every history. -/
theorem replay_induction {P : List (Event W) → System W → Prop} {s : System W} (hstart : P [] s)
    (hstep : ∀ events e, P events (s.replay events) →
      P (events ++ [e]) ((s.replay events).after e)) (events : List (Event W)) :
    P events (s.replay events) := by
  induction events using List.reverseRecOn with
  | nil => exact hstart
  | append_singleton events e ih =>
      rw [replay_concat]
      exact hstep events e ih

end System

/-! ## A crowded budget

Two collections are used in turn, and the manager's budget has room for the
vectors of one of them. -/

namespace Simulation

def crowdedSettings : Settings where
  persistDirectory := some FileTree.workplacePath
  bounded := true
  memoryLimit := 10
  maxFileHandles := some 4

def spaciousSettings : Settings := { crowdedSettings with bounded := false }

def numberedRows (n : Nat) : List Record :=
  [⟨numberedSegment n .vector, .hnswPersisted, .vector, (numberedCollection n).id, none⟩,
   ⟨numberedSegment n .metadata, .sqlite, .metadata, (numberedCollection n).id, none⟩]

def vectorsWritten (n bytes : Nat) : Event World :=
  let directory := segmentDirectory FileTree.workplacePath (numberedSegment n .vector)
  .elapse fun w =>
    { w with files := w.files.writeFile (FileTree.join directory "data_level0.bin") bytes }

def crowded : List (Event World) :=
  [.enter (numberedRows 0), .enter (numberedRows 1), vectorsWritten 0 6, vectorsWritten 1 7,
   .request (.hint (numberedCollection 0).id .add),
   .request (.hint (numberedCollection 1).id .add)]

end Simulation

end SegmentManager
