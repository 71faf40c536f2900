import SegmentManager.Table
import SegmentManager.Instance

/-!
# A simulated backend

A world in which nothing runs, but every call is accounted for.  How instances
of a kind behave is told by an `Actor`; which calls fail is told by rules.  Of
every instance that was ever made the world keeps a `Life`.
-/

namespace SegmentManager.Simulation

/-- How the instances of a kind behave.

* A keeper removes its directory when it is deleted, serves the reader of its
  scope, and opens an index only if it is closed.  Its handles are held only
  while the index is open.
* A stand-in counts every call and has no readers.  Its index always claims the
  same number of handles.
* A plain instance can only start and stop; deleting it is stopping it. -/
inductive Actor
  | keeper (persistent : Bool)
  | standIn (persistent : Bool) (handles : Nat)
  | plain
deriving DecidableEq, Repr

def keeperHandles : Nat := 2

namespace Actor

def views (a : Actor) (scope : Scope) : Views :=
  match a with
  | keeper persistent => ⟨persistent, scope = .metadata, scope = .vector⟩
  | standIn persistent _ => ⟨persistent, false, false⟩
  | plain => ⟨false, false, false⟩

def effective : Actor → Action → Action
  | plain, .delete => .stop
  | _, action => action

end Actor

inductive CallKind
  | build
  | act (action : Action)
deriving DecidableEq, Repr

namespace CallKind

def name : CallKind → String
  | build => "build"
  | act .start => "start"
  | act .stop => "stop"
  | act .delete => "delete"
  | act .openIndex => "open"
  | act .closeIndex => "close"

def all : List CallKind :=
  [build, act .start, act .stop, act .delete, act .openIndex, act .closeIndex]

def ofName? (name : String) : Option CallKind := all.find? (·.name == name)

end CallKind

/-- Calls of a kind fail, those of one segment or of all. -/
structure Rule where
  call : CallKind
  segment : Option SegmentId
deriving DecidableEq, Repr

structure Life where
  self : Instance
  actor : Actor
  root : Option String
  starts : Nat := 0
  stops : Nat := 0
  deletes : Nat := 0
  opens : Nat := 0
  closes : Nat := 0
  running : Bool := false
  indexOpen : Bool := false
deriving Repr

namespace Life

def after (l : Life) : Action → Life
  | .start => { l with starts := l.starts + 1, running := true }
  | .stop => { l with stops := l.stops + 1, running := false, indexOpen := false }
  | .delete => { l with deletes := l.deletes + 1, running := false, indexOpen := false }
  | .openIndex => { l with opens := l.opens + 1, indexOpen := true }
  | .closeIndex => { l with closes := l.closes + 1, indexOpen := false }

/-- A keeper takes no notice when its index is already as it should be. -/
def changes (l : Life) (action : Action) : Bool :=
  match l.actor, action with
  | .keeper _, .openIndex => !l.indexOpen
  | .keeper _, .closeIndex => l.indexOpen
  | _, _ => true

def heldHandles (l : Life) : Nat :=
  match l.actor with
  | .keeper _ => if l.indexOpen then keeperHandles else 0
  | .standIn _ handles => handles
  | .plain => 0

end Life

structure World where
  files : FileTree
  actors : Table Kind Actor
  rules : List Rule
  lives : List Life

namespace World

def empty : World := ⟨.empty, .empty, [], []⟩

def actor? (w : World) (kind : Kind) : Option Actor := w.actors.get? kind

def cast (w : World) (kind : Kind) (actor : Actor) : World :=
  { w with actors := w.actors.insert kind actor }

def fail (w : World) (rule : Rule) : World := { w with rules := rule :: w.rules }

def clearFailures (w : World) : World := { w with rules := [] }

/-- Whether a call fails.  The start of any keeper may be made to fail, all its
other calls only for a segment, and those that touch its index never. -/
def fails (w : World) (actor : Actor) (call : CallKind) (segment : SegmentId) : Bool :=
  let ruled := w.rules.contains ⟨call, some segment⟩
  let ruledForAll := w.rules.contains ⟨call, none⟩
  match actor, call with
  | .keeper _, .act .start => ruled || ruledForAll
  | .keeper _, .act .stop | .keeper _, .act .delete => ruled
  | .keeper _, _ => false
  | _, _ => ruled || ruledForAll

def faultOf (actor : Actor) (call : CallKind) (segment : SegmentId) : Fault :=
  let text := match actor with
    | .keeper _ => "injected " ++ call.name ++ " failure"
    | _ => call.name ++ " refused"
  match call with
  | .build => .invalidSettings text
  | .act .start => .startFailed segment text
  | .act .stop => .stopFailed segment text
  | .act .delete => .deleteFailed segment text
  | .act .openIndex | .act .closeIndex => .persistentIndex segment text

def life? (w : World) (i : Instance) : Option Life := w.lives.find? (·.self.serial = i.serial)

def withLife (w : World) (life : Life) : World :=
  { w with lives := w.lives.map fun l => if l.self.serial = life.self.serial then life else l }

def removeFiles (w : World) (root : Option String) (segment : SegmentId) :
    Except Fault Unit × World :=
  match root with
  | none => (.ok (), w)
  | some root =>
      let path := segmentDirectory root segment
      match w.files.lookup path true with
      | .error _ => (.ok (), w)
      | .ok _ =>
          match w.files.removeAll path with
          | .ok files => (.ok (), { w with files })
          | .error kind => (.error (.io kind kind.systemMessage), w)

def adopt (w : World) (root : Option String) (i : Instance) (actor : Actor) : World :=
  { w with lives := { self := i, actor := actor, root := root } :: w.lives }

def build (root : Option String) (serial : Nat) (r : Record) (w : World) :
    Except Fault Views × World :=
  match w.actor? r.kind with
  | none => (.error (.unknownKind r.kind.tag), w)
  | some actor =>
      if w.fails actor .build r.id then (.error (faultOf actor .build r.id), w)
      else
        let views := actor.views r.scope
        (.ok views, w.adopt root ⟨serial, r, views⟩ actor)

def perform (action : Action) (i : Instance) (w : World) : Except Fault Unit × World :=
  match w.life? i with
  | none => (.ok (), w)
  | some life =>
      let action := life.actor.effective action
      let segment := i.record.id
      if w.fails life.actor (.act action) segment then
        (.error (faultOf life.actor (.act action) segment), w)
      else
        let w := if life.changes action then w.withLife (life.after action) else w
        match life.actor, action with
        | .keeper _, .delete => w.removeFiles life.root segment
        | _, _ => (.ok (), w)

instance : Backend World where
  build := build
  perform := perform
  heldHandles w i := ((w.life? i).map Life.heldHandles).getD 0
  files := World.files

def livesOf (w : World) (segment : SegmentId) : List Life :=
  w.lives.filter (·.self.record.id = segment)

def rank (w : World) (i : Instance) : Nat :=
  w.lives.countP fun l => l.self.record.id = i.record.id ∧
    l.self.record.collection = i.record.collection ∧ l.self.serial ≤ i.serial

end World

/-- What an instance takes down of a call: its sort, the segment, and whether it
succeeded.  Keepers take nothing down. -/
def World.note? (w : World) : Call → Option (CallKind × SegmentId × Bool)
  | .build r ok =>
      match w.actor? r.kind with
      | some (.keeper _) => none
      | _ => some (.build, r.id, ok)
  | .act action i ok =>
      match (w.life? i).map Life.actor with
      | some (.keeper _) => none
      | some actor => some (.act (actor.effective action), i.record.id, ok)
      | none => none

/-! ## Reading -/

structure Reading where
  metadataCount : Option Nat
  vectorCount : Option Nat
  dimensionality : Option (Option Nat)
  heldHandles : Option Nat
deriving DecidableEq, Repr

/-- Reads all there is to read.  Nothing is ever found, but counting vectors
opens a persistent index. -/
def World.read (i : Instance) (w : World) : Reading × World :=
  let w := if i.views.vectorReader ∧ i.views.persistentIndex then (w.perform .openIndex i).2 else w
  (⟨if i.views.metadataReader then some 0 else none,
    if i.views.vectorReader then some 0 else none,
    if i.views.vectorReader then some none else none,
    if i.views.persistentIndex then some (Backend.heldHandles w i) else none⟩, w)

end SegmentManager.Simulation
