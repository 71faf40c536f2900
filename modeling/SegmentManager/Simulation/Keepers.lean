import SegmentManager.Simulation.World
import SegmentManager.System.Lookup
import SegmentManager.System.Teardown

/-!
# Keepers for every kind

A registry with every named kind, the instances of all of them keepers, and
systems on top of it.
-/

namespace SegmentManager.Simulation

def keeperRegistry : Registry :=
  ⟨[(.sqlite, ⟨.inProcess, none, none⟩),
    (.hnswMemory, ⟨.inProcess, some Metadata.hnswSettings, none⟩),
    (.hnswPersisted,
      ⟨.inProcess, some Metadata.persistentHnswSettings, some keeperHandles⟩),
    (.hnswRemote, ⟨.remote, some Metadata.hnswSettings, none⟩),
    (.blockMetadata, ⟨.remote, none, none⟩),
    (.blockRecords, ⟨.remote, none, none⟩)]⟩

def keeperActors : Table Kind Actor :=
  ⟨Kind.named.map fun kind => (kind, .keeper (kind = .hnswPersisted))⟩

def keeperWorld : World := { World.empty with actors := keeperActors }

def around (m : Manager) (w : World) : System World := ⟨m, .empty, .fresh w⟩

def mapWorld (f : World → World) (s : System World) : System World :=
  { s with site := { s.site with world := f s.site.world } }

def adopt (r : Record) (actor : Actor) (site : Site World) : Instance × Site World :=
  let i : Instance := ⟨site.built, r, actor.views r.scope⟩
  (i, { site with world := site.world.adopt none i actor, built := site.built + 1 })

def writeSegment (root : String) (segment : SegmentId) (bytes : Nat) (s : System World) :
    System World :=
  let path := FileTree.join (segmentDirectory root segment) "data_level0.bin"
  mapWorld (fun w => { w with files := w.files.writeFile path bytes }) s

def segmentOf? (c : CollectionId) (scope : Scope) (s : System World) :
    Option SegmentId × System World :=
  let (rows, catalog) := s.catalog.read c (some scope)
  (rows.toOption.bind fun rows => rows.head?.map (·.id), { s with catalog })

/-! ## New collections

Identifiers are numbered: a collection has one number, and each of its segments
another one. -/

def numberedCollection (n : Nat) : Collection :=
  ⟨⟨.ofNat n⟩, "c" ++ toString n, none, none⟩

def numberedSegment (n : Nat) : Scope → SegmentId
  | .vector => ⟨.ofNat (3 * n)⟩
  | .metadata => ⟨.ofNat (3 * n + 1)⟩
  | .record => ⟨.ofNat (3 * n + 2)⟩

def createNumbered (count : Nat) (s : System World) : System World :=
  (List.range count).foldl (fun s n => s.create (numberedCollection n) (numberedSegment n)) s

end SegmentManager.Simulation
