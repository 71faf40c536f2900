import SegmentManager.Record
import SegmentManager.Metadata.Json

/-!
# Records as JSON

A record is an object of five fields.  Fields that it does not know are passed
over, but a field that it knows may come only once; metadata may be missing or
`null`.  A list of exactly the five values in order is read as well.
-/

namespace SegmentManager

def Uuid.toJson (u : Uuid) : Json := .string (toString u)

def Uuid.ofJson? (j : Json) : Option Uuid := j.string?.bind ofString?

def CollectionId.toJson (c : CollectionId) : Json := c.uuid.toJson

def CollectionId.ofJson? (j : Json) : Option CollectionId := (Uuid.ofJson? j).map CollectionId.mk

def SegmentId.toJson (s : SegmentId) : Json := s.uuid.toJson

def SegmentId.ofJson? (j : Json) : Option SegmentId := (Uuid.ofJson? j).map SegmentId.mk

def Kind.toJson (kind : Kind) : Json := .string kind.tag

def Kind.ofJson? (j : Json) : Option Kind := j.string?.map Kind.ofTag

def Scope.toJson (scope : Scope) : Json := .string scope.name

/-- A scope is read from its name, alone or as the only field of an object that
says nothing about it. -/
def Scope.ofJson? : Json → Option Scope
  | .string name => ofName? name
  | .object [(name, .null)] => ofName? name
  | _ => none

namespace Record

def fieldNames : List String := ["id", "type", "scope", "collection", "metadata"]

def toJson (r : Record) : Json :=
  .object (fieldNames.zip
    [r.id.toJson, r.kind.toJson, r.scope.toJson, r.collection.toJson,
      .ofOption Metadata.toJson r.metadata])

def metadataOfJson? (j : Json) : Option (Option Metadata) :=
  if j.isNull then some none else (Metadata.ofJson? j).map some

def ofValues? (id kind scope collection metadata : Json) : Option Record := do
  let id ← SegmentId.ofJson? id
  let kind ← Kind.ofJson? kind
  let scope ← Scope.ofJson? scope
  let collection ← CollectionId.ofJson? collection
  let metadata ← metadataOfJson? metadata
  some ⟨id, kind, scope, collection, metadata⟩

def ofJson? (j : Json) : Option Record :=
  match j with
  | .object fields =>
      if fieldNames.all fun name => (fields.countP (·.1 == name)) ≤ 1 then do
        ofValues? (← j.field? "id") (← j.field? "type") (← j.field? "scope")
          (← j.field? "collection") ((j.field? "metadata").getD .null)
      else none
  | .array [id, kind, scope, collection, metadata] => ofValues? id kind scope collection metadata
  | _ => none

end Record

end SegmentManager
