/-!
# Scopes, capabilities and kinds

A collection keeps its data in segments, one concern each: a `Scope`.  Callers
name what they need by a `Capability`, which one scope serves.  A segment's
`Kind` names the implementation that stores it; catalogs keep it as a text tag,
and every text is the tag of some kind.
-/

namespace SegmentManager

inductive Scope
  | vector
  | metadata
  | record
deriving DecidableEq, Repr

namespace Scope

def name : Scope → String
  | vector => "VECTOR"
  | metadata => "METADATA"
  | record => "RECORD"

instance : ToString Scope := ⟨name⟩

def all : List Scope := [vector, metadata, record]

def ofName? (name : String) : Option Scope := all.find? (·.name == name)

@[simp] theorem ofName?_name (s : Scope) : ofName? s.name = some s := by
  cases s <;> decide

end Scope

inductive Capability
  | metadataReader
  | vectorReader
deriving DecidableEq, Repr

namespace Capability

def name : Capability → String
  | metadataReader => "MetadataReader"
  | vectorReader => "VectorReader"

instance : ToString Capability := ⟨name⟩

def all : List Capability := [metadataReader, vectorReader]

def ofName? (name : String) : Option Capability := all.find? (·.name == name)

@[simp] theorem ofName?_name (c : Capability) : ofName? c.name = some c := by
  cases c <;> decide

def scope : Capability → Scope
  | metadataReader => .metadata
  | vectorReader => .vector

end Capability

inductive Operation
  | add
  | update
  | upsert
  | delete
deriving DecidableEq, Repr

inductive Kind
  | sqlite
  | hnswMemory
  | hnswPersisted
  | hnswRemote
  | blockMetadata
  | blockRecords
  | other (tag : String)
deriving DecidableEq, Repr

namespace Kind

def tag : Kind → String
  | sqlite => "sqlite-metadata"
  | hnswMemory => "hnsw-local-memory"
  | hnswPersisted => "hnsw-local-persisted"
  | hnswRemote => "hnsw-distributed"
  | blockMetadata => "blockfile-metadata"
  | blockRecords => "blockfile-record"
  | other tag => tag

instance : ToString Kind := ⟨tag⟩

def named : List Kind :=
  [sqlite, hnswMemory, hnswPersisted, hnswRemote, blockMetadata, blockRecords]

def ofTag (tag : String) : Kind := (named.find? (·.tag == tag)).getD (other tag)

/-- A named kind serves one scope; any other tag may stand for anything. -/
def scope? : Kind → Option Scope
  | sqlite | blockMetadata => some .metadata
  | hnswMemory | hnswPersisted | hnswRemote => some .vector
  | blockRecords => some .record
  | other _ => none

def isOther : Kind → Bool
  | other _ => true
  | _ => false

@[simp] theorem tag_ofTag (tag : String) : (ofTag tag).tag = tag := by
  unfold ofTag
  cases h : named.find? (·.tag == tag) with
  | none => rfl
  | some kind => simpa using List.find?_some h

/-- A kind in normal form is named, or carries a tag that no named kind has. -/
def Normal (kind : Kind) : Prop :=
  kind ∈ named ∨ ∃ tag, kind = other tag ∧ ∀ k ∈ named, k.tag ≠ tag

theorem ofTag_tag {kind : Kind} (h : kind.Normal) : ofTag kind.tag = kind := by
  rcases h with h | ⟨tag, rfl, h⟩
  · simp only [named, List.mem_cons, List.not_mem_nil, or_false] at h
    rcases h with rfl | rfl | rfl | rfl | rfl | rfl <;> decide
  · have absent : named.find? (·.tag == tag) = none := by
      simpa [List.find?_eq_none] using h
    change (named.find? (·.tag == tag)).getD (other tag) = other tag
    rw [absent, Option.getD_none]

theorem normal_ofTag (tag : String) : (ofTag tag).Normal := by
  unfold ofTag
  cases h : named.find? (·.tag == tag) with
  | none => exact .inr ⟨tag, rfl, by simpa [List.find?_eq_none] using h⟩
  | some kind => exact .inl (List.mem_of_find?_eq_some h)

end Kind

end SegmentManager
