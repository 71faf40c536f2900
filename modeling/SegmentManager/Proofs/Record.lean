import SegmentManager.Record.Json
import SegmentManager.Proofs.Json

/-!
# Records read back

The text of a record tells the whole record, unless it holds a double: every value
is read as the variant that it was, and a map as the map with the same entries.
Kinds are written as their tags, so a tag of a named kind is read as that kind
whoever wrote it.
-/

namespace SegmentManager

namespace Value

def isFloat : Value → Bool
  | float _ => true
  | _ => false

theorem exact_toJson {v : Value} (hv : v.isFloat = false) : v.toJson.Exact := by
  cases v with
  | bool b => exact .bool b
  | int i =>
      have hlow := i.le_toInt
      have hhigh := i.toInt_lt
      exact .integer hlow (by omega)
  | float x => simp [isFloat] at hv
  | text s => exact .string s

theorem ofJson?_toJson {v : Value} (hv : v.isFloat = false) : ofJson? v.toJson = some v := by
  cases v with
  | int i => simp [toJson, ofJson?]
  | float x => simp [isFloat] at hv
  | bool | text => rfl

end Value

namespace Metadata

theorem insertEntry_of_lt {key : String} {entries : List (String × Value)}
    (hkey : ∀ e ∈ entries, e.1 < key) (value : Value) :
    insertEntry key value entries = entries ++ [(key, value)] := by
  induction entries with
  | nil => rfl
  | cons entry rest ih =>
      have hentry := hkey entry List.mem_cons_self
      have hrest := ih fun e he => hkey e (List.mem_cons_of_mem _ he)
      have hne : key ≠ entry.1 := fun h => String.lt_irrefl key (h ▸ hentry)
      have hnot : ¬ key < entry.1 := fun h => String.lt_irrefl key (String.lt_trans h hentry)
      rw [insertEntry, if_neg hnot, if_neg hne, hrest, List.cons_append]

theorem entries_insertAll {rest : List (String × Value)} {m : Metadata}
    (hsorted : (m.entries ++ rest).Pairwise (fun a b => a.1 < b.1)) :
    (rest.foldl (fun m e => m.insert e.1 e.2) m).entries = m.entries ++ rest := by
  induction rest generalizing m with
  | nil => simp
  | cons e rest ih =>
      have hlast : ∀ a ∈ m.entries, a.1 < e.1 := by
        intro a ha
        exact (List.pairwise_append.mp hsorted).2.2 a ha e List.mem_cons_self
      have hinsert : (m.insert e.1 e.2).entries = m.entries ++ [e] := insertEntry_of_lt hlast e.2
      have hrest : ((m.insert e.1 e.2).entries ++ rest).Pairwise (fun a b => a.1 < b.1) := by
        rw [hinsert]
        simpa using hsorted
      rw [List.foldl_cons, ih hrest, hinsert]
      simp

theorem ofList_entries (m : Metadata) : ofList m.entries = m := by
  apply ext
  exact entries_insertAll (m := empty) m.sorted

def Floatless (m : Metadata) : Prop := ∀ e ∈ m.entries, e.2.isFloat = false

instance : DecidablePred Floatless := fun m =>
  inferInstanceAs (Decidable (∀ e ∈ m.entries, e.2.isFloat = false))

theorem exact_toJson {m : Metadata} (hm : m.Floatless) : m.toJson.Exact := by
  refine .object ?_
  simp only [List.forall_mem_map]
  exact fun e he => Value.exact_toJson (hm e he)

theorem ofJson?_toJson {m : Metadata} (hm : m.Floatless) : ofJson? m.toJson = some m := by
  have hfields : ∀ entries : List (String × Value), (∀ e ∈ entries, e.2.isFloat = false) →
      (entries.map fun e => (e.1, e.2.toJson)).mapM
        (fun f => (Value.ofJson? f.2).map fun value => (f.1, value)) = some entries := by
    intro entries hentries
    induction entries with
    | nil => rfl
    | cons e rest ih =>
        have he := Value.ofJson?_toJson (hentries e List.mem_cons_self)
        have hrest := ih fun d hd => hentries d (List.mem_cons_of_mem _ hd)
        simp [List.mapM_cons, he, hrest]
  change ((m.entries.map fun e => (e.1, e.2.toJson)).mapM
    (fun f => (Value.ofJson? f.2).map fun value => (f.1, value))).map ofList = some m
  rw [hfields m.entries hm, Option.map_some, ofList_entries]

end Metadata

namespace Record

def Floatless (r : Record) : Prop := ∀ m ∈ r.metadata, m.Floatless

instance : DecidablePred Floatless := fun r =>
  inferInstanceAs (Decidable (∀ m ∈ r.metadata, m.Floatless))

variable {r : Record}

theorem exact_toJson (hr : r.Floatless) : r.toJson.Exact := by
  refine .object ?_
  simp only [fieldNames, List.zip_cons_cons, List.zip_nil_left, List.forall_mem_cons]
  refine ⟨.string _, .string _, .string _, .string _, ?_, by simp⟩
  cases hmetadata : r.metadata with
  | none => exact .null
  | some m => exact Metadata.exact_toJson (hr m hmetadata)

theorem metadataOfJson?_ofOption (hr : r.Floatless) :
    metadataOfJson? (.ofOption Metadata.toJson r.metadata) = some r.metadata := by
  cases hmetadata : r.metadata with
  | none => rfl
  | some m =>
      have hm := Metadata.ofJson?_toJson (hr m hmetadata)
      change (Metadata.ofJson? m.toJson).map some = some (some m)
      rw [hm, Option.map_some]

theorem ofValues?_toJson (hkind : r.kind.Normal) (hr : r.Floatless) :
    ofValues? r.id.toJson r.kind.toJson r.scope.toJson r.collection.toJson
      (.ofOption Metadata.toJson r.metadata) = some r := by
  have hid : SegmentId.ofJson? r.id.toJson = some r.id := by
    simp [SegmentId.ofJson?, SegmentId.toJson, Uuid.ofJson?, Uuid.toJson, Json.string?]
  have hkind' : Kind.ofJson? r.kind.toJson = some r.kind := by
    simp [Kind.ofJson?, Kind.toJson, Json.string?, Kind.ofTag_tag hkind]
  have hscope : Scope.ofJson? r.scope.toJson = some r.scope := by
    simp [Scope.ofJson?, Scope.toJson]
  have hcollection : CollectionId.ofJson? r.collection.toJson = some r.collection := by
    simp [CollectionId.ofJson?, CollectionId.toJson, Uuid.ofJson?, Uuid.toJson, Json.string?]
  simp [ofValues?, hid, hkind', hscope, hcollection, metadataOfJson?_ofOption hr]

theorem ofJson?_toJson (hkind : r.kind.Normal) (hr : r.Floatless) :
    ofJson? r.toJson = some r := by
  have hvalues := ofValues?_toJson hkind hr
  simpa [ofJson?, toJson, fieldNames, Json.field?] using hvalues

/-- A record that comes back from its text is the record that was written, with all its
values, texts and keys.  A kind is in normal form if it was read from a tag, and the
text of such a kind is that tag in quotes. -/
theorem records_survive_their_text (hkind : r.kind.Normal) (hfloats : r.Floatless) :
    (Json.parse? r.toJson.render).bind ofJson? = some r ∧
    ∀ tag : String,
      (Kind.ofTag tag).Normal ∧ (Kind.ofTag tag).tag = tag ∧
      (Kind.ofTag tag).toJson.render = (Json.string tag).render ∧
      (Json.parse? (Json.string tag).render).bind Kind.ofJson? = some (Kind.ofTag tag) := by
  refine ⟨?_, fun tag => ⟨Kind.normal_ofTag tag, Kind.tag_ofTag tag, ?_, ?_⟩⟩
  · rw [Json.parse?_render (exact_toJson hfloats), Option.bind_some, ofJson?_toJson hkind hfloats]
  · rw [Kind.toJson, Kind.tag_ofTag]
  · rw [Json.parse?_render (.string tag)]
    rfl

def disguised : Record where
  id := ⟨.ofNat 7⟩
  kind := .other "\"null\"\\\u0000é"
  scope := .record
  collection := ⟨.ofNat (2 ^ 128 - 1)⟩
  metadata := some (.ofList
    [("", .text "12"), ("a\nb", .text "true"), ("list", .text "[1, 2.5]"), ("ключ", .int Int64.minValue),
      ("most", .int Int64.maxValue), ("null", .text "null"), ("yes", .bool true)])

theorem disguised_comes_back :
    disguised.kind.Normal ∧ disguised.Floatless ∧
    (Json.parse? disguised.toJson.render).bind ofJson? = some disguised :=
  have hkind : disguised.kind.Normal := .inr ⟨_, rfl, by decide⟩
  have hfloats : disguised.Floatless := by decide
  ⟨hkind, hfloats, (records_survive_their_text hkind hfloats).1⟩

end Record

end SegmentManager
