import SegmentManager.Decimal.Binary64

/-!
# Metadata

Metadata is a finite map from text keys to typed values, kept in the order of
its keys.  Two maps with the same entries are therefore the same list.  The
order of text is that of its code points, which is also that of its UTF-8
bytes.
-/

namespace SegmentManager

inductive Value
  | bool (b : Bool)
  | int (i : Int64)
  | float (x : Binary64)
  | text (s : String)
deriving DecidableEq, Repr

namespace Value

def numericEq : Value → Value → Bool
  | float x, float y => x.numericEq y
  | v, w => v == w

end Value

/-- Entries in strictly increasing order of their keys. -/
structure Metadata where
  entries : List (String × Value)
  sorted : entries.Pairwise (fun a b => a.1 < b.1)
deriving DecidableEq

namespace Metadata

instance : Repr Metadata := ⟨fun m n => reprPrec m.entries n⟩

theorem ext {m n : Metadata} (h : m.entries = n.entries) : m = n := by
  cases m
  cases n
  simp_all

def empty : Metadata := ⟨[], .nil⟩

instance : Inhabited Metadata := ⟨empty⟩

def insertEntry (key : String) (value : Value) :
    List (String × Value) → List (String × Value)
  | [] => [(key, value)]
  | entry :: rest =>
      if key < entry.1 then (key, value) :: entry :: rest
      else if key = entry.1 then (key, value) :: rest
      else entry :: insertEntry key value rest

theorem mem_insertEntry {key : String} {value : Value} {entries : List (String × Value)}
    {e : String × Value} (h : e ∈ insertEntry key value entries) :
    e = (key, value) ∨ e ∈ entries := by
  induction entries with
  | nil => simpa [insertEntry] using h
  | cons entry rest ih =>
      simp only [insertEntry] at h
      split at h
      · simpa using h
      · split at h
        · rcases List.mem_cons.1 h with h | h
          · exact .inl h
          · exact .inr (List.mem_cons_of_mem _ h)
        · rcases List.mem_cons.1 h with h | h
          · exact .inr (h ▸ List.mem_cons_self)
          · exact (ih h).imp id (List.mem_cons_of_mem _)

theorem sorted_insertEntry (key : String) (value : Value) {entries : List (String × Value)}
    (h : entries.Pairwise (fun a b => a.1 < b.1)) :
    (insertEntry key value entries).Pairwise (fun a b => a.1 < b.1) := by
  induction entries with
  | nil => simp [insertEntry]
  | cons entry rest ih =>
      have ⟨head, tail⟩ := List.pairwise_cons.1 h
      simp only [insertEntry]
      split
      · refine List.pairwise_cons.2 ⟨fun e he => ?_, h⟩
        rcases List.mem_cons.1 he with rfl | he
        · assumption
        · exact String.lt_trans ‹key < entry.1› (head e he)
      · split
        · refine List.pairwise_cons.2 ⟨fun e he => ?_, tail⟩
          have := head e he
          simp_all
        · refine List.pairwise_cons.2 ⟨fun e he => ?_, ih tail⟩
          rcases mem_insertEntry he with rfl | he
          · grind
          · exact head e he

def insert (key : String) (value : Value) (m : Metadata) : Metadata :=
  ⟨insertEntry key value m.entries, sorted_insertEntry key value m.sorted⟩

def get? (m : Metadata) (key : String) : Option Value :=
  (m.entries.find? (·.1 == key)).map (·.2)

def contains (m : Metadata) (key : String) : Bool := (m.get? key).isSome

def filterKeys (keep : String → Bool) (m : Metadata) : Metadata :=
  ⟨m.entries.filter (keep ·.1), m.sorted.filter _⟩

def insertDefault (key : String) (value : Value) (m : Metadata) : Metadata :=
  if m.contains key then m else m.insert key value

/-- Inserts the entries in order, so that the last of one key stays. -/
def ofList (entries : List (String × Value)) : Metadata :=
  entries.foldl (fun m e => m.insert e.1 e.2) empty

def numericEq (m n : Metadata) : Bool :=
  m.entries.length == n.entries.length &&
    (m.entries.zip n.entries).all fun (a, b) => a.1 == b.1 && a.2.numericEq b.2

@[simp] theorem get?_empty (key : String) : empty.get? key = none := rfl

theorem get?_insert (m : Metadata) (key other : String) (value : Value) :
    (m.insert key value).get? other = if other = key then some value else m.get? other := by
  have go : ∀ entries : List (String × Value),
      ((insertEntry key value entries).find? (·.1 == other)).map (·.2) =
        if other = key then some value else (entries.find? (·.1 == other)).map (·.2) := by
    intro entries
    induction entries with
    | nil => by_cases h : key = other <;> grind [insertEntry]
    | cons entry rest ih => grind [insertEntry]
  exact go m.entries

theorem get?_filterKeys (keep : String → Bool) (m : Metadata) (key : String) :
    (m.filterKeys keep).get? key = if keep key then m.get? key else none := by
  have go : ∀ entries : List (String × Value),
      ((entries.filter (keep ·.1)).find? (·.1 == key)).map (·.2) =
        if keep key then (entries.find? (·.1 == key)).map (·.2) else none := by
    intro entries
    induction entries with
    | nil => simp
    | cons entry rest ih => grind
  exact go m.entries

end Metadata

end SegmentManager
