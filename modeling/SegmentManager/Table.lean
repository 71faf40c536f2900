/-!
# Tables

A finite map as a list of pairs with distinct keys, the latest insertion last.
What an operation does is said by `get?`.  A map has no order of its own, so whoever
goes through its values is told in which order to do so.
-/

namespace SegmentManager

structure Table (κ α : Type) where
  entries : List (κ × α)
deriving DecidableEq, Repr

namespace Table

variable {κ α : Type} [DecidableEq κ]

def empty : Table κ α := ⟨[]⟩

instance : Inhabited (Table κ α) := ⟨empty⟩

def get? (t : Table κ α) (k : κ) : Option α :=
  (t.entries.find? (·.1 = k)).map (·.2)

def contains (t : Table κ α) (k : κ) : Bool := (t.get? k).isSome

def erase (t : Table κ α) (k : κ) : Table κ α := ⟨t.entries.filter (·.1 ≠ k)⟩

def insert (t : Table κ α) (k : κ) (a : α) : Table κ α :=
  ⟨(t.erase k).entries ++ [(k, a)]⟩

def size (t : Table κ α) : Nat := t.entries.length

def isEmpty (t : Table κ α) : Bool := t.entries.isEmpty

def keys (t : Table κ α) : List κ := t.entries.map (·.1)

def values (t : Table κ α) : List α := t.entries.map (·.2)

/-- The values in an order of choice: those of the given keys first, in turn, and then
all others. -/
def visited (t : Table κ α) : List κ → List α
  | [] => t.values
  | k :: later => (t.get? k).toList ++ (t.erase k).visited later

def filter (keep : κ → α → Bool) (t : Table κ α) : Table κ α :=
  ⟨t.entries.filter fun e => keep e.1 e.2⟩

def pop (t : Table κ α) (k : κ) : Option α × Table κ α := (t.get? k, t.erase k)

@[simp] theorem get?_empty (k : κ) : (empty : Table κ α).get? k = none := rfl

theorem get?_erase (t : Table κ α) (k other : κ) :
    (t.erase k).get? other = if other = k then none else t.get? other := by
  unfold get? erase
  induction t.entries with
  | nil => simp
  | cons entry rest ih => grind

theorem get?_insert (t : Table κ α) (k other : κ) (a : α) :
    (t.insert k a).get? other = if other = k then some a else t.get? other := by
  have erased := get?_erase t k other
  unfold get? at erased
  unfold get? insert
  simp only [List.find?_append]
  grind

theorem contains_iff (t : Table κ α) (k : κ) : t.contains k = true ↔ k ∈ t.keys := by
  unfold contains get? keys
  grind

end Table

end SegmentManager
