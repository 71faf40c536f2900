/-!
# Recency caches

A map of limited total size that drops what was used longest ago.  Entries are
listed from the least to the most recently used; using an entry moves it to the
end.  After an insertion the oldest entries leave until the rest fits, but the
entry just inserted always stays, even when it alone is too large.
-/

namespace SegmentManager

structure RecencyEntry (κ α : Type) where
  key : κ
  value : α
  size : Nat
deriving DecidableEq, Repr

/-- `total` is kept as a running sum of the sizes. -/
structure RecencyCache (κ α : Type) where
  capacity : Nat
  total : Nat
  entries : List (RecencyEntry κ α)
deriving DecidableEq, Repr

namespace RecencyCache

variable {κ α : Type} [DecidableEq κ]

def empty (capacity : Nat) : RecencyCache κ α := ⟨capacity, 0, []⟩

def count (c : RecencyCache κ α) : Nat := c.entries.length

def isEmpty (c : RecencyCache κ α) : Bool := c.entries.isEmpty

def keys (c : RecencyCache κ α) : List κ := c.entries.map (·.key)

def find? (c : RecencyCache κ α) (k : κ) : Option (RecencyEntry κ α) :=
  c.entries.find? (·.key = k)

def peek? (c : RecencyCache κ α) (k : κ) : Option α := (c.find? k).map (·.value)

def contains (c : RecencyCache κ α) (k : κ) : Bool := (c.find? k).isSome

def without (entries : List (RecencyEntry κ α)) (k : κ) : List (RecencyEntry κ α) :=
  entries.filter (·.key ≠ k)

def touch (c : RecencyCache κ α) (k : κ) : Option α × RecencyCache κ α :=
  match c.find? k with
  | none => (none, c)
  | some e => (some e.value, { c with entries := without c.entries k ++ [e] })

/-- Drops entries from the front until the total fits or one entry is left. -/
def shrink (capacity : Nat) : Nat → List (RecencyEntry κ α) →
    List (RecencyEntry κ α) × Nat × List (RecencyEntry κ α)
  | total, oldest :: next :: rest =>
      if total > capacity then
        let (evicted, left, kept) := shrink capacity (total - oldest.size) (next :: rest)
        (oldest :: evicted, left, kept)
      else ([], total, oldest :: next :: rest)
  | total, entries => ([], total, entries)

def drop (c : RecencyCache κ α) (k : κ) : RecencyCache κ α :=
  match c.find? k with
  | none => c
  | some e => { c with total := c.total - e.size, entries := without c.entries k }

/-- Puts an entry at the most recent end, over one of the same key, and gives
the entries that had to leave, the oldest first. -/
def insert (c : RecencyCache κ α) (k : κ) (a : α) (size : Nat) :
    List (κ × α) × RecencyCache κ α :=
  let rest := c.drop k
  let (evicted, total, kept) :=
    shrink c.capacity (rest.total + size) (rest.entries ++ [⟨k, a, size⟩])
  (evicted.map fun e => (e.key, e.value), { c with total := total, entries := kept })

def remove (c : RecencyCache κ α) (k : κ) : Option α × RecencyCache κ α :=
  (c.peek? k, c.drop k)

def clear (c : RecencyCache κ α) : RecencyCache κ α := empty c.capacity

@[simp] theorem capacity_insert (c : RecencyCache κ α) (k : κ) (a : α) (size : Nat) :
    (c.insert k a size).2.capacity = c.capacity := rfl

@[simp] theorem capacity_drop (c : RecencyCache κ α) (k : κ) :
    (c.drop k).capacity = c.capacity := by
  unfold drop
  split <;> rfl

omit [DecidableEq κ] in
/-- Nothing is lost: what leaves and what stays is what was there. -/
theorem shrink_append (capacity total : Nat) (entries : List (RecencyEntry κ α)) :
    (shrink capacity total entries).1 ++ (shrink capacity total entries).2.2 = entries := by
  fun_induction shrink capacity total entries with
  | case1 total oldest next rest large evicted left kept split ih =>
      rw [split] at ih
      simpa using ih
  | case2 => rfl
  | case3 => rfl

end RecencyCache

end SegmentManager
