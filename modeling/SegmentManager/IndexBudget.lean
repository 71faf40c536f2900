import SegmentManager.Cache.OpenIndexes
import SegmentManager.Json.Value
import SegmentManager.Settings

/-!
# Budget of open indexes

How many persistent indexes may be open at once, given a limit on file handles
and what one index holds.
-/

namespace SegmentManager

structure IndexBudget where
  handleLimit : Nat
  overridden : Bool
  handlesPerIndex : Nat
  openIndexes : Nat
deriving DecidableEq, Repr

namespace IndexBudget

def compute (systemLimit : Nat) (maxFileHandles : Option Nat) (handlesPerIndex : Nat) :
    Except Fault IndexBudget := do
  let settings : Settings :=
    { systemLimit := systemLimit, maxFileHandles := maxFileHandles,
      handlesPerIndex := some handlesPerIndex }
  settings.validate
  let indexes ← OpenIndexes.ofLimits settings.handleLimit handlesPerIndex
  .ok ⟨settings.handleLimit, maxFileHandles.isSome, handlesPerIndex, indexes.budget⟩

def source (b : IndexBudget) : String := if b.overridden then "override" else "os"

def toJson (b : IndexBudget) : Json :=
  .object [("file_handle_limit", .natural b.handleLimit), ("limit_source", .string b.source),
    ("handles_per_index", .natural b.handlesPerIndex),
    ("open_index_budget", .natural b.openIndexes)]

def lines (b : IndexBudget) : List String :=
  ["File Handle Budget", "==================", "",
    "  Descriptor limit:     " ++ toString b.handleLimit ++ " (" ++ b.source ++ ")",
    "  Handles per index:    " ++ toString b.handlesPerIndex,
    "  Open index budget:    " ++ toString b.openIndexes]

end IndexBudget

end SegmentManager
