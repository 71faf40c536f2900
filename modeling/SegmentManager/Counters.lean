import SegmentManager.Decimal.Binary64

/-!
# Counters

What a manager did so far.  No counter ever decreases.
-/

namespace SegmentManager

structure Counters where
  hits : Nat := 0
  misses : Nat := 0
  fetches : Nat := 0
  started : Nat := 0
  memoryEvictions : Nat := 0
  handleEvictions : Nat := 0
  failedEvictions : Nat := 0
  deleted : Nat := 0
deriving DecidableEq, Repr

namespace Counters

def lookups (n : Counters) : Nat := n.hits + n.misses

def hitRate (n : Counters) : Binary64 :=
  if n.lookups = 0 then .ofNat 0
  else .ofFloat ((Binary64.ofNat n.hits).toFloat / (Binary64.ofNat n.lookups).toFloat)

end Counters

end SegmentManager
