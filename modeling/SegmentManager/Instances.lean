import SegmentManager.Instance
import SegmentManager.Table

/-!
# Running instances

The instances that run, by segment.  This table alone says whether a segment
runs; it never holds two instances of one segment.
-/

namespace SegmentManager

abbrev Instances := Table SegmentId Instance

namespace Instances

/-- The instance of a segment, made by `create` if none runs.  The flag tells
whether it was made.  Nothing is entered when `create` fails. -/
def getOrCreate {σ : Type} (t : Instances) (segment : SegmentId)
    (create : σ → Except Fault Instance × σ) (state : σ) :
    Except Fault (Instance × Bool) × Instances × σ :=
  match t.get? segment with
  | some i => (.ok (i, false), t, state)
  | none =>
      match create state with
      | (.ok i, state) => (.ok (i, true), t.insert segment i, state)
      | (.error fault, state) => (.error fault, t, state)

theorem getOrCreate_of_running {σ : Type} {t : Instances} {segment : SegmentId} {i : Instance}
    (h : t.get? segment = some i) (create : σ → Except Fault Instance × σ) (state : σ) :
    t.getOrCreate segment create state = (.ok (i, false), t, state) := by
  simp [getOrCreate, h]

end Instances

end SegmentManager
