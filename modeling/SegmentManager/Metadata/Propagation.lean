import SegmentManager.Metadata

/-!
# Propagation

A segment's own metadata is derived from that of its collection.  Settings of
the vector index have keys that start with `hnsw:`, and only these pass.  A
persistent index also needs a batch size and a synchronisation threshold, which
are filled in where the collection gives none.
-/

namespace SegmentManager

namespace Metadata

def hnswPrefix : String := "hnsw:"

def batchSizeKey : String := "hnsw:batch_size"

def syncThresholdKey : String := "hnsw:sync_threshold"

def defaultBatchSize : Int64 := 100

def defaultSyncThreshold : Int64 := 1000

def isHnswKey (key : String) : Bool := hnswPrefix.toList.isPrefixOf key.toList

def hnswSettings (m : Metadata) : Metadata := m.filterKeys isHnswKey

def persistentHnswSettings (m : Metadata) : Metadata :=
  m.hnswSettings
    |>.insertDefault batchSizeKey (.int defaultBatchSize)
    |>.insertDefault syncThresholdKey (.int defaultSyncThreshold)

theorem isHnswKey_batchSizeKey : isHnswKey batchSizeKey = true := by decide

theorem isHnswKey_syncThresholdKey : isHnswKey syncThresholdKey = true := by decide

end Metadata

end SegmentManager
