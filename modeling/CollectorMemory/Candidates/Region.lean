/-!
# Heap regions

What the choice of candidates needs to know of a heap region. A region is known by its index in the
heap, which fits in half a word.
-/

namespace CollectorMemory

/-- A heap region. -/
structure Region where
  /-- The number of the region, half a word. -/
  number : UInt32
  /-- Bytes found live by the last marking. -/
  liveBytes : Nat
  /-- Bytes that evacuating the region would free. -/
  reclaimableBytes : Nat
  /-- Whether objects of the region must not move. -/
  isPinned : Bool
  /-- Whether the region belongs to the young generation. -/
  isYoung : Bool
  /-- Whether the region belongs to the old generation. -/
  isOld : Bool
  /-- Whether the region is part of a humongous object. -/
  isHumongous : Bool
  /-- Whether the region is free. -/
  isFree : Bool
  /-- Whether the remembered set of the region knows all references into it. -/
  hasCompleteRemSet : Bool
  /-- Whether the collector still allocates into the region. -/
  isAllocating : Bool

namespace Region

/-- The index of the region in the heap. -/
def index (region : Region) : Nat := region.number.toNat

/-- An old region that can be moved and is not allocated into. -/
def old (index liveBytes reclaimableBytes : Nat) : Region where
  number := UInt32.ofNat index
  liveBytes
  reclaimableBytes
  isPinned := false
  isYoung := false
  isOld := true
  isHumongous := false
  isFree := false
  hasCompleteRemSet := true
  isAllocating := false

/-- The name of the type of the region. -/
def typeName (region : Region) : String :=
  if region.isFree then "FREE"
  else if region.isYoung then "YOUNG"
  else if region.isHumongous then "HUMS"
  else if region.isOld then "OLD"
  else "UNKNOWN"

end Region

end CollectorMemory
