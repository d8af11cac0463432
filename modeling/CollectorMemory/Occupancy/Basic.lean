import CollectorMemory.Count
import CollectorMemory.Occupancy.Layer

/-!
# Occupancy maps

A map divides the words of a node into granules of the smallest chunk size and keeps two bits for
each: whether a chunk starts there, and whether it belongs to a chunk in use. Merging free chunks
needs both: where chunks begin, and whether any of them is still in use. Positions are given as
word offsets from the bottom of the node.
-/

namespace CollectorMemory

/-- Chunk starts and granules in use of one node. -/
structure Occupancy where
  /-- The number of words that the map covers. -/
  words : Nat
  /-- The number of words that one bit stands for. -/
  granule : Nat
  /-- A bit is set where a chunk starts. -/
  starts : Layer
  /-- A bit is set where a granule belongs to a chunk in use. -/
  inUse : Layer
  granule_pos : 0 < granule

namespace Occupancy

/-- An empty map of a number of words, which must be a multiple of the granule. -/
def ofWords (words granule : Nat) : Except Fault Occupancy :=
  if positive : 0 < granule then
    if words % granule = 0 then
      .ok {
        words, granule
        starts := Layer.clear (words / granule)
        inUse := Layer.clear (words / granule)
        granule_pos := positive }
    else .error (.map (.partialGranule words granule))
  else .error .assertion

variable (map : Occupancy)

/-- The number of bytes of one layer. -/
def layerBytes : Nat := map.starts.bytes.size

/-- The number of granules. -/
def granules : Nat := map.words / map.granule

/-- The granule that begins at an offset. -/
def position (offset : Nat) : Except Fault Nat := do
  require (offset % map.granule == 0) (.map (.insideGranule offset))
  require (offset < map.words) (.map (.outsideMap offset))
  return offset / map.granule

/-- The first granule of `[offset, offset + size)` and the end of its granules. -/
def range (offset size : Nat) : Except Fault (Nat × Nat) := do
  require (size % map.granule == 0) .assertion
  let stop ← Count.add offset size
  require (stop ≤ map.words) .assertion
  let first ← map.position offset
  return (first, first + size / map.granule)

/-- Whether a chunk starts at an offset. -/
def startsAt (offset : Nat) : Except Fault Bool := do
  map.starts.get (← map.position offset)

/-- The map with a chunk start at an offset marked or cleared. -/
def setStart (offset : Nat) (value : Bool) : Except Fault Occupancy := do
  let position ← map.position offset
  return { map with starts := ← map.starts.set position value }

/-- The map with all chunk starts in `[offset, offset + size)` cleared. -/
def clearStarts (offset size : Nat) : Except Fault Occupancy := do
  let (first, last) ← map.range offset size
  return { map with starts := ← map.starts.setRange first last false }

/-- Whether a granule of `[offset, offset + size)` is in use. A region of one granule is a single
bit. -/
def anyInUse (offset size : Nat) : Except Fault Bool := do
  if size = map.granule then
    map.inUse.get (← map.position offset)
  else
    let (first, last) ← map.range offset size
    map.inUse.anySet first last

/-- Whether all granules of `[offset, offset + size)` are in use. -/
def allInUse (offset size : Nat) : Except Fault Bool := do
  let (first, last) ← map.range offset size
  map.inUse.allEach first last

/-- The map with all granules of `[offset, offset + size)` in use or free. -/
def setInUse (offset size : Nat) (value : Bool) : Except Fault Occupancy := do
  let (first, last) ← map.range offset size
  return { map with inUse := ← map.inUse.setRange first last value }

end Occupancy

end CollectorMemory
