import CollectorMemory.Candidates.Chooser

/-!
# Adding candidates in parallel

A parallel worker adds candidates through an updater of its own. The updater claims a run of slots
at a time and fills it; what it added is counted in the chooser once, when the updater is closed.
The claim of a run, the filling of a slot and each of the two additions at the end are single steps
on the chooser that all workers share; the shared counters wrap around at `wordLimit`.
-/

namespace CollectorMemory

namespace Chooser

variable (chooser : Chooser)

/-- The number of slots that a worker claims at a time: at least an equal share, so that each worker
claims few runs. -/
def workChunkSize (workers regions : Nat) : Except Fault Nat := do
  require (0 < workers) (.candidates .noWorkers)
  let share := max (regions / workers) 1
  return max (regions / (← Count.mul workers 4)) share

/-- Enough empty slots for all regions, with one run of slots to waste for each worker. -/
def prepare (workers regions chunkSize : Nat) : Except Fault Chooser := do
  require (0 < chunkSize) .assertion
  let waste ← Count.mul workers chunkSize
  let size ← Count.add (← Count.roundUp regions chunkSize) waste
  let added := Array.replicate (size - chooser.slots.size) none
  return { chooser with slots := chooser.slots ++ added, cursor := 0 }

/-- Claim the next run of slots; the first result is the first of them. -/
def claimSlots (chunkSize : Nat) : Except Fault (Nat × Chooser) := do
  let stop ← Count.add chooser.cursor chunkSize
  require (stop ≤ chooser.slots.size) (.candidates .notExpanded)
  return (chooser.cursor, { chooser with cursor := stop })

/-- Write a region to an empty slot. -/
def fillSlot (position : Nat) (region : Region) : Except Fault Chooser := do
  require region.isOld (.candidates (.notOld region.typeName))
  if inside : position < chooser.slots.size then
    require chooser.slots[position].isNone (.candidates (.slotTaken position))
    return { chooser with slots := chooser.slots.set position (Slot.ofIndex region.index) inside }
  else .error .outOfRange

/-- The chooser with more candidates counted. -/
def addLength (regions : Nat) : Chooser :=
  { chooser with length := (chooser.length + regions) % wordLimit }

/-- The chooser with more reclaimable bytes counted. -/
def addBytes (bytes : Nat) : Chooser :=
  { chooser with remainingBytes := (chooser.remainingBytes + bytes) % wordLimit }

/-- Count the regions that a worker added to its slots, and their bytes. -/
def addTotals (regions bytes : Nat) : Except Fault Chooser := do
  if 0 < regions then return (chooser.addLength regions).addBytes bytes
  require (bytes == 0) (.candidates .bytesWithoutRegions)
  return chooser

end Chooser

/-- A worker's means of adding candidates. -/
structure Updater where
  /-- The number of slots claimed at a time. -/
  chunkSize : Nat
  /-- The next slot to fill. -/
  next : Nat
  /-- The end of the run of slots that is being filled. -/
  stop : Nat
  /-- The number of regions added. -/
  added : Nat
  /-- The reclaimable bytes of the regions added. -/
  bytes : Nat

namespace Updater

/-- An updater that has claimed no slots yet. -/
def ofChunkSize (chunkSize : Nat) : Updater where
  chunkSize
  next := 0
  stop := 0
  added := 0
  bytes := 0

variable (updater : Updater) (chooser : Chooser)

/-- Whether the updater has to claim a run of slots before it can fill one. -/
def isFull : Bool := updater.next == updater.stop

/-- Claim the next run of slots. -/
def claim : Except Fault (Updater × Chooser) := do
  let (next, chooser) ← chooser.claimSlots updater.chunkSize
  return ({ updater with next, stop := next + updater.chunkSize }, chooser)

/-- Fill the next slot of the run. -/
def place (region : Region) : Except Fault (Updater × Chooser) := do
  require (updater.next < updater.stop) .assertion
  let chooser ← chooser.fillSlot updater.next region
  let bytes ← Count.add updater.bytes region.reclaimableBytes
  return ({ updater with next := updater.next + 1, added := updater.added + 1, bytes }, chooser)

/-- Add a candidate. -/
def add (region : Region) : Except Fault (Updater × Chooser) :=
  if updater.isFull then do
    let (updater, chooser) ← updater.claim chooser
    updater.place chooser region
  else updater.place chooser region

/-- Count what was added in the chooser. -/
def close : Except Fault Chooser :=
  if 0 < updater.added then chooser.addTotals updater.added updater.bytes else .ok chooser

end Updater

end CollectorMemory
