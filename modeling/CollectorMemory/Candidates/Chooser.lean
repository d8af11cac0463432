import CollectorMemory.Candidates.Region
import CollectorMemory.Count
import CollectorMemory.Options.Basic

/-!
# The chooser of evacuation candidates

The chooser keeps the old regions that are worth evacuating in an array of slots, each empty or
holding the index of a region. The active candidates are in `[front, length)` and are consumed from
the front. One thread appends candidates at the end; parallel workers claim runs of slots instead
and fill these, so that `length` then counts filled slots wherever they are.

A slot is half a word, and so is the index of a region. The largest half-word marks an empty slot. A
region that has it for an index can be written to a slot, but is not found there.
-/

namespace CollectorMemory

namespace Slot

/-- The half-word that marks an empty slot. -/
def emptyMark : Nat := 0xffffffff

/-- What a slot holds after the index of a region was written to it. -/
def ofIndex (index : Nat) : Option Nat := if index = emptyMark then none else some index

end Slot

/-- The candidates for evacuation. -/
structure Chooser where
  /-- The regions of the heap. -/
  heap : Array Region
  /-- The slots, each empty or holding the index of a region. -/
  slots : Array (Option Nat)
  /-- The slot of the next candidate. -/
  front : Nat
  /-- The number of candidates, those already taken included. -/
  length : Nat
  /-- The first slot that no parallel worker has claimed. -/
  cursor : Nat
  /-- Regions with at least this many live bytes are no candidates. -/
  threshold : Nat
  /-- The reclaimable bytes of all candidates not yet taken. -/
  remainingBytes : Nat
  /-- Whether the candidates are checked after they are sorted. -/
  audited : Bool

namespace Chooser

/-- The number of live bytes from which on a region is no candidate: a percentage of its size. -/
def liveThreshold (regionBytes percent : Nat) : Except Fault Nat := do
  return (← Count.mul regionBytes percent) / 100

/-- A chooser without candidates; each region must be at its index. -/
def ofHeap (heap : Array Region) (options : Options) : Except Fault Chooser := do
  require (heap.toList.zipIdx.all fun (region, position) => region.index == position) .assertion
  let threshold ← liveThreshold options.regionBytes options.liveThresholdPercent
  return {
    heap
    slots := #[]
    front := 0
    length := 0
    cursor := 0
    threshold
    remainingBytes := 0
    audited := options.audited }

variable (chooser : Chooser)

/-- Whether a number of live bytes is low enough for evacuation. -/
def isLowEnough (liveBytes : Nat) : Bool := liveBytes < chooser.threshold

/-- Whether a region should be a candidate: an old region that can move, has few live bytes and a
complete remembered set. -/
def shouldAdd (region : Region) : Bool :=
  region.isOld && !region.isYoung && !region.isHumongous && !region.isFree && !region.isPinned
    && chooser.isLowEnough region.liveBytes && region.hasCompleteRemSet

/-- The region of a slot's content. -/
def regionOf (slot : Option Nat) : Option Region := slot.bind (chooser.heap[·]?)

/-- The candidate in a slot, if the slot is filled. -/
def candidateAt (position : Nat) : Except Fault (Option Region) :=
  if inside : position < chooser.slots.size then
    match chooser.slots[position] with
    | none => .ok none
    | some index =>
      match chooser.heap[index]? with
      | some region => .ok (some region)
      | none => .error .outOfRange
  else .error .outOfRange

/-- The number of slots. -/
def capacity : Nat := chooser.slots.size

/-- The number of candidates not yet taken. -/
def remaining : Except Fault Nat := do
  require (chooser.front ≤ chooser.length) .assertion
  return chooser.length - chooser.front

/-- The next candidate, if there is one. -/
def peek : Except Fault (Option Region) := do
  if chooser.length ≤ chooser.front then return none
  match ← chooser.candidateAt chooser.front with
  | some region => return some region
  | none => .error (.candidates (.emptySlot chooser.front))

/-- Take the next candidate, if there is one. -/
def pop : Except Fault (Option (Region × Chooser)) := do
  match ← chooser.peek with
  | none => return none
  | some region =>
    require (region.reclaimableBytes ≤ chooser.remainingBytes)
      (.candidates (.remainderTooSmall region.reclaimableBytes chooser.remainingBytes))
    return some (region, { chooser with
      slots := chooser.slots.setIfInBounds chooser.front none
      front := chooser.front + 1
      remainingBytes := chooser.remainingBytes - region.reclaimableBytes })

/-- Put the candidate taken last back. -/
def push (region : Region) : Except Fault Chooser := do
  require (1 ≤ chooser.front) (.candidates .putBackTooMany)
  let front := chooser.front - 1
  require (← chooser.candidateAt front).isNone (.candidates (.slotFilled front))
  let remainingBytes ← Count.add chooser.remainingBytes region.reclaimableBytes
  return { chooser with
    slots := chooser.slots.setIfInBounds front (Slot.ofIndex region.index), front, remainingBytes }

/-- Append a candidate. -/
def add (region : Region) : Except Fault Chooser := do
  require (!region.isPinned) (.candidates (.pinned region.index))
  require region.isOld (.candidates (.notOld region.typeName))
  require region.hasCompleteRemSet (.candidates (.incompleteRemSet region.index))
  require (chooser.length == chooser.slots.size) .assertion
  let remainingBytes ← Count.add chooser.remainingBytes region.reclaimableBytes
  return { chooser with
    slots := chooser.slots.push (Slot.ofIndex region.index)
    length := chooser.length + 1
    remainingBytes }

/-- Go through the candidates in the next `left` slots from a position on, until the process answers
that it wants no more; the first result is whether it went through all of them. -/
def iterateFrom {σ : Type} (process : σ → Region → σ × Bool) (position : Nat) (state : σ) :
    Nat → Except Fault (Bool × σ)
  | 0 => .ok (true, state)
  | left + 1 => do
    match ← chooser.candidateAt position with
    | none => iterateFrom process (position + 1) state left
    | some region =>
      let (state, isDone) := process state region
      if isDone then return (false, state)
      iterateFrom process (position + 1) state left

/-- Go through the candidates not yet taken, until the process answers that it wants no more; the
first result is whether it went through all of them. -/
def iterate {σ : Type} (process : σ → Region → σ × Bool) (state : σ) : Except Fault (Bool × σ) :=
  chooser.iterateFrom process chooser.front state (chooser.length - chooser.front)

/-- The chooser without candidates and slots. -/
def clear : Chooser :=
  { chooser with slots := #[], front := 0, length := 0, cursor := 0, remainingBytes := 0 }

end Chooser

end CollectorMemory
