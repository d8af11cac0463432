import CollectorMemory.Candidates.Chooser
import CollectorMemory.Run

/-!
# Sorting and checking candidates

Candidates are sorted by the bytes that evacuating them would free, most of them first, with empty
slots last; candidates with equal bytes keep their order. Sorting trims the slots that parallel
workers left unused.
-/

namespace CollectorMemory.Chooser

variable (chooser : Chooser)

/-- Whether the content of one slot may stand before that of another: more reclaimable bytes come
first, empty slots last. -/
def mayPrecede : Option Region → Option Region → Bool
  | none, none => true
  | none, some _ => false
  | some _, none => true
  | some left, some right => right.reclaimableBytes ≤ left.reclaimableBytes

/-- Slot contents in the order of their candidates; equal ones keep their order. -/
def sortedSlots (slots : List (Option Nat)) : List (Option Nat) :=
  slots.mergeSort fun left right =>
    mayPrecede (chooser.regionOf left) (chooser.regionOf right)

/-- Check that the candidates in a row do not gain reclaimable bytes. -/
def auditOrder : List Region → Except Fault Unit
  | previous :: current :: rest => do
    require (mayPrecede (some previous) (some current))
      (.candidates (.outOfOrder previous.index previous.reclaimableBytes current.index
        current.reclaimableBytes))
    auditOrder (current :: rest)
  | _ => .ok ()

/-- Check that the slots before the front are empty, that the candidates not yet taken are there,
are movable old regions and in order, and that their bytes add up. -/
def audit : Except Fault Unit := do
  require (chooser.length ≤ chooser.capacity)
    (.candidates (.lengthPastCapacity chooser.length chooser.capacity))
  require (chooser.front ≤ chooser.length)
    (.candidates (.frontPastLength chooser.front chooser.length))
  (List.range chooser.front).forM fun position => do
    require (← chooser.candidateAt position).isNone (.candidates .filledBeforeFront)
  let active ← (List.range' chooser.front (chooser.length - chooser.front)).mapM fun position => do
    match ← chooser.candidateAt position with
    | some region => pure region
    | none => .error (.candidates (.gap position))
  active.forM fun region => do
    require (!region.isYoung) (.candidates .young)
    require (!region.isPinned) (.candidates .pinnedInSet)
  auditOrder active
  let sum ← Count.sum (active.map Region.reclaimableBytes)
  require (sum == chooser.remainingBytes)
    (.candidates (.bytesMismatch chooser.remainingBytes sum))

/-- The slots that sorting keeps in consideration: those below the cursor, if workers claimed
any. -/
def claimedSlots : Except Fault (List (Option Nat)) :=
  if 0 < chooser.cursor then do
    require (chooser.cursor ≤ chooser.slots.size) (.candidates .cursorPastSlots)
    return chooser.slots.toList.take chooser.cursor
  else .ok chooser.slots.toList

/-- Report the liveness of the candidates not yet taken. -/
def reportLiveness (phase : String) : Run Unit := do
  Run.note (.livenessPhase phase)
  Run.note .livenessHeading
  (List.range' chooser.front (chooser.length - chooser.front)).forM fun position => do
    match ← chooser.candidateAt position with
    | none => return
    | some region =>
      Run.note (.liveness region.typeName region.index region.liveBytes region.reclaimableBytes)

/-- Sort the candidates and trim the slots to them. -/
def sort : Run Chooser := do
  let slots := chooser.sortedSlots (← chooser.claimedSlots)
  require (chooser.length ≤ slots.length)
    (.candidates (.endPastSlots chooser.length slots.length))
  let kept := slots.take chooser.length
  require (kept.all Option.isSome) (.candidates .unsortedGap)
  let sorted := { chooser with slots := kept.toArray }
  sorted.reportLiveness "Post-Sorting"
  checkIf sorted.audited sorted.audit
  return sorted

end CollectorMemory.Chooser
