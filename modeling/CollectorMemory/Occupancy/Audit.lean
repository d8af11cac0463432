import CollectorMemory.Chunk.Handle
import CollectorMemory.Occupancy.Basic

/-!
# Checking an occupancy map

`Occupancy.audit` goes through the granules of a range and compares both layers with the headers
found at the chunk starts: chunks must follow each other without a gap and end inside the range,
and each granule must be in use exactly if its chunk is not free. `Occupancy.auditChunk` compares
the map with one chunk.
-/

namespace CollectorMemory.Occupancy

/-- The chunk that covers the granule looked at. -/
structure Covering where
  /-- Where the chunk starts. -/
  start : Nat
  /-- The header found there. -/
  header : Header
  /-- Where the next chunk must start. -/
  stop : Nat
  /-- The number of the granule in the chunk. -/
  granule : Nat

variable (map : Occupancy)

/-- Check that a chunk of a fixed size is aligned to its size. -/
def auditAlignment (offset : Nat) (header : Header) : Except Fault Unit :=
  if header.kind? = some .humongous then .ok ()
  else do require (← Count.isMultiple offset header.size.toNat) (.map (.misaligned offset))

/-- The chunk that starts at `offset`, where the one before it must have ended. -/
def enter (stop : Nat) (headerAt : Nat → Except Fault Header) (offset expected : Nat) :
    Except Fault Covering := do
  require (expected == offset) (.map (.unexpectedStart offset expected))
  let header ← headerAt offset
  require header.isAlive (.map (.notAlive offset))
  require header.kind?.isSome (.map (.unknownKind offset))
  auditAlignment offset header
  let chunkStop ← Count.add offset header.size.toNat
  require (chunkStop ≤ stop) (.map .pastRange)
  return { start := offset, header, stop := chunkStop, granule := 0 }

/-- The chunk that covers the granule at `offset`, at which no chunk starts. -/
def stay (first offset : Nat) : Option Covering → Except Fault Covering
  | none => .error (.map (.noFirstStart first))
  | some covering => do
    require (offset < covering.stop) (.map (.missingStart offset))
    return { covering with granule := covering.granule + 1 }

/-- The chunk that covers the granule at `offset`; `covering` is the chunk of the granule before. -/
def cover (first stop : Nat) (headerAt : Nat → Except Fault Header) (offset : Nat)
    (covering : Option Covering) (isStart : Bool) : Except Fault Covering :=
  if isStart then enter stop headerAt offset (covering.elim first Covering.stop)
  else stay first offset covering

/-- Check that a granule is in use exactly if the chunk that covers it is not free. -/
def Covering.agree (covering : Covering) (inUse : Bool) : Except Fault Unit :=
  if inUse then
    require (!covering.header.isFree)
      (.map (.freeButMarkedInUse covering.start covering.granule))
  else
    require covering.header.isFree (.map (.inUseButMarkedFree covering.start covering.granule))

/-- Check the granules from `offset` on; `covering` is the chunk of the granule before it. -/
def auditFrom (first stop : Nat) (headerAt : Nat → Except Fault Header) (offset : Nat)
    (covering : Option Covering) : Except Fault Unit :=
  if offset < stop then do
    let position ← map.position offset
    let isStart ← map.starts.get position
    let covering ← cover first stop headerAt offset covering isStart
    covering.agree (← map.inUse.get position)
    auditFrom first stop headerAt (offset + map.granule) (some covering)
  else .ok ()
termination_by stop - offset
decreasing_by
  have := map.granule_pos
  omega

/-- Check the map in `[first, stop)` against the headers found at the chunk starts. -/
def audit (first stop : Nat) (headerAt : Nat → Except Fault Header) : Except Fault Unit :=
  map.auditFrom first stop headerAt first none

/-- Check that the map shows no start in a chunk after its first granule. -/
def auditInside (chunk : Chunk) : Except Fault Unit :=
  if map.granule < chunk.size then do
    let second ← Count.add chunk.bottom map.granule
    let (first, last) ← map.range second (chunk.size - map.granule)
    require (!(← map.starts.anySet first last)) (.map (.startInside chunk))
  else .ok ()

/-- Check that the map shows a chunk as it is: a start at its bottom and nowhere else in it, and
its granules all in use or, if it is free, none of them. -/
def auditChunk (chunk : Chunk) : Except Fault Unit := do
  require (← map.startsAt chunk.bottom) (.map (.startNotMarked chunk))
  map.auditInside chunk
  if chunk.isFree then
    require (!(← map.anyInUse chunk.bottom chunk.size)) (.map (.chunkMarkedInUse chunk))
  else
    require (← map.allInUse chunk.bottom chunk.size) (.map (.chunkMarkedFree chunk))

end CollectorMemory.Occupancy
