import CollectorMemory.Chunk.Basic

/-!
# Faults

An operation that meets a broken rule stops with a fault that names the rule and what it was broken
by. Rules come in families, one for each kind of thing they are about, and every rule that has a
wording of its own has it here. Three causes have no wording: a count that leaves the range of a
machine word, a division by zero, and an access outside of an array; and a plain condition that
callers must keep is an `assertion`.
-/

namespace CollectorMemory

/-- Rules about chunk sizes. -/
inductive SizesFault where
  | specializedTooSmall (specialized : Nat)
  | notIncreasing (specialized small medium : Nat)
  | notNested (specialized small medium : Nat)
  | noFixedSize
  | invalidSize (size : Nat)

/-- The wording of a rule about chunk sizes. -/
def SizesFault.message : SizesFault → String
  | specializedTooSmall specialized =>
    s!"Specialized chunk size {specialized} cannot hold the chunk header"
  | notIncreasing specialized small medium =>
    s!"Chunk sizes must be strictly increasing: {specialized} {small} {medium}"
  | notNested specialized small medium =>
    "Each chunk size must be a multiple of the next smaller one: "
      ++ s!"{specialized} {small} {medium}"
  | noFixedSize => "Humongous chunks have no fixed size"
  | invalidSize size => s!"Invalid chunk word size {size}"

/-- Rules that a chunk keeps by itself. -/
inductive ChunkFault where
  | useCountUnderflow (chunk : Chunk)
  | notAlive (place : Location)
  | sizeUnlikeKind (place : Location) (size : Nat) (kind : Kind)
  | notHumongousSize (place : Location) (size : Nat)
  | topOutside (place : Location)
  | misaligned (place : Location) (size alignment : Nat)

/-- The wording of a rule about a chunk. -/
def ChunkFault.message : ChunkFault → String
  | useCountUnderflow chunk => s!"Chunk {chunk.text}: use count underflow"
  | notAlive place => s!"Chunk {place.text}: sentinel invalid"
  | sizeUnlikeKind place size kind =>
    s!"Chunk {place.text}: wordsize {size} does not fit chunk type {kind.name}."
  | notHumongousSize place size =>
    s!"Chunk {place.text}: wordsize {size} is not a humongous size."
  | topOutside place => s!"Chunk {place.text}: Chunk top out of chunk bounds."
  | misaligned place size alignment =>
    s!"Chunk {place.text}: (size {size}) not aligned to {alignment} words."

/-- Rules about the occupancy map of a node. -/
inductive MapFault where
  | partialGranule (words granule : Nat)
  | insideGranule (offset : Nat)
  | outsideMap (offset : Nat)
  | unexpectedStart (offset expected : Nat)
  | notAlive (offset : Nat)
  | unknownKind (offset : Nat)
  | misaligned (offset : Nat)
  | pastRange
  | noFirstStart (first : Nat)
  | missingStart (offset : Nat)
  | freeButMarkedInUse (start granule : Nat)
  | inUseButMarkedFree (start granule : Nat)
  | startNotMarked (chunk : Chunk)
  | startInside (chunk : Chunk)
  | chunkMarkedFree (chunk : Chunk)
  | chunkMarkedInUse (chunk : Chunk)

/-- The wording of a rule about an occupancy map. -/
def MapFault.message : MapFault → String
  | partialGranule words granule =>
    s!"Node size {words} is not a multiple of the map granule {granule}"
  | insideGranule offset => s!"Offset {Text.hex offset} is not granule aligned"
  | outsideMap offset => s!"Offset {Text.hex offset} outside of the map"
  | unexpectedStart offset expected =>
    s!"Unexpected chunk start found at {Text.hex offset} "
      ++ s!"(expected the next chunk to start at {Text.hex expected})."
  | notAlive offset => s!"Invalid chunk at {Text.hex offset}."
  | unknownKind offset => s!"Chunk {Text.hex offset}: Invalid chunk type."
  | misaligned offset => s!"Chunk {Text.hex offset} not aligned."
  | pastRange => "Chunk end overlaps test address range."
  | noFirstStart first => s!"Chunk should start at start of address range {Text.hex first}."
  | missingStart offset => s!"Did not find expected chunk start at {Text.hex offset}."
  | freeButMarkedInUse start granule =>
    s!"Chunk {Text.hex start}: marked in-use in map but is free (bit {granule})."
  | inUseButMarkedFree start granule =>
    s!"Chunk {Text.hex start}: marked free in map but is in use (bit {granule})."
  | startNotMarked chunk => s!"No chunk start marked in map for chunk {chunk.text}."
  | startInside chunk => s!"No chunk must start within another chunk: {chunk.text}."
  | chunkMarkedFree chunk => s!"Chunk {chunk.text} is in use but marked as free in map."
  | chunkMarkedInUse chunk => s!"Chunk {chunk.text} is free but marked as in-use in map."

/-- Rules about a node. -/
inductive NodeFault where
  | badSize (words specialized : Nat)
  | countUnderflow (id : NodeId)
  | foreignChunk (chunk : Chunk) (id : NodeId)
  | chunkNotCarved (chunk : Chunk) (id : NodeId)
  | headerMismatch (chunk : Chunk)
  | notAlive (id : NodeId) (offset : Nat)
  | unknownKind (id : NodeId) (offset : Nat)
  | unknownOrigin (id : NodeId) (offset : Nat)
  | wrongSpace (offset : Nat)
  | sizeUnlikeKind (id : NodeId) (offset size : Nat) (kind : Kind)
  | misaligned (id : NodeId) (offset alignment : Nat)
  | boundsOutOfOrder (id : NodeId) (top committed reserved : Nat)
  | lastChunkPastTop (id : NodeId)
  | countMismatch (id : NodeId)
  | areaNotCarved (start stop : Nat)
  | noHeader (id : NodeId) (offset : Nat)
  | chunkAcrossEnd (start stop : Nat)
  | cannotSplit (chunk : Chunk) (target : Kind)
  | nothingFits (id : NodeId) (offset : Nat)
  | foreignPlace (place : Location) (id : NodeId)
  | accessNotCarved (length : Nat) (place : Location) (id : NodeId)
  | wrongPool
  | wordsLeftOver (id : NodeId)

/-- The wording of a rule about a node. -/
def NodeFault.message : NodeFault → String
  | badSize words specialized =>
    s!"Node size {words} must be a non-zero multiple of the specialized chunk size {specialized}"
  | countUnderflow id => s!"Node {id.text}: container count underflow"
  | foreignChunk chunk id => s!"Chunk {chunk.text} is not in node {id.text}"
  | chunkNotCarved chunk id =>
    s!"Chunk {chunk.text} is outside of the carved part of node {id.text}"
  | headerMismatch chunk => s!"Chunk {chunk.text}: header in memory does not match"
  | notAlive id offset =>
    s!"Node {id.text}: chunk at {Text.hex offset} has an invalid sentinel"
  | unknownKind id offset => s!"Node {id.text}: chunk at {Text.hex offset}: Invalid chunk type."
  | unknownOrigin id offset =>
    s!"Node {id.text}: chunk at {Text.hex offset}: Invalid chunk origin."
  | wrongSpace offset => s!"Chunk at {Text.hex offset}: wrong space"
  | sizeUnlikeKind id offset size kind =>
    s!"Node {id.text}: chunk at {Text.hex offset}: wordsize {size} does not fit "
      ++ s!"chunk type {kind.name}."
  | misaligned id offset alignment =>
    s!"Node {id.text}: chunk at {Text.hex offset} not aligned to {alignment} words."
  | boundsOutOfOrder id top committed reserved =>
    s!"Node {id.text}: top {top} committed {committed} reserved {reserved}"
  | lastChunkPastTop id => s!"Node {id.text}: last chunk overlaps top"
  | countMismatch id =>
    s!"Node {id.text}: container count does not match the number of chunks in use"
  | areaNotCarved start stop => s!"Area [{Text.hex start}-{Text.hex stop}) is not carved"
  | noHeader id offset => s!"No chunk header at {Text.hex offset} in node {id.text}"
  | chunkAcrossEnd start stop =>
    s!"A chunk straddles the end of area [{Text.hex start}-{Text.hex stop})"
  | cannotSplit chunk target => s!"Cannot split {chunk.text} into {target.name} chunks"
  | nothingFits id offset => s!"No chunk type fits at {Text.hex offset} in node {id.text}"
  | foreignPlace place id => s!"{place.text} is not in node {id.text}"
  | accessNotCarved length place id =>
    s!"Access to {length} words at {place.text} is outside of the carved part of node {id.text}"
  | wrongPool => "Wrong chunk manager"
  | wordsLeftOver id => s!"Node {id.text} should be empty now"

/-- Rules about a free pool. -/
inductive PoolFault where
  | unknownNode (chunk : Chunk)
  | wrongNode (chunk : Chunk)
  | wrongSpace (chunk : Chunk)
  | alreadyFree (chunk : Chunk)
  | invalidMerge
  | notInPool (isClass : Bool) (offset : Nat) (id : NodeId)
  | wrongList (chunk : Chunk) (kind : Kind)
  | notHumongous (chunk : Chunk)
  | notFree (chunk : Chunk)
  | foreignSpace (chunk : Chunk)
  | countMismatch (isClass : Bool)
  | totalMismatch (isClass : Bool)

/-- The wording of a rule about a free pool. -/
def PoolFault.message : PoolFault → String
  | unknownNode chunk => s!"Chunk {chunk.text} refers to a node that is not in the list"
  | wrongNode chunk => s!"Chunk {chunk.text} returned with the wrong node"
  | wrongSpace chunk => s!"Chunk {chunk.text} returned to the wrong space"
  | alreadyFree chunk => s!"Chunk {chunk.text} should be in use."
  | invalidMerge => "Invalid chunk merge combination."
  | notInPool isClass offset id =>
    s!"{Space.poolName isClass}: chunk at {Text.hex offset} in node {id.text} "
      ++ "is not in the free pool"
  | wrongList chunk kind => s!"Chunk {chunk.text} is in the {kind.name} free list"
  | notHumongous chunk => s!"Chunk {chunk.text} in the humongous dictionary"
  | notFree chunk => s!"Chunk {chunk.text} in the free pool is not free"
  | foreignSpace chunk => s!"Chunk {chunk.text} in the wrong space"
  | countMismatch isClass => s!"{Space.poolName isClass}: free chunk count mismatch"
  | totalMismatch isClass => s!"{Space.poolName isClass}: free chunk total mismatch"

/-- Rules about node lists and the allocator over them. -/
inductive AllocatorFault where
  | granuleNotNested (granule specialized : Nat)
  | overLimit (space : Space) (reserved limit : Nat)
  | invalidRequest (size : Nat) (space : Space)
  | returnedAfterPurge (chunk : Chunk)
  | purgedNode (chunk : Chunk)
  | freeChunkOfPurgedNode (chunk : Chunk)
  | accessNotAllocated (length : Nat) (place : Location) (chunk : Chunk)

/-- The wording of a rule about the allocator. -/
def AllocatorFault.message : AllocatorFault → String
  | granuleNotNested granule specialized =>
    s!"Commit granule {granule} must be a multiple of the specialized chunk size {specialized}"
  | overLimit space reserved limit =>
    s!"{space.name} metaspace reserved {reserved} words over the limit {limit}"
  | invalidRequest size space => s!"Invalid chunk word size {size} for {space.name} metaspace"
  | returnedAfterPurge chunk => s!"Chunk {chunk.text} returned after its node was purged"
  | purgedNode chunk => s!"Chunk {chunk.text} refers to a purged node"
  | freeChunkOfPurgedNode chunk => s!"Free chunk {chunk.text} refers to a purged node"
  | accessNotAllocated length place chunk =>
    s!"Access to {length} words at {place.text} is outside of the allocated part of {chunk.text}"

/-- Rules about the candidates for evacuation. -/
inductive CandidateFault where
  | emptySlot (slot : Nat)
  | remainderTooSmall (bytes remaining : Nat)
  | putBackTooMany
  | slotFilled (slot : Nat)
  | pinned (region : Nat)
  | notOld (typeName : String)
  | incompleteRemSet (region : Nat)
  | cursorPastSlots
  | endPastSlots (length slots : Nat)
  | unsortedGap
  | lengthPastCapacity (length capacity : Nat)
  | frontPastLength (front length : Nat)
  | filledBeforeFront
  | gap (slot : Nat)
  | young
  | pinnedInSet
  | outOfOrder (previous previousBytes current currentBytes : Nat)
  | bytesMismatch (remaining sum : Nat)
  | noWorkers
  | notExpanded
  | slotTaken (slot : Nat)
  | bytesWithoutRegions
  | tooFewRegions (regions : Nat)
  | noClaimWorkers
  | unknownWorker (worker : Nat)

/-- The wording of a rule about candidates. -/
def CandidateFault.message : CandidateFault → String
  | emptySlot slot => s!"Unexpected empty slot at index {slot}"
  | remainderTooSmall bytes remaining =>
    s!"Remaining reclaimable bytes inconsistent from region: {bytes} remaining: {remaining}"
  | putBackTooMany => "Too many regions have been put back"
  | slotFilled slot => s!"Slot {slot} is not empty"
  | pinned region =>
    s!"Pinned region shouldn't be added to the collection set (index {region})"
  | notOld typeName => s!"should be old but is {typeName}"
  | incompleteRemSet region =>
    s!"Trying to add region {region} to the collection set with incomplete remembered set"
  | cursorPastSlots => "Not enough chunk space was reserved"
  | endPastSlots length slots => s!"end {length} beyond {slots} slots"
  | unsortedGap => "Should be true by sorting!"
  | lengthPastCapacity length capacity => s!"_end: {length} regions capacity: {capacity}"
  | frontPastLength front length => s!"_front: {front} _end: {length}"
  | filledBeforeFront => "all entries before _front should be empty"
  | gap slot => s!"Regions in the active range cannot be empty (index {slot})"
  | young => "should not be young!"
  | pinnedInSet => "should not be pinned!"
  | outOfOrder previous previousBytes current currentBytes =>
    s!"Candidates out of order: prev {previous} reclaimable {previousBytes} "
      ++ s!"curr {current} reclaimable {currentBytes}"
  | bytesMismatch remaining sum =>
    s!"reclaimable bytes inconsistent, remaining: {remaining} sum: {sum}"
  | noWorkers => "Active gc workers should be greater than 0"
  | notExpanded => "Should already have been expanded"
  | slotTaken slot => s!"Slot {slot} is already taken"
  | bytesWithoutRegions => "No regions but reclaimable bytes"
  | tooFewRegions regions => s!"Only {regions} regions in the heap"
  | noClaimWorkers => "Need at least one worker"
  | unknownWorker worker => s!"Invalid worker_id {worker}"

/-- Why an operation stopped. -/
inductive Fault where
  /-- A count left the range of its machine type. -/
  | overflow
  /-- A division by zero. -/
  | divideByZero
  /-- An access outside of an array. -/
  | outOfRange
  /-- A condition without a wording of its own does not hold. -/
  | assertion
  /-- A parallel worker stopped with a fault. -/
  | worker
  | sizes (fault : SizesFault)
  | chunk (fault : ChunkFault)
  | map (fault : MapFault)
  | node (fault : NodeFault)
  | pool (fault : PoolFault)
  | allocator (fault : AllocatorFault)
  | candidates (fault : CandidateFault)

/-- The wording of a fault, if it has one of its own. -/
def Fault.message? : Fault → Option String
  | overflow | divideByZero | outOfRange | assertion | worker => none
  | sizes fault => some fault.message
  | chunk fault => some fault.message
  | map fault => some fault.message
  | node fault => some fault.message
  | pool fault => some fault.message
  | allocator fault => some fault.message
  | candidates fault => some fault.message

/-- Stop with a fault unless a condition holds. -/
def require (condition : Bool) (fault : Fault) : Except Fault Unit :=
  if condition then .ok () else .error fault

/-- Make a check only where it is asked for. -/
def checkIf (asked : Bool) (check : Except Fault Unit) : Except Fault Unit :=
  if asked then check else .ok ()

theorem require_eq_ok_iff {condition : Bool} {fault : Fault} :
    require condition fault = .ok () ↔ condition = true := by
  cases condition <;> simp [require]

end CollectorMemory
