import CollectorMemory.Node.Basic
import CollectorMemory.Occupancy.Audit

/-!
# Checking a node

`Node.audit` walks the chunks of a node from header to header, checks each header, counts the chunks
in use, and then checks the occupancy map against the same headers. `Node.auditChunk` checks that a
handle describes a chunk of the node: the handle by itself, its header in memory, and the map.
-/

namespace CollectorMemory

/-- Every chunk size is positive. -/
theorem ChunkSizes.pos_of_isChunkSize {sizes : ChunkSizes} {size : Nat}
    (fits : sizes.isChunkSize size) : 0 < size := by
  have := sizes.specialized_pos
  have := sizes.small_pos
  have := sizes.medium_pos
  simp only [isChunkSize, isHumongousSize, Bool.or_eq_true, Bool.and_eq_true, beq_iff_eq,
    decide_eq_true_eq] at fits
  omega

namespace Node

variable (node : Node)

/-- Check a header found at an offset; the result is the size of its chunk, which is positive. -/
def auditHeader (offset : Nat) (header : Header) : Except Fault { size : Nat // 0 < size } := do
  require header.isAlive (.node (.notAlive node.id offset))
  match header.kind? with
  | none => .error (.node (.unknownKind node.id offset))
  | some kind =>
    let size := header.size.toNat
    require header.origin?.isSome (.node (.unknownOrigin node.id offset))
    require (header.isClass == node.isClass) (.node (.wrongSpace offset))
    if fits : node.sizes.isChunkSize size then
      require ((← node.sizes.kindOfSize size) == kind)
        (.node (.sizeUnlikeKind node.id offset size kind))
      let alignment := node.sizes.alignment kind size
      require (← Count.isMultiple offset alignment)
        (.node (.misaligned node.id offset alignment))
      return ⟨size, ChunkSizes.pos_of_isChunkSize fits⟩
    else .error (.node (.sizeUnlikeKind node.id offset size kind))

/-- Walk the chunks from an offset to the top; the result is where the last chunk ends and how many
chunks are in use, counted from `inUse`. -/
def walk (offset inUse : Nat) : Except Fault (Nat × Nat) :=
  if offset < node.top then do
    let header ← node.words.headerAt offset
    let ⟨size, _⟩ ← node.auditHeader offset header
    walk (offset + size) (if header.isFree then inUse else inUse + 1)
  else .ok (offset, inUse)
termination_by node.top - offset

/-- Check all chunks of the node, the number of chunks in use and the map. -/
def audit : Except Fault Unit := do
  require (node.top ≤ node.committed && node.committed ≤ node.reserved)
    (.node (.boundsOutOfOrder node.id node.top node.committed node.reserved))
  let (stop, inUse) ← node.walk 0 0
  require (stop == node.top) (.node (.lastChunkPastTop node.id))
  require (inUse == node.chunksInUse) (.node (.countMismatch node.id))
  node.map.audit 0 node.top node.words.headerAt

/-- Check that a handle describes a chunk of the node. -/
def auditChunk (chunk : Chunk) : Except Fault Unit := do
  chunk.audit node.sizes
  require (chunk.container == node.id) (.node (.foreignChunk chunk node.id))
  require (chunk.stop ≤ node.top) (.node (.chunkNotCarved chunk node.id))
  require ((← node.words.headerAt chunk.bottom) == chunk.header) (.node (.headerMismatch chunk))
  node.map.auditChunk chunk

end Node

end CollectorMemory
