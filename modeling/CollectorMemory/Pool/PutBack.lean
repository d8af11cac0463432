import CollectorMemory.Node.Access
import CollectorMemory.Node.Audit
import CollectorMemory.Node.Merge
import CollectorMemory.Pool.Audit

/-!
# Putting chunks back

A chunk that is no longer used goes back into the free pool and is merged with its free neighbours:
into a medium chunk, or failing that, if it is a specialized one, into a small chunk. An area is
merged if it is carved completely, begins and ends at chunk bounds and holds no chunk in use.
-/

namespace CollectorMemory.Pool

/-- Check the pool and a node, where this is asked for. -/
def auditWith (pool : Pool) (node : Node) : Except Fault Unit :=
  checkIf pool.audited do
    pool.audit
    node.audit

/-- Merge the free chunks in the area of the target kind around an offset into one chunk; the first
result is whether this was possible. -/
def mergeAround (pool : Pool) (node : Node) (offset : Nat) (kind target : Kind) :
    Run (Bool × Pool × Node) := do
  require (kind == .specialized && (target == .small || target == .medium)
    || kind == .small && target == .medium) (.pool .invalidMerge)
  let size ← pool.sizes.fixedSize target
  let start ← Count.roundDown offset size
  if !(← node.canMerge start size) then return (false, pool, node)
  Run.note (.coalescing pool.isClass start (start + size) node.id)
  let headers ← node.headersIn start size
  let (pool, absorbed) ← pool.unlinkAll node.id headers
  require ((← Count.sum (absorbed.map Chunk.size)) == size) .assertion
  let (node, merged) ← node.merge start target absorbed
  Run.note (.coalesced pool.isClass merged)
  let count ← Count.sub (pool.count + 1) absorbed.length
  let pool := { pool.push merged with count }
  pool.auditWith node
  return (true, pool, node)

/-- Merge the free neighbours of a free chunk: into a medium chunk, or failing that, if the chunk is
a specialized one, into a small chunk. -/
def mergeNeighbours (pool : Pool) (node : Node) (chunk : Chunk) : Run (Pool × Node) :=
  match chunk.kind with
  | .medium | .humongous => return (pool, node)
  | .small => return (← pool.mergeAround node chunk.bottom .small .medium).2
  | .specialized => do
    let (isMerged, pool, node) ← pool.mergeAround node chunk.bottom .specialized .medium
    if isMerged then return (pool, node)
    return (← pool.mergeAround node chunk.bottom .specialized .small).2

/-- Put a chunk in use back into the pool and merge it with its free neighbours. -/
def putBack (pool : Pool) (node : Node) (chunk : Chunk) : Run (Pool × Node) := do
  require (chunk.container == node.id) (.pool (.wrongNode chunk))
  require (chunk.isClass == pool.isClass) (.pool (.wrongSpace chunk))
  checkIf pool.audited (node.auditChunk chunk)
  require (!chunk.isFree) (.pool (.alreadyFree chunk))
  let chunk := chunk.emptied
  let node ← node.fillPayloadIf pool.audited chunk Words.abandoned
  let node ← node.dropInUse
  let (node, chunk) ← node.setInUse chunk false
  let pool ← pool.countAdded chunk
  Run.note (.returned pool.isClass chunk)
  (pool.push chunk).mergeNeighbours node chunk

/-- Put chunks back one after the other. -/
def putBackAll (pool : Pool) (node : Node) : List Chunk → Run (Pool × Node)
  | [] => return (pool, node)
  | chunk :: rest => do
    let (pool, node) ← pool.putBack node chunk
    putBackAll pool node rest

end CollectorMemory.Pool
