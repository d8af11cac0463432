import CollectorMemory.NodeList.Growth
import CollectorMemory.NodeList.Purge
import CollectorMemory.Pool.Take

/-!
# The chunk allocator

The allocator owns the nodes and the free pool of each space. It serves a request from the free pool
or else from the nodes, takes chunks back, and gives up nodes that are no longer used. A request
that nothing can serve is an ordinary answer, not a fault.
-/

namespace CollectorMemory

/-- The nodes and the free chunks of one space. -/
structure Arena where
  /-- The nodes of the space. -/
  list : NodeList
  /-- The free chunks of the space. -/
  pool : Pool

/-- The arenas of both spaces. -/
structure Allocator where
  /-- The options that the allocator was made with. -/
  options : Options
  /-- The space for all metadata but class metadata. -/
  nonClass : Arena
  /-- The class space. -/
  classOnly : Arena

/-- A request that neither the free pool nor the nodes of a space can serve. -/
structure AllocationFailure where
  /-- The space of the request. -/
  space : Space
  /-- The size of the request in words. -/
  size : Nat

/-- The text of an allocation failure. -/
def AllocationFailure.text (failure : AllocationFailure) : String :=
  s!"out of {failure.space.name} metaspace: cannot allocate a chunk of {failure.size} words"

namespace Arena

/-- The arena of a space under some options. -/
def ofOptions (space : Space) (options : Options) : Run Arena := do
  let list ← NodeList.ofOptions space options
  return { list, pool := Pool.empty space.isClass list.sizes options.audited }

/-- A chunk from the free pool or, failing that, from the nodes. -/
def provide (arena : Arena) (size suggested : Nat) : Run (Option Chunk × Arena) := do
  match ← arena.pool.take arena.list size with
  | some (pool, list, chunk) => return (some chunk, { list, pool })
  | none =>
    let (found, list, pool) ← arena.list.newChunk size suggested arena.pool
    return (found, { list, pool })

/-- Check the free pool, every free chunk against its node, and every node. -/
def audit (arena : Arena) : Except Fault Unit := do
  arena.pool.audit
  arena.pool.chunks.forM fun chunk =>
    match arena.list.node? chunk.container with
    | some node => node.auditChunk chunk
    | none => .error (.allocator (.freeChunkOfPurgedNode chunk))
  arena.list.audit

end Arena

namespace Allocator

/-- The allocator under some options. -/
def ofOptions (options : Options) : Run Allocator := do
  let nonClass ← Arena.ofOptions .nonClass options
  let classOnly ← Arena.ofOptions .classOnly options
  Run.note (.initialized options.audited)
  return { options, nonClass, classOnly }

variable (allocator : Allocator)

/-- The arena of a space. -/
def arena : Space → Arena
  | .nonClass => allocator.nonClass
  | .classOnly => allocator.classOnly

/-- The allocator with another arena of a space. -/
def withArena (space : Space) (arena : Arena) : Allocator :=
  match space with
  | .nonClass => { allocator with nonClass := arena }
  | .classOnly => { allocator with classOnly := arena }

/-- The chunk sizes of a space. -/
def sizes (space : Space) : ChunkSizes := (allocator.arena space).list.sizes

/-- The node with a handle, if it was not purged. -/
def node? (id : NodeId) : Option Node := (allocator.arena id.space).list.node? id

/-- The allocator with the node of the same handle replaced. -/
def withNode (node : Node) : Allocator :=
  let arena := allocator.arena node.id.space
  allocator.withArena node.id.space { arena with list := arena.list.withNode node }

/-- The node of a chunk. -/
def nodeOf (chunk : Chunk) : Except Fault Node :=
  match allocator.node? chunk.container with
  | some node => .ok node
  | none => .error (.allocator (.purgedNode chunk))

/-- Allocate a chunk of a size in a space, or fail if nothing can serve the request. -/
def allocate (space : Space) (size : Nat) :
    Run (Except AllocationFailure Chunk × Allocator) := do
  let arena := allocator.arena space
  require (arena.list.sizes.isChunkSize size) (.allocator (.invalidRequest size space))
  let (found, arena) ← arena.provide size allocator.options.commitGranuleWords
  let allocator := allocator.withArena space arena
  match found with
  | some chunk =>
    let chunk ← chunk.addUse
    Run.note (.allocated chunk)
    return (.ok chunk, allocator)
  | none =>
    Run.note (.allocationFailed size arena.pool.summary)
    return (.error { space, size }, allocator)

/-- Put a chunk back into the free pool of its space. -/
def putBack (chunk : Chunk) : Run Allocator := do
  let space := chunk.container.space
  let arena := allocator.arena space
  match arena.list.node? chunk.container with
  | none => Run.fail (.allocator (.returnedAfterPurge chunk))
  | some node =>
    let (pool, node) ← arena.pool.putBack node chunk
    return allocator.withArena space { list := arena.list.withNode node, pool }

/-- Check that `length` words from a location lie in the allocated part of a chunk. -/
def checkAccess (chunk : Chunk) (place : Location) (length : Nat) : Except Fault Unit := do
  let fault := .allocator (.accessNotAllocated length place chunk)
  require (place.node == chunk.container && chunk.payload ≤ place.offset) fault
  let stop ← Count.add place.offset length
  require (stop ≤ chunk.top) fault

/-- Read words of the allocated part of a chunk. -/
def readWords (chunk : Chunk) (place : Location) (length : Nat) :
    Except Fault (List UInt64) := do
  checkAccess chunk place length
  (← allocator.nodeOf chunk).readWords place length

/-- Write words to the allocated part of a chunk. -/
def writeWords (chunk : Chunk) (place : Location) (data : List UInt64) :
    Except Fault Allocator := do
  checkAccess chunk place data.length
  return allocator.withNode (← (← allocator.nodeOf chunk).writeWords place data)

/-- Give up the nodes of a space that hold no chunk in use; the first result is how many. -/
def purge (space : Space) : Run (Nat × Allocator) := do
  let arena := allocator.arena space
  let (list, pool, purged) ← arena.list.purge arena.pool
  Run.noteIf (0 < purged) (.purged purged space pool.summary)
  return (purged, allocator.withArena space { list, pool })

/-- Check both arenas. -/
def audit : Except Fault Unit := do
  allocator.nonClass.audit
  allocator.classOnly.audit

/-- Tag a chunk in use or free. -/
def setInUse (chunk : Chunk) (inUse : Bool) : Except Fault (Allocator × Chunk) := do
  let (node, chunk) ← (← allocator.nodeOf chunk).setInUse chunk inUse
  return (allocator.withNode node, chunk)

/-- Check that a handle describes a chunk of its node. -/
def auditChunk (chunk : Chunk) : Except Fault Unit := do
  (← allocator.nodeOf chunk).auditChunk chunk

end Allocator

end CollectorMemory
