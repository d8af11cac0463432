import CollectorMemory.Chunk.Handle
import CollectorMemory.Node.Words
import CollectorMemory.Occupancy.Basic
import CollectorMemory.Run

/-!
# Nodes

A node is a contiguous reserved range of words. It is committed in steps and carved into chunks from
the bottom up: everything below its top belongs to some chunk, free or in use, and each chunk
begins with its header, so the carved part can be walked from header to header. The occupancy map
shows the chunk starts and the granules in use.
-/

namespace CollectorMemory

/-- A reserved range of words with its chunks. -/
structure Node where
  /-- The handle of the node. -/
  id : NodeId
  /-- The chunk sizes of its space. -/
  sizes : ChunkSizes
  /-- The number of words that may be committed. -/
  reserved : Nat
  /-- Whether the node is checked after every change and fresh payloads are overwritten. -/
  audited : Bool
  /-- The committed words. -/
  words : Words
  /-- The offset of the first word that belongs to no chunk. -/
  top : Nat
  /-- The number of chunks in use. -/
  chunksInUse : Nat
  /-- Chunk starts and granules in use. -/
  map : Occupancy

namespace Node

/-- A new node of a number of words, none of them committed. -/
def reserve (id : NodeId) (words : Nat) (sizes : ChunkSizes) (audited : Bool) : Run Node := do
  require (0 < words && words % sizes.specialized == 0) (.node (.badSize words sizes.specialized))
  Run.note (.reserved id words)
  let map ← Occupancy.ofWords words sizes.specialized
  return { id, sizes, reserved := words, audited, words := #[], top := 0, chunksInUse := 0, map }

variable (node : Node)

/-- Whether the node belongs to the class space. -/
def isClass : Bool := node.id.space.isClass

/-- The number of committed words. -/
def committed : Nat := node.words.size

/-- The number of words carved into chunks. -/
def carvedWords : Nat := node.top

/-- The number of committed words that belong to no chunk. -/
def uncarved : Nat := node.committed - node.top

/-- Whether this many words are committed and belong to no chunk. -/
def isAvailable (words : Nat) : Bool := words ≤ node.uncarved

/-- Whether a location lies in a chunk of the node. -/
def contains (place : Location) : Bool := place.node == node.id && place.offset < node.top

/-- The node with one chunk in use more. -/
def addInUse : Node := { node with chunksInUse := node.chunksInUse + 1 }

/-- The node with one chunk in use less. -/
def dropInUse : Except Fault Node := do
  require (node.chunksInUse > 0) (.node (.countUnderflow node.id))
  return { node with chunksInUse := node.chunksInUse - 1 }

/-- Commit at least `least` words, preferably `preferred`, rounded up to the smallest chunk size
and cut at the end of the node; nothing if fewer than `least` words are left. New words are zero. -/
def expand (least preferred : Nat) : Run (Option Node) := do
  let uncommitted := node.reserved - node.committed
  if uncommitted < least then return none
  let wanted ← Count.roundUp (max preferred least) node.sizes.specialized
  let amount := min wanted uncommitted
  let committed := node.committed + amount
  Run.note (.expanded node.id amount committed node.reserved)
  return some { node with words := node.words ++ Array.replicate amount 0 }

/-- Carve a chunk in use at the top of the node. -/
def carve (kind : Kind) (size : Nat) (origin : Origin) : Except Fault (Node × Chunk) := do
  let top ← Count.add node.top size
  require (top ≤ node.committed) .assertion
  let chunk := (← Chunk.fresh kind node.isClass size node.top node.id).withOrigin origin
  let map ← node.map.setStart chunk.bottom true
  let map ← map.setInUse chunk.bottom size true
  let words ← node.words.writeHeader chunk
  let words ← words.fillIf node.audited chunk.payload (size - Header.words) Words.uninitialized
  return ({ node with words, top, map, chunksInUse := node.chunksInUse + 1 }, chunk)

/-- Tag a chunk in use or free, in its handle, its header and the map. -/
def setInUse (chunk : Chunk) (inUse : Bool) : Except Fault (Node × Chunk) := do
  require (chunk.container == node.id) (.node (.foreignChunk chunk node.id))
  let chunk := chunk.withFree (!inUse)
  let words ← node.words.writeHeader chunk
  let map ← node.map.setInUse chunk.bottom chunk.size inUse
  return ({ node with words, map }, chunk)

end Node

end CollectorMemory
