import CollectorMemory.Node.Carving
import CollectorMemory.NodeList.Basic

/-!
# Growth of a node list

When the current node has no room for a chunk, more of it is committed, and when it cannot commit
enough, it is retired and a new node is reserved. Both stay within the limits of the list, and what
is committed always has room for the chunk and for any padding in front of it.
-/

namespace CollectorMemory

/-- The chunk sizes of a space under some options. -/
def ChunkSizes.ofOptions (options : Options) : Space → Except Fault ChunkSizes
  | .nonClass =>
    ofWords options.specializedChunkWords options.smallChunkWords options.mediumChunkWords
  | .classOnly =>
    ofWords options.classSpecializedChunkWords options.classSmallChunkWords
      options.classMediumChunkWords

namespace NodeList

/-- Reserve a new node of a number of words; nothing if the list may not grow by it. -/
def reserve (list : NodeList) (words : Nat) : Run (Option NodeList) := do
  if list.isClass && !list.nodes.isEmpty then return none
  let reserved ← list.reservedWords
  let total ← Count.add reserved words
  if list.limit < total then
    Run.note (.cannotReserve words reserved list.limit)
    return none
  let nextIndex ← Count.addHalf list.nextIndex 1
  let node ← Node.reserve ⟨list.space, list.nextIndex⟩ words list.sizes list.audited
  return some { list with nodes := list.nodes.push node, nextIndex }

/-- The least size of a new node and the limit on reserved words of a space, in words. -/
def dimensions (options : Options) : Space → Except Fault (Nat × Nat)
  | .nonClass => do
    return (← Count.roundUp options.nodeWords options.commitGranuleWords, options.maxWords)
  | .classOnly => do
    let words ← Count.roundUp options.classSpaceWords options.commitGranuleWords
    return (words, words)

/-- The list of a space under some options, with its first node if that can be reserved. -/
def ofOptions (space : Space) (options : Options) : Run NodeList := do
  let sizes ← ChunkSizes.ofOptions options space
  let granule := options.commitGranuleWords
  require (granule % sizes.specialized == 0)
    (.allocator (.granuleNotNested granule sizes.specialized))
  let (nodeWords, limit) ← dimensions options space
  let list : NodeList :=
    { space, sizes, audited := options.audited, nodes := #[], nextIndex := 0, nodeWords, limit,
      granule }
  match ← list.reserve nodeWords with
  | some list => return list
  | none =>
    Run.note (.noFirstNode space nodeWords limit)
    return list

/-- The most words of padding that a chunk of a size can need in front of it: chunks of a fixed size
are aligned to their size, humongous ones need none. -/
def mostPadding (list : NodeList) (size : Nat) : Except Fault Nat := do
  let kind ← list.sizes.kindOfSize size
  return if kind.isHumongous then 0 else size - list.sizes.specialized

/-- Commit words in the current node; the result is whether that was possible. -/
def expandCurrent (list : NodeList) (least preferred : Nat) : Run (Bool × NodeList) := do
  match list.current? with
  | none => return (false, list)
  | some node =>
    match ← node.expand least preferred with
    | none => return (false, list)
    | some node => return (true, list.withNode node)

/-- Carve what is left of the current node into free chunks. -/
def retireCurrent (list : NodeList) (pool : Pool) : Run (NodeList × Pool) := do
  match list.current? with
  | none => return (list, pool)
  | some node =>
    let (node, pool) ← node.retire pool
    return (list.withNode node, pool)

/-- Commit at least `least` words, preferably `preferred`, in the current node or, outside of the
class space, in a new node after the current one is retired; the first result is whether that was
possible. -/
def expand (list : NodeList) (least preferred : Nat) (pool : Pool) :
    Run (Bool × NodeList × Pool) := do
  let allowed := list.limit - (← list.committedWords)
  if allowed < least then
    Run.note (.cannotExpand list.space least allowed)
    return (false, list, pool)
  let most := min preferred allowed
  let (isDone, list) ← list.expandCurrent least most
  if isDone then return (true, list, pool)
  if list.isClass then return (false, list, pool)
  let (list, pool) ← list.retireCurrent pool
  let words ← Count.roundUp (max list.nodeWords preferred) list.granule
  match ← list.reserve words with
  | none => return (false, list, pool)
  | some list =>
    let (isDone, list) ← list.expandCurrent least most
    return (isDone, list, pool)

/-- Carve a chunk from the current node, if it has room. -/
def takeCurrent (list : NodeList) (size : Nat) (pool : Pool) :
    Run (Option Chunk × NodeList × Pool) := do
  match list.current? with
  | none => return (none, list, pool)
  | some node =>
    match ← node.take size pool with
    | none => return (none, list, pool)
    | some (node, pool, chunk) => return (some chunk, list.withNode node, pool)

/-- Carve a new chunk, after committing more words if needed, at least `suggested` of them. -/
def newChunk (list : NodeList) (size suggested : Nat) (pool : Pool) :
    Run (Option Chunk × NodeList × Pool) := do
  let (found, list, pool) ← list.takeCurrent size pool
  if found.isSome then return (found, list, pool)
  let needed ← Count.add size (← list.mostPadding size)
  let least ← Count.roundUp needed list.granule
  let preferred := max (← Count.roundUp suggested list.granule) least
  let (isDone, list, pool) ← list.expand least preferred pool
  if !isDone then return (none, list, pool)
  if list.nodes.isEmpty then return (none, list, pool)
  let (found, list, pool) ← list.takeCurrent size pool
  Run.noteIf found.isNone (.carvingFailed size)
  return (found, list, pool)

end NodeList

end CollectorMemory
