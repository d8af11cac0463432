import CollectorMemory.Chunk.Sizes

/-!
# Operations on chunk handles

What a holder does with a chunk without touching memory: hand out words from the top, count uses,
and check that the handle is in order by itself. A fresh handle is empty, alive and in use.
-/

namespace CollectorMemory

namespace Location

/-- The location some words further on. -/
def advance (place : Location) (words : Nat) : Except Fault Location := do
  return { place with offset := ← Count.add place.offset words }

/-- The number of words from `other` up to `place`, which must be in the same node. -/
def distance (place other : Location) : Except Fault Nat := do
  require (place.node == other.node) .assertion
  require (other.offset ≤ place.offset) .assertion
  Count.sub place.offset other.offset

end Location

namespace Chunk

/-- An empty chunk in use. -/
def fresh (kind : Kind) (isClass : Bool) (size bottom : Nat) (container : NodeId) :
    Except Fault Chunk := do
  require (Header.words < size) .assertion
  let top ← Count.add bottom Header.words
  return {
    container, bottom, size, top, kind, isClass
    sentinel := Header.alive
    origin := .normal
    useCount := 0
    isFree := false }

/-- The number of words handed out. -/
def usedWords (chunk : Chunk) : Except Fault Nat := Count.sub chunk.top chunk.payload

/-- The number of words that can still be handed out. -/
def freeWords (chunk : Chunk) : Except Fault Nat := Count.sub chunk.stop chunk.top

/-- Hand out the next words, if there are enough left. -/
def allocate (chunk : Chunk) (words : Nat) : Except Fault (Option (Location × Chunk)) := do
  if (← chunk.freeWords) < words then return none
  let top ← Count.add chunk.top words
  return some (chunk.topPlace, { chunk with top })

/-- Count one more use. -/
def addUse (chunk : Chunk) : Except Fault Chunk := do
  return { chunk with useCount := ← Count.addHalf chunk.useCount 1 }

/-- Count one use less. -/
def dropUse (chunk : Chunk) : Except Fault Chunk := do
  require (chunk.useCount > 0) (.chunk (.useCountUnderflow chunk))
  return { chunk with useCount := chunk.useCount - 1 }

/-- Check that the size of a chunk fits its kind. -/
def auditSize (chunk : Chunk) (sizes : ChunkSizes) : Except Fault Unit :=
  if chunk.kind.isHumongous then
    require (sizes.isHumongousSize chunk.size) (.chunk (.notHumongousSize chunk.place chunk.size))
  else do
    require (chunk.size == (← sizes.fixedSize chunk.kind))
      (.chunk (.sizeUnlikeKind chunk.place chunk.size chunk.kind))

/-- Check what a chunk must keep by itself: it is alive, its size fits its kind, its top lies in
it, and its offset is aligned. -/
def audit (chunk : Chunk) (sizes : ChunkSizes) : Except Fault Unit := do
  require chunk.isAlive (.chunk (.notAlive chunk.place))
  chunk.auditSize sizes
  require (chunk.payload ≤ chunk.top && chunk.top ≤ chunk.stop) (.chunk (.topOutside chunk.place))
  let alignment := sizes.alignment chunk.kind chunk.size
  require (← Count.isMultiple chunk.bottom alignment)
    (.chunk (.misaligned chunk.place chunk.size alignment))

end Chunk

end CollectorMemory
