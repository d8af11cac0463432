import CollectorMemory.Pool.Basic

/-!
# Checking a free pool

Every chunk of a free pool must be in order by itself, be tagged free, belong to the space of the
pool and be in the list of its kind, and the numbers that the pool keeps must be those of the
chunks in it.
-/

namespace CollectorMemory.Pool

variable (pool : Pool)

/-- Check one chunk of the list of a kind. -/
def auditFree (kind : Kind) (chunk : Chunk) : Except Fault Unit := do
  require (chunk.kind == kind)
    (.pool (if kind.isHumongous then .notHumongous chunk else .wrongList chunk kind))
  chunk.audit pool.sizes
  require chunk.isFree (.pool (.notFree chunk))
  require (chunk.isClass == pool.isClass) (.pool (.foreignSpace chunk))

/-- Check the list of a kind; the result is the number of words in it, counted from `words`. -/
def auditKind (words : Nat) (kind : Kind) : Except Fault Nat :=
  (pool.ofKind kind).foldlM (fun words chunk => do
    pool.auditFree kind chunk
    Count.add words chunk.size) words

/-- Check all chunks of the pool and its numbers. -/
def audit : Except Fault Unit := do
  let words ← Kind.all.foldlM pool.auditKind 0
  require (pool.chunks.length == pool.count) (.pool (.countMismatch pool.isClass))
  require (words == pool.words) (.pool (.totalMismatch pool.isClass))

end CollectorMemory.Pool
