import CollectorMemory.Chunk.Handle
import CollectorMemory.Pool.Ordered
import CollectorMemory.Run

/-!
# Free pools

The free chunks of one space: an ordered list for each kind, and the number of free chunks and of
the words in them, which are kept by every change rather than computed.
-/

namespace CollectorMemory

/-- The position of the list of a kind of fixed size among the lists of free chunks. -/
def Kind.freeListIndex (kind : Kind) : Except Fault Nat := do
  require (!kind.isHumongous) .assertion
  return kind.code.toNat

/-- The lists of free chunks are in the order of the kinds of fixed size. -/
theorem Kind.freeListIndex_eq_ok_iff {kind : Kind} {position : Nat} :
    kind.freeListIndex = .ok position ↔ Kind.fixed[position]? = some kind := by
  constructor
  · cases kind <;> intro isPosition <;> cases isPosition <;> rfl
  · intro found
    match position, found with
    | 0, rfl | 1, rfl | 2, rfl => rfl

/-- The free chunks of one space. -/
structure Pool where
  /-- Whether the pool serves the class space. -/
  isClass : Bool
  /-- The chunk sizes of the space. -/
  sizes : ChunkSizes
  /-- Whether the pool is checked after every change and returned payloads are overwritten. -/
  audited : Bool
  /-- Free specialized chunks, by location. -/
  specialized : List Chunk
  /-- Free small chunks, by location. -/
  small : List Chunk
  /-- Free medium chunks, by location. -/
  medium : List Chunk
  /-- Free humongous chunks, by size, then location. -/
  humongous : List Chunk
  /-- The number of words in all free chunks. -/
  words : Nat
  /-- The number of free chunks. -/
  count : Nat

namespace Pool

/-- A pool without chunks. -/
def empty (isClass : Bool) (sizes : ChunkSizes) (audited : Bool) : Pool where
  isClass
  sizes
  audited
  specialized := []
  small := []
  medium := []
  humongous := []
  words := 0
  count := 0

variable (pool : Pool)

/-- The free chunks of a kind. -/
def ofKind : Kind → List Chunk
  | .specialized => pool.specialized
  | .small => pool.small
  | .medium => pool.medium
  | .humongous => pool.humongous

/-- The pool with other free chunks of a kind. -/
def withKind (kind : Kind) (chunks : List Chunk) : Pool :=
  match kind with
  | .specialized => { pool with specialized := chunks }
  | .small => { pool with small := chunks }
  | .medium => { pool with medium := chunks }
  | .humongous => { pool with humongous := chunks }

/-- All free chunks, kind by kind. -/
def chunks : List Chunk := Kind.all.flatMap pool.ofKind

/-- The pool in numbers. -/
def summary : PoolSummary where
  isClass := pool.isClass
  specialized := pool.specialized.length
  small := pool.small.length
  medium := pool.medium.length
  humongous := pool.humongous.length
  chunks := pool.count
  words := pool.words

/-- The pool with a chunk in the list of its kind; the numbers stay. -/
def push (chunk : Chunk) : Pool :=
  pool.withKind chunk.kind
    (insertOrdered (Chunk.freeOrder chunk.kind) chunk (pool.ofKind chunk.kind))

/-- The pool with the numbers of a chunk added. -/
def countAdded (chunk : Chunk) : Except Fault Pool := do
  let words ← Count.add pool.words chunk.size
  return { pool with words, count := pool.count + 1 }

/-- The pool with the numbers of a chunk taken off. -/
def countRemoved (chunk : Chunk) : Except Fault Pool := do
  require (chunk.size ≤ pool.words) .assertion
  require (0 < pool.count) .assertion
  return { pool with words := pool.words - chunk.size, count := pool.count - 1 }

/-- Take the chunk that a header at an offset of a node belongs to out of the list of its kind. -/
def unlink (id : NodeId) (offset : Nat) (header : Header) : Except Fault (Pool × Chunk) :=
  let isThere (kind : Kind) (chunk : Chunk) :=
    chunk.container == id && chunk.bottom == offset
      && (!kind.isHumongous || chunk.size == header.size.toNat)
  let found := header.kind?.bind fun kind =>
    (takeFirst? (isThere kind) (pool.ofKind kind)).map fun (chunk, rest) =>
      (pool.withKind kind rest, chunk)
  match found with
  | some result => .ok result
  | none => .error (.pool (.notInPool pool.isClass offset id))

/-- Take the chunks of all headers of a list out of the pool. -/
def unlinkAll (id : NodeId) (pool : Pool) :
    List (Nat × Header) → Except Fault (Pool × List Chunk)
  | [] => .ok (pool, [])
  | (offset, header) :: rest => do
    let (pool, chunk) ← pool.unlink id offset header
    let (pool, chunks) ← unlinkAll id pool rest
    return (pool, chunk :: chunks)

/-- The pool with the numbers of all chunks of a list taken off. -/
def countAllRemoved (pool : Pool) (chunks : List Chunk) : Except Fault Pool :=
  chunks.foldlM countRemoved pool

/-- The pool without the chunks of a node, and the number of these. -/
def dropNode (id : NodeId) : Except Fault (Pool × Nat) := do
  let dropped := pool.chunks.filter fun chunk => chunk.container == id
  let kept (chunks : List Chunk) := chunks.filter fun chunk => chunk.container != id
  let rest := { pool with
    specialized := kept pool.specialized
    small := kept pool.small
    medium := kept pool.medium
    humongous := kept pool.humongous }
  return (← rest.countAllRemoved dropped, dropped.length)

end Pool

end CollectorMemory
