import CollectorMemory.NodeList.Basic
import CollectorMemory.Pool.PutBack

/-!
# Taking chunks from the pool

A request takes the first free chunk of its kind. If there is none, the first free chunk of the
next larger kind that has one is split. Humongous chunks are never split: a request takes the first
one, and so the smallest, that is large enough.
-/

namespace CollectorMemory.Pool

/-- The node of a chunk. -/
def nodeOf (list : NodeList) (chunk : Chunk) : Except Fault Node :=
  match list.node? chunk.container with
  | some node => .ok node
  | none => .error (.pool (.unknownNode chunk))

/-- The first free chunk of the first of the kinds that has one, and the pool without it. -/
def firstOf? (pool : Pool) : List Kind → Option (Pool × Chunk)
  | [] => none
  | kind :: larger =>
    match pool.ofKind kind with
    | chunk :: rest => some (pool.withKind kind rest, chunk)
    | [] => firstOf? pool larger

/-- Put the pieces of a split chunk into the pool, after checking them where this is asked for. -/
def pushPieces (pool : Pool) (node : Node) : List Chunk → Except Fault Pool
  | [] => .ok pool
  | piece :: rest => do
    checkIf pool.audited (node.auditChunk piece)
    pushPieces (pool.push piece) node rest

/-- Split the first free chunk of the next larger kind that has one, so that the pool holds a chunk
of the target kind; nothing if there is none. -/
def splitLarger (pool : Pool) (list : NodeList) (target : Kind) :
    Run (Option (Pool × NodeList)) := do
  match pool.firstOf? target.above with
  | none => return none
  | some (pool, larger) =>
    Run.note (.splitting pool.isClass larger target)
    let node ← nodeOf list larger
    let (node, first, pieces) ← node.split larger target
    checkIf pool.audited (node.auditChunk first)
    let count ← Count.add pool.count pieces.length
    let pool ← pushPieces { pool with count } node pieces
    return some (pool.push first, list.withNode node)

/-- Take a free chunk that serves a request out of its list. -/
def select (pool : Pool) (list : NodeList) (size : Nat) :
    Run (Option (Pool × NodeList × Chunk)) := do
  let kind ← pool.sizes.kindOfSize size
  if kind.isHumongous then
    match takeFirst? (fun chunk => size ≤ chunk.size) pool.humongous with
    | none => return none
    | some (chunk, rest) => return some (pool.withKind .humongous rest, list, chunk)
  else
    match pool.firstOf? [kind] with
    | some (pool, chunk) => return some (pool, list, chunk)
    | none =>
      match ← pool.splitLarger list kind with
      | none => return none
      | some (pool, list) =>
        return (pool.firstOf? [kind]).map fun (pool, chunk) => (pool, list, chunk)

/-- Take a free chunk for a request and mark it in use; nothing if the pool cannot serve it. -/
def take (pool : Pool) (list : NodeList) (size : Nat) :
    Run (Option (Pool × NodeList × Chunk)) := do
  match ← pool.select list size with
  | none => return none
  | some (pool, list, chunk) =>
    let pool ← pool.countRemoved chunk
    let node ← nodeOf list chunk
    let (node, chunk) ← node.setInUse chunk true
    let node := node.addInUse
    Run.note (.tookFree pool.isClass chunk pool.count)
    pool.auditWith node
    return some (pool, list.withNode node, chunk)

end CollectorMemory.Pool
