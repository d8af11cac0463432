import CollectorMemory.Pool.PutBack

/-!
# Carving aligned chunks

A chunk is carved at the first offset that suits its alignment. The words in front of it are carved
into padding chunks, which go to the free pool. A node that is given up carves all words that are
left into the largest chunks that fit, and these go to the free pool as well.
-/

namespace CollectorMemory.Node

/-- The size of the padding chunk at an offset: small where the offset is aligned to it, specialized
elsewhere. -/
def paddingSize (node : Node) (here : Nat) : Except Fault { size : Nat // 0 < size } := do
  if ← Count.isMultiple here node.sizes.small then return ⟨_, node.sizes.small_pos⟩
  require (← Count.isMultiple here node.sizes.specialized) .assertion
  return ⟨_, node.sizes.specialized_pos⟩

/-- Carve `[here, stop)` into padding chunks; `here` is the top of the node. -/
def padFrom (node : Node) (stop here : Nat) : Except Fault (Node × List Chunk) :=
  if here < stop then do
    let ⟨size, _⟩ ← node.paddingSize here
    require (here + size ≤ stop) .assertion
    let (padded, chunk) ← node.carve (← node.sizes.kindOfSize size) size .pad
    let (padded, rest) ← padFrom padded stop (here + size)
    return (padded, chunk :: rest)
  else .ok (node, [])
termination_by stop - here

/-- Carve a chunk of a size from the committed words, with padding in front of it if needed; nothing
if it does not fit. -/
def carveAligned (node : Node) (size : Nat) (origin : Origin) (pool : Pool) :
    Run (Option (Node × Pool × Chunk)) := do
  let kind ← node.sizes.kindOfSize size
  let start ← Count.roundUp node.top (node.sizes.alignment kind size)
  let needed ← Count.add (start - node.top) size
  if node.uncarved < needed then return none
  Run.noteIf (node.top < start) (.padding node.id node.top start)
  let (node, padding) ← node.padFrom start node.top
  let (node, chunk) ← node.carve kind size origin
  let (pool, node) ← pool.putBackAll node padding
  Run.note (.carved chunk)
  checkIf node.audited do
    pool.audit
    node.audit
    node.auditChunk chunk
  return some (node, pool, chunk)

/-- Carve a chunk of a size from the committed words, for use. -/
def take (node : Node) (size : Nat) (pool : Pool) : Run (Option (Node × Pool × Chunk)) :=
  node.carveAligned size .virtualSpace pool

/-- Carve chunks of one size and put them into the pool until no more fit, at most `rounds` times;
the last result is the number of chunks carved, counted from `carved`. -/
def retireSize (node : Node) (pool : Pool) (size : Nat) : Nat → Nat → Run (Node × Pool × Nat)
  | 0, carved => return (node, pool, carved)
  | rounds + 1, carved => do
    if node.uncarved < size then return (node, pool, carved)
    match ← node.carveAligned size .leftover pool with
    | none => return (node, pool, carved)
    | some (node, pool, chunk) =>
      let (pool, node) ← pool.putBack node chunk
      retireSize node pool size rounds (carved + 1)

/-- Carve all committed words that are left into the largest chunks that fit, and put them into the
pool. The words left hold at most `uncarved / size` chunks of a size. -/
def retire (node : Node) (pool : Pool) : Run (Node × Pool) := do
  require (node.isClass == pool.isClass) (.node .wrongPool)
  let { medium, small, specialized, .. } := node.sizes
  let (node, pool, carved) ← node.retireSize pool medium (node.uncarved / medium) 0
  let (node, pool, carved) ← node.retireSize pool small (node.uncarved / small) carved
  let (node, pool, carved) ← node.retireSize pool specialized (node.uncarved / specialized) carved
  require (node.uncarved == 0) (.node (.wordsLeftOver node.id))
  Run.note (.retired node.id carved)
  return (node, pool)

end CollectorMemory.Node
