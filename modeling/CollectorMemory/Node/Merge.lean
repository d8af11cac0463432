import CollectorMemory.Node.Basic

/-!
# Merging and splitting free chunks

Free chunks that tile an area can be replaced by one free chunk, and a free chunk by a smaller one
at its start and the largest aligned chunks that cover the rest. Both change headers in memory and
chunk starts in the map; which granules are in use stays the same.
-/

namespace CollectorMemory.Node

variable (node : Node)

/-- Whether `[start, start + size)` is carved, begins and ends at chunk bounds, and holds no chunk
in use. -/
def canMerge (start size : Nat) : Except Fault Bool := do
  let stop ← Count.add start size
  if node.top < stop then return false
  if !(← node.map.startsAt start) then return false
  if stop < node.top then
    if !(← node.map.startsAt stop) then return false
  return !(← node.map.anyInUse start size)

/-- The headers of the chunks from `offset` to `stop`, with the offsets where they start, and the
offset where the last of them ends. -/
def headersFrom (stop offset : Nat) : Except Fault (List (Nat × Header) × Nat) :=
  if offset < stop then do
    let header ← node.words.headerAt offset
    if header.isAlive && 0 < header.size.toNat then
      let (rest, last) ← headersFrom stop (offset + header.size.toNat)
      return ((offset, header) :: rest, last)
    else .error (.node (.noHeader node.id offset))
  else .ok ([], offset)
termination_by stop - offset
decreasing_by
  simp_all only [Bool.and_eq_true, decide_eq_true_eq]
  omega

/-- The offsets and headers of the chunks that tile `[start, start + size)`. -/
def headersIn (start size : Nat) : Except Fault (List (Nat × Header)) := do
  let stop ← Count.add start size
  require (stop ≤ node.top) (.node (.areaNotCarved start stop))
  let (headers, last) ← node.headersFrom stop start
  require (last == stop) (.node (.chunkAcrossEnd start stop))
  return headers

/-- Overwrite the sentinels of chunks that become part of another one. -/
def absorb (words : Words) : List Chunk → Except Fault Words
  | [] => .ok words
  | chunk :: rest => do
    require chunk.isFree .assertion
    absorb (← words.absorbHeader chunk.bottom) rest

/-- Replace the free chunks that tile the area of a chunk of the target kind by that chunk. -/
def merge (start : Nat) (target : Kind) (absorbed : List Chunk) : Except Fault (Node × Chunk) := do
  let size ← node.sizes.fixedSize target
  require (!(← node.map.anyInUse start size)) .assertion
  let words ← absorb node.words absorbed
  let chunk ← Chunk.fresh target node.isClass size start node.id
  let merged := (chunk.withOrigin .merge).withFree true
  let map ← node.map.clearStarts start size
  let map ← map.setStart start true
  let words ← words.writeHeader merged
  return ({ node with words, map }, merged)

/-- The first of the candidate kinds to whose size an offset is aligned; candidates are tried from
the largest down and must not be below the target kind. -/
def fittingKind (offset : Nat) (target : Kind) : List Kind → Except Fault Kind
  | [] => .error (.node (.nothingFits node.id offset))
  | candidate :: smaller => do
    require (target.code ≤ candidate.code) .assertion
    if ← Count.isMultiple offset (← node.sizes.fixedSize candidate) then return candidate
    fittingKind offset target smaller

/-- The node with a free chunk from a split written at an offset. -/
def placePiece (kind : Kind) (size offset : Nat) : Except Fault (Node × Chunk) := do
  let chunk ← Chunk.fresh kind node.isClass size offset node.id
  let piece := (chunk.withOrigin .split).withFree true
  let map ← node.map.setStart offset true
  let words ← node.words.writeHeader piece
  return ({ node with words, map }, piece)

/-- Cover `[offset, stop)` with free chunks of kinds below `larger`, each the largest that its
offset is aligned to. -/
def coverRest (node : Node) (larger target : Kind) (stop offset : Nat) :
    Except Fault (Node × List Chunk) :=
  if offset < stop then do
    let kind ← node.fittingKind offset target larger.below
    match _fixed : node.sizes.fixedSize kind with
    | .error fault => .error fault
    | .ok size =>
      require (offset + size ≤ stop) .assertion
      let (node, piece) ← node.placePiece kind size offset
      let (node, rest) ← coverRest node larger target stop (offset + size)
      return (node, piece :: rest)
  else .ok (node, [])
termination_by stop - offset
decreasing_by
  have := ChunkSizes.pos_of_fixedSize _ _fixed
  omega

/-- Split a free chunk into a free chunk of a smaller kind at its start and the free chunks that
cover the rest. -/
def split (larger : Chunk) (target : Kind) : Except Fault (Node × Chunk × List Chunk) := do
  require (larger.isFree && !larger.kind.isHumongous && target.code < larger.kind.code)
    (.node (.cannotSplit larger target))
  let size ← node.sizes.fixedSize target
  require (← Count.isMultiple larger.bottom size) .assertion
  let words ← node.words.absorbHeader larger.bottom
  let chunk ← Chunk.fresh target node.isClass size larger.bottom node.id
  let first := (chunk.withOrigin .split).withFree true
  let words ← words.writeHeader first
  let second ← Count.add larger.bottom size
  let (node, rest) ← coverRest { node with words } larger.kind target larger.stop second
  return (node, first, rest)

end CollectorMemory.Node
