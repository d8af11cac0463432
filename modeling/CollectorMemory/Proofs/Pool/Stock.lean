import CollectorMemory.Proofs.Node.Split
import CollectorMemory.Proofs.Pool.Sound
import Mathlib.Algebra.Order.BigOperators.Group.List
import Mathlib.Algebra.Order.Ring.Nat
import Mathlib.Data.List.Nodup

/-!
# The stock of a node

The chunks of a node are shared out: some are in the free pool, the others are loose, which means in
use or on their way to the pool. `Stock` says that the blocks of both make up the row of the node, and
`Settled` that the row is coalesced as well. An operation on a node and its pool takes some chunks
away and brings others (`Stock.replace`), and leaves the chunks of other nodes and the words of loose
chunks as they were (`Steady`).
-/

namespace CollectorMemory

variable {id other : NodeId} {left right chunks : List Chunk} {chunk : Chunk}

/-- The chunks of a node in a list. -/
def within (id : NodeId) (chunks : List Chunk) : List Chunk :=
  chunks.filter fun chunk => chunk.container == id

/-- The chunks of other nodes in a list. -/
def outside (id : NodeId) (chunks : List Chunk) : List Chunk :=
  chunks.filter fun chunk => chunk.container != id

/-- The blocks of a node in a list. -/
def blocksIn (id : NodeId) (chunks : List Chunk) : List Block := (within id chunks).map Chunk.block

theorem mem_within : chunk ∈ within id chunks ↔ chunk ∈ chunks ∧ chunk.container = id := by
  simp [within]

theorem mem_outside : chunk ∈ outside id chunks ↔ chunk ∈ chunks ∧ chunk.container ≠ id := by
  simp [outside]

/-- A block of a node in a list is that of a chunk in the list. -/
theorem mem_blocksIn {block : Block} :
    block ∈ blocksIn id chunks ↔ ∃ chunk ∈ chunks, chunk.container = id ∧ chunk.block = block := by
  simp [blocksIn, mem_within, and_assoc]

@[simp] theorem blocksIn_append :
    blocksIn id (left ++ right) = blocksIn id left ++ blocksIn id right := by
  simp [blocksIn, within]

/-- The blocks of a node do not depend on the order of the chunks. -/
theorem blocksIn_perm (same : left.Perm right) : (blocksIn id left).Perm (blocksIn id right) :=
  (same.filter _).map _

/-- The blocks of a list of chunks of one node. -/
theorem blocksIn_eq_map (container : ∀ chunk ∈ chunks, chunk.container = id) :
    blocksIn id chunks = chunks.map Chunk.block := by
  unfold blocksIn within
  rw [List.filter_eq_self.mpr fun chunk member => beq_iff_eq.mpr (container chunk member)]

/-- Chunks of one node are not among those of other nodes. -/
theorem outside_eq_nil (container : ∀ chunk ∈ chunks, chunk.container = id) :
    outside id chunks = [] := by
  apply List.filter_eq_nil_iff.mpr
  intro chunk member
  simp [container chunk member]

/-- A chunk of a node is not among those of other nodes. -/
theorem outside_cons_self (container : chunk.container = id) :
    outside id (chunk :: chunks) = outside id chunks := by
  unfold outside
  rw [List.filter_cons_of_neg (by simp [container])]

/-- A chunk of a node comes before the others of the node. -/
theorem within_cons_self (container : chunk.container = id) :
    within id (chunk :: chunks) = chunk :: within id chunks := by
  unfold within
  rw [List.filter_cons_of_pos (by simp [container])]

/-- The chunks of another node are among those outside of a node. -/
theorem within_outside (differs : other ≠ id) :
    within other (outside id chunks) = within other chunks := by
  unfold within outside
  rw [List.filter_filter]
  apply List.filter_congr
  intro chunk _
  by_cases isOther : chunk.container = other
  · simp [isOther, differs]
  · simp [isOther]

/-- The chunks of other nodes stay where chunks of one node are taken away and brought. -/
theorem outside_perm {taken put : List Chunk} (perm : (taken ++ left).Perm (put ++ right))
    (takenHere : ∀ chunk ∈ taken, chunk.container = id)
    (putHere : ∀ chunk ∈ put, chunk.container = id) : (outside id left).Perm (outside id right) := by
  have filtered := perm.filter fun chunk => chunk.container != id
  rw [List.filter_append, List.filter_append] at filtered
  change (outside id taken ++ outside id left).Perm (outside id put ++ outside id right) at filtered
  rw [outside_eq_nil takenHere, outside_eq_nil putHere] at filtered
  exact filtered

/-- The words of a list are those of the chunks of a node and those of the others. -/
theorem wordsOf_within_add_outside (id : NodeId) (chunks : List Chunk) :
    wordsOf (within id chunks) + wordsOf (outside id chunks) = wordsOf chunks := by
  have parts := wordsOf_perm (List.filter_append_perm (fun chunk => chunk.container == id) chunks)
  rw [wordsOf_append] at parts
  exact parts

/-- The words of the chunks of a node are the sizes of their blocks. -/
theorem wordsOf_within : wordsOf (within id chunks) = ((blocksIn id chunks).map Block.size).sum := by
  unfold wordsOf blocksIn
  rw [List.map_map]
  rfl

variable {excuse : Prop} {uses : Nat} {pool pool' : Pool} {node node' : Node}
  {loose loose' taken put : List Chunk} {row front area fresh back : List Block}

/-- The blocks of a row are those of the free chunks and of the loose chunks of a node. -/
structure Stock (uses : Nat) (pool : Pool) (node : Node) (loose : List Chunk) (row : List Block) :
    Prop where
  /-- The node consists of the blocks. -/
  carved : node.Carved row
  /-- The number of chunks in use is that of the blocks in use. -/
  inUse : node.chunksInUse = inUseCount row
  /-- The pool is sound. -/
  poolSound : pool.Sound uses
  /-- The pool has the sizes of the node. -/
  sizes : pool.sizes = node.sizes
  /-- The pool serves the space of the node. -/
  isClass : pool.isClass = node.isClass
  /-- The blocks are those of the chunks. -/
  perm : row.Perm (blocksIn node.id (pool.chunks ++ loose))
  /-- Loose chunks of the node belong to it and are in use. -/
  looseOwned : ∀ chunk ∈ loose, chunk.container = node.id →
    node.Owns chunk ∧ chunk.isFree = false ∧ chunk.useCount ≤ uses

/-- A stock whose free blocks are merged as far as possible. -/
structure Settled (uses : Nat) (pool : Pool) (node : Node) (loose : List Chunk)
    (row : List Block) : Prop extends Stock uses pool node loose row where
  /-- The row is coalesced. -/
  coalesced : Coalesced node.sizes row node.top

/-- What an operation on a node and its pool leaves as it was. -/
structure Steady (loose : List Chunk) (pool : Pool) (node : Node) (pool' : Pool) (node' : Node) :
    Prop where
  /-- The node stays alike. -/
  nodeAlike : node.Alike node'
  /-- The pool stays alike. -/
  poolAlike : pool.Alike pool'
  /-- The free chunks of other nodes stay. -/
  elsewhere : (outside node.id pool'.chunks).Perm (outside node.id pool.chunks)
  /-- The words of loose chunks stay. -/
  spared : ∀ chunk ∈ loose, chunk.container = node.id → ∀ offset, chunk.bottom ≤ offset →
    offset < chunk.stop → node'.words.word offset = node.words.word offset

/-- There is room in the counts for the words of a node and of all free chunks elsewhere. -/
def Room (excuse : Prop) (pool : Pool) (node : Node) : Prop :=
  ¬excuse → wordsOf (outside node.id pool.chunks) + node.reserved + node.sizes.medium < wordLimit

/-- Nothing changes where nothing is done. -/
theorem Steady.refl (regular : node.Regular) : Steady loose pool node pool node :=
  ⟨Node.Alike.refl regular, Pool.Alike.refl pool, List.Perm.refl _, fun _ _ _ _ _ _ => rfl⟩

/-- What two operations leave as it was, both of them do. -/
theorem Steady.trans {middlePool : Pool} {middle : Node}
    (first : Steady loose pool node middlePool middle)
    (second : Steady loose middlePool middle pool' node') :
    Steady loose pool node pool' node' where
  nodeAlike := first.nodeAlike.trans second.nodeAlike
  poolAlike := first.poolAlike.trans second.poolAlike
  elsewhere := by
    have later := second.elsewhere
    rw [first.nodeAlike.id] at later
    exact later.trans first.elsewhere
  spared chunk member container offset lower upper :=
    (second.spared chunk member (by rw [first.nodeAlike.id]; exact container) offset lower upper).trans
      (first.spared chunk member container offset lower upper)

/-- An operation that spares some loose chunks spares fewer of them. -/
theorem Steady.of_subset (steady : Steady loose pool node pool' node') (fewer : loose' ⊆ loose) :
    Steady loose' pool node pool' node' :=
  { steady with spared := fun chunk member => steady.spared chunk (fewer member) }

/-- Where nothing changes elsewhere there is still room. -/
theorem Room.of_steady (room : Room excuse pool node)
    (steady : Steady loose pool node pool' node') : Room excuse pool' node' := by
  intro hard
  have before := room hard
  rw [steady.nodeAlike.id, steady.nodeAlike.reserved, steady.nodeAlike.sizes,
    wordsOf_perm steady.elsewhere]
  exact before

/-- What a node consists of is coalesced in the state of a settled stock. -/
theorem Stock.settled (stock : Stock uses pool node loose row)
    (coalesced : Coalesced node.sizes row node.top) : Settled uses pool node loose row :=
  { stock with coalesced }

/-- The block of a chunk of the node is in the row. -/
theorem Stock.mem_row (stock : Stock uses pool node loose row)
    (member : chunk ∈ pool.chunks ++ loose) (container : chunk.container = node.id) :
    chunk.block ∈ row :=
  stock.perm.mem_iff.mpr (mem_blocksIn.mpr ⟨chunk, member, container, rfl⟩)

/-- A free block is that of a chunk in the pool. -/
theorem Stock.exists_free (stock : Stock uses pool node loose row) {block : Block}
    (member : block ∈ row) (free : block.isFree = true) :
    ∃ chunk ∈ pool.chunks, chunk.container = node.id ∧ chunk.block = block := by
  obtain ⟨chunk, isThere, container, isBlock⟩ := mem_blocksIn.mp (stock.perm.mem_iff.mp member)
  rcases List.mem_append.mp isThere with inPool | inLoose
  · exact ⟨chunk, inPool, container, isBlock⟩
  · have used : chunk.isFree = false := (stock.looseOwned chunk inLoose container).2.1
    rw [← isBlock] at free
    exact absurd (used.symm.trans free) Bool.false_ne_true

/-- A block in use is that of a loose chunk. -/
theorem Stock.exists_loose (stock : Stock uses pool node loose row) {block : Block}
    (member : block ∈ row) (used : block.isFree = false) :
    ∃ chunk ∈ loose, chunk.container = node.id ∧ chunk.block = block := by
  obtain ⟨chunk, isThere, container, isBlock⟩ := mem_blocksIn.mp (stock.perm.mem_iff.mp member)
  rcases List.mem_append.mp isThere with inPool | inLoose
  · have free : chunk.isFree = true := (stock.poolSound.holds chunk inPool).free
    rw [← isBlock] at used
    exact absurd (used.symm.trans free) Bool.false_ne_true
  · exact ⟨chunk, inLoose, container, isBlock⟩

/-- A settled stock does not depend on the order of the loose chunks. -/
theorem Settled.of_perm (settled : Settled uses pool node loose row) (perm : loose.Perm loose') :
    Settled uses pool node loose' row :=
  { settled with
    perm := settled.perm.trans (blocksIn_perm (perm.append_left _))
    looseOwned := fun chunk member => settled.looseOwned chunk (perm.mem_iff.mpr member) }

/-- No two chunks of a node in the pool and the loose chunks start at the same offset. -/
theorem Stock.nodup_bottom (stock : Stock uses pool node loose row) :
    ((within node.id (pool.chunks ++ loose)).map Chunk.bottom).Nodup := by
  have nodup := stock.carved.tiles.nodup_bottom
  rw [(stock.perm.map Block.bottom).nodup_iff] at nodup
  unfold blocksIn at nodup
  rw [List.map_map] at nodup
  exact nodup

/-- The row of a stock is determined by the chunks. -/
theorem Stock.row_unique {row' : List Block} (stock : Stock uses pool node loose row)
    (other : Stock uses pool node loose row') : row' = row :=
  other.carved.tiles.eq_of_perm stock.carved.tiles (other.perm.trans stock.perm.symm)

/-- Another node keeps its stock where the chunks outside of a node stay. -/
theorem Stock.of_outside {held : List Chunk} (stock : Stock uses pool node loose row)
    (differs : node.id ≠ id) (poolAlike : pool.Alike pool') (poolSound : pool'.Sound uses)
    (poolPerm : (outside id pool'.chunks).Perm (outside id pool.chunks))
    (heldPerm : (outside id held).Perm (outside id loose)) : Stock uses pool' node held row where
  carved := stock.carved
  inUse := stock.inUse
  poolSound := poolSound
  sizes := poolAlike.sizes.trans stock.sizes
  isClass := poolAlike.isClass.trans stock.isClass
  perm := by
    have blocks : ∀ {left right : List Chunk}, (outside id left).Perm (outside id right) →
        (blocksIn node.id left).Perm (blocksIn node.id right) := by
      intro left right perm
      have filtered := (perm.filter fun chunk => chunk.container == node.id).map Chunk.block
      change (List.map _ (within node.id (outside id left))).Perm
        (List.map _ (within node.id (outside id right))) at filtered
      rw [within_outside differs, within_outside differs] at filtered
      exact filtered
    have before := stock.perm
    rw [blocksIn_append] at before ⊢
    exact before.trans ((blocks poolPerm).append (blocks heldPerm)).symm
  looseOwned chunk member container := by
    have away : chunk.container ≠ id := by
      rw [container]
      exact differs
    have old := (mem_outside.mp (heldPerm.mem_iff.mp (mem_outside.mpr ⟨member, away⟩))).1
    exact stock.looseOwned chunk old container

/-- The stock of another node stays settled where the chunks outside of a node stay. -/
theorem Settled.of_outside {held : List Chunk} (settled : Settled uses pool node loose row)
    (differs : node.id ≠ id) (poolAlike : pool.Alike pool') (poolSound : pool'.Sound uses)
    (poolPerm : (outside id pool'.chunks).Perm (outside id pool.chunks))
    (heldPerm : (outside id held).Perm (outside id loose)) : Settled uses pool' node held row :=
  (settled.toStock.of_outside differs poolAlike poolSound poolPerm heldPerm).settled
    settled.coalesced

/-- Free chunks of the node at the same place are equal. -/
theorem Stock.distinct (stock : Stock uses pool node loose row) : ∀ first ∈ pool.chunks,
    ∀ second ∈ pool.chunks, first.container = node.id → first.place = second.place →
      first = second := by
  intro first inFirst second inSecond container samePlace
  have sameContainer : first.container = second.container := congrArg Location.node samePlace
  have sameBottom : first.bottom = second.bottom := congrArg Location.offset samePlace
  apply List.inj_on_of_nodup_map stock.nodup_bottom
  · exact mem_within.mpr ⟨List.mem_append_left _ inFirst, container⟩
  · exact mem_within.mpr ⟨List.mem_append_left _ inSecond, sameContainer ▸ container⟩
  · exact sameBottom

/-- No free chunk is where a loose chunk of the node is. -/
theorem Stock.pool_apart (stock : Stock uses pool node loose row) (member : chunk ∈ loose)
    (container : chunk.container = node.id) : ∀ other ∈ pool.chunks, other.place ≠ chunk.place := by
  intro other inPool samePlace
  have sameContainer : other.container = chunk.container := congrArg Location.node samePlace
  have sameBottom : other.bottom = chunk.bottom := congrArg Location.offset samePlace
  have nodup := stock.nodup_bottom
  unfold within at nodup
  rw [List.filter_append, List.map_append] at nodup
  have disjoint := (List.nodup_append'.mp nodup).2.2
  apply disjoint (List.mem_map_of_mem (mem_within.mpr ⟨inPool, sameContainer.trans container⟩))
  rw [sameBottom]
  exact List.mem_map_of_mem (mem_within.mpr ⟨member, container⟩)

/-- No other loose chunk meets a loose chunk of the node. -/
theorem Stock.loose_apart (stock : Stock uses pool node (chunk :: loose) row)
    (container : chunk.container = node.id) {other : Chunk} (member : other ∈ loose)
    (otherContainer : other.container = node.id) :
    ¬(chunk.bottom ≤ other.bottom ∧ other.bottom < chunk.stop) := by
  rintro ⟨lower, upper⟩
  have nodup := stock.nodup_bottom
  unfold within at nodup
  rw [List.filter_append, List.map_append, List.filter_cons_of_pos (by simp [container]),
    List.map_cons] at nodup
  have first := (List.nodup_cons.mp (List.nodup_append'.mp nodup).2.1).1
  have chunkRow := stock.mem_row (List.mem_append_right _ List.mem_cons_self) container
  have otherRow := stock.mem_row
    (List.mem_append_right _ (List.mem_cons_of_mem chunk member)) otherContainer
  have nonempty := stock.carved.tiles.bounds otherRow
  change 0 ≤ other.bottom ∧ other.bottom < other.block.stop ∧ _ at nonempty
  have same := stock.carved.tiles.eq_of_meet chunkRow otherRow
    (show chunk.bottom < other.block.stop by omega) (show other.bottom < chunk.stop from upper)
  have sameBottom : chunk.bottom = other.bottom := congrArg Block.bottom same
  apply first
  rw [sameBottom]
  exact List.mem_map_of_mem (mem_within.mpr ⟨member, otherContainer⟩)

/-- Chunks of the node that were taken out of the pool are not where any of the others are. -/
theorem Stock.apart_of_without (stock : Stock uses pool node loose row)
    (without : pool.Without pool' taken) : ∀ first ∈ taken, ∀ second ∈ pool'.chunks,
      first.container = node.id → second.place ≠ first.place := by
  intro first inTaken second inRest container samePlace
  have sameContainer : second.container = first.container := congrArg Location.node samePlace
  have sameBottom : second.bottom = first.bottom := congrArg Location.offset samePlace
  have nodup := stock.nodup_bottom
  unfold within at nodup
  rw [(((without.perm.append_right loose).filter _).map Chunk.bottom).nodup_iff,
    List.append_assoc, List.filter_append, List.filter_append, List.map_append,
    List.map_append] at nodup
  have disjoint := (List.nodup_append'.mp nodup).2.2
  apply disjoint (List.mem_map_of_mem (mem_within.mpr ⟨inTaken, container⟩))
  rw [← sameBottom]
  exact List.mem_append_left _ (List.mem_map_of_mem
    (mem_within.mpr ⟨inRest, sameContainer.trans container⟩))

/-- A stock after chunks that make up an area of the row were taken away and others that tile it were
brought. -/
theorem Stock.replace (stock : Stock uses pool node loose (front ++ area ++ back))
    (alike : node.Alike node') (carved : node'.Carved (front ++ fresh ++ back))
    (inUse : node'.chunksInUse + inUseCount area = node.chunksInUse + inUseCount fresh)
    (poolSound : pool'.Sound uses) (poolAlike : pool.Alike pool')
    (perm : (taken ++ (pool'.chunks ++ loose')).Perm (put ++ (pool.chunks ++ loose)))
    (takenBlocks : blocksIn node.id taken = area) (putBlocks : blocksIn node.id put = fresh)
    (looseOwned : ∀ chunk ∈ loose', chunk.container = node.id →
      node.Owns chunk ∧ chunk.isFree = false ∧ chunk.useCount ≤ uses) :
    Stock uses pool' node' loose' (front ++ fresh ++ back) where
  carved := carved
  inUse := by
    have before := stock.inUse
    unfold inUseCount at before inUse ⊢
    rw [List.countP_append, List.countP_append] at before ⊢
    omega
  poolSound := poolSound
  sizes := by rw [poolAlike.sizes, alike.sizes]; exact stock.sizes
  isClass := by rw [poolAlike.isClass, alike.isClass]; exact stock.isClass
  perm := by
    have blocks : (blocksIn node.id (taken ++ (pool'.chunks ++ loose'))).Perm
        (blocksIn node.id (put ++ (pool.chunks ++ loose))) := blocksIn_perm perm
    have before := stock.perm
    simp only [blocksIn_append, takenBlocks, putBlocks] at blocks before ⊢
    rw [alike.id]
    rw [List.perm_iff_count] at blocks before ⊢
    intro block
    have inBlocks := blocks block
    have inRow := before block
    simp only [List.count_append] at inBlocks inRow ⊢
    omega
  looseOwned chunk member container := by
    rw [alike.id] at container
    obtain ⟨owned, used, uses_le⟩ := looseOwned chunk member container
    exact ⟨owned.of_alike alike, used, uses_le⟩

/-- No loose chunk starts in an area of free blocks. -/
theorem Stock.apart_of_free {low high : Nat} (stock : Stock uses pool node loose row)
    (areaTiles : Tiles low area high) (inRow : ∀ block ∈ area, block ∈ row)
    (free : ∀ block ∈ area, block.isFree = true) : ∀ chunk ∈ loose, chunk.container = node.id →
      ¬(low ≤ chunk.bottom ∧ chunk.bottom < high) := by
  rintro chunk member container ⟨lower, upper⟩
  have chunkRow := stock.mem_row (List.mem_append_right _ member) container
  have used : chunk.isFree = false := (stock.looseOwned chunk member container).2.1
  obtain ⟨block, inArea, blockLower, blockUpper⟩ := areaTiles.cover lower upper
  have nonempty := (stock.carved.tiles.bounds chunkRow).2.1
  have same := stock.carved.tiles.eq_of_meet chunkRow (inRow block inArea)
    (show chunk.bottom < block.stop from blockUpper) (Nat.lt_of_le_of_lt blockLower nonempty)
  have isFree := free block inArea
  rw [← same] at isFree
  exact Bool.false_ne_true (used.symm.trans isFree)

/-- What stays as it was where an area in which no loose chunk starts is replaced. -/
theorem Stock.steady {low high : Nat} (stock : Stock uses pool node loose (front ++ area ++ back))
    (areaTiles : Tiles low area high) (backTiles : Tiles high back node.top)
    (alike : node.Alike node') (poolAlike : pool.Alike pool')
    (perm : (taken ++ pool'.chunks).Perm (put ++ pool.chunks))
    (takenHere : ∀ chunk ∈ taken, chunk.container = node.id)
    (putHere : ∀ chunk ∈ put, chunk.container = node.id) (fewer : loose' ⊆ loose)
    (apart : ∀ chunk ∈ loose', chunk.container = node.id →
      ¬(low ≤ chunk.bottom ∧ chunk.bottom < high))
    (same : ∀ offset, offset < low ∨ high ≤ offset → node.SameAt node' offset) :
    Steady loose' pool node pool' node' := by
  refine ⟨alike, poolAlike, outside_perm perm takenHere putHere, ?_⟩
  intro chunk member container offset lower upper
  have startBound : IsBound (front ++ area ++ back) node.top low := by
    rw [List.append_assoc]
    rcases (areaTiles.append backTiles).isBound_start with atTop | ⟨first, inRest, bottom⟩
    · exact Or.inl atTop
    · exact Or.inr ⟨first, List.mem_append_right _ inRest, bottom⟩
  have stopBound : IsBound (front ++ area ++ back) node.top high := by
    rcases backTiles.isBound_start with atTop | ⟨first, inBack, bottom⟩
    · exact Or.inl atTop
    · exact Or.inr ⟨first, List.mem_append_right _ inBack, bottom⟩
  have awayFrom := apart chunk member container
  have inRow := stock.mem_row (List.mem_append_right _ (fewer member)) container
  have first := stock.carved.tiles.bound_apart startBound inRow
  have last := stock.carved.tiles.bound_apart stopBound inRow
  change low ≤ chunk.bottom ∨ chunk.stop ≤ low at first
  change high ≤ chunk.bottom ∨ chunk.stop ≤ high at last
  exact (same offset (by omega)).word

/-- A stock after free chunks of the pool that make up an area of the row were exchanged for others
that tile it, and what stays as it was. -/
theorem Stock.exchange {low high : Nat} (stock : Stock uses pool node loose (front ++ area ++ back))
    (areaTiles : Tiles low area high) (backTiles : Tiles high back node.top)
    (areaFree : ∀ block ∈ area, block.isFree = true)
    (freshFree : ∀ block ∈ fresh, block.isFree = true) (alike : node.Alike node')
    (carved : node'.Carved (front ++ fresh ++ back)) (inUse : node'.chunksInUse = node.chunksInUse)
    (poolSound : pool'.Sound uses) (poolAlike : pool.Alike pool')
    (perm : (taken ++ pool'.chunks).Perm (put ++ pool.chunks))
    (takenHere : ∀ chunk ∈ taken, chunk.container = node.id)
    (putHere : ∀ chunk ∈ put, chunk.container = node.id)
    (takenBlocks : taken.map Chunk.block = area) (putBlocks : put.map Chunk.block = fresh)
    (same : ∀ offset, offset < low ∨ high ≤ offset → node.SameAt node' offset) :
    Stock uses pool' node' loose (front ++ fresh ++ back) ∧ Steady loose pool node pool' node' := by
  have count : node'.chunksInUse + inUseCount area = node.chunksInUse + inUseCount fresh := by
    rw [inUse, inUseCount_eq_zero areaFree, inUseCount_eq_zero freshFree]
  have allPerm : (taken ++ (pool'.chunks ++ loose)).Perm (put ++ (pool.chunks ++ loose)) := by
    rw [← List.append_assoc, ← List.append_assoc]
    exact perm.append_right loose
  have inRow : ∀ block ∈ area, block ∈ front ++ area ++ back := fun block member =>
    List.mem_append_left _ (List.mem_append_right _ member)
  constructor
  · apply stock.replace alike carved count poolSound poolAlike allPerm
    · rw [blocksIn_eq_map takenHere]
      exact takenBlocks
    · rw [blocksIn_eq_map putHere]
      exact putBlocks
    · exact stock.looseOwned
  · exact stock.steady areaTiles backTiles alike poolAlike perm takenHere putHere
      (List.Subset.refl loose) (stock.apart_of_free areaTiles inRow areaFree) same

/-- The carved words of a node are those of its free chunks and of its loose ones. -/
theorem Stock.words_eq (stock : Stock uses pool node loose row) :
    wordsOf (within node.id pool.chunks) + wordsOf (within node.id loose) = node.top := by
  have sum := stock.carved.tiles.sum_size
  have sameSum := (stock.perm.map Block.size).sum_nat
  rw [← wordsOf_within] at sameSum
  have parts : wordsOf (within node.id (pool.chunks ++ loose)) =
      wordsOf (within node.id pool.chunks) + wordsOf (within node.id loose) := by
    unfold within
    rw [List.filter_append, wordsOf_append]
  omega

/-- What is carved of a node between two stocks of it becomes free, but for the chunks that are new
among the loose ones. -/
theorem Steady.words_eq {kept fresh : List Chunk} {after : List Block}
    (steady : Steady kept pool node pool' node') (before : Stock uses pool node loose row)
    (stock : Stock uses pool' node' (fresh ++ loose) after) :
    pool'.words + wordsOf (within node.id fresh) + node.top = pool.words + node'.top := by
  have carved := before.words_eq
  have carvedAfter := stock.words_eq
  have elsewhere := wordsOf_perm steady.elsewhere
  have parts := wordsOf_within_add_outside node.id pool.chunks
  have partsAfter := wordsOf_within_add_outside node.id pool'.chunks
  have counted := before.poolSound.words
  have countedAfter := stock.poolSound.words
  rw [steady.nodeAlike.id] at carvedAfter
  unfold within at carvedAfter ⊢
  rw [List.filter_append, wordsOf_append] at carvedAfter
  unfold within at carved parts partsAfter
  omega

/-- An offset that is carved lies in a free chunk if it lies in no loose one. -/
theorem Stock.exists_free_at {offset : Nat} (stock : Stock uses pool node loose row)
    (below : offset < node.top) (apart : ∀ chunk ∈ loose, chunk.container = node.id →
      ¬(chunk.bottom ≤ offset ∧ offset < chunk.stop)) :
    ∃ free ∈ pool.chunks, free.container = node.id ∧ free.bottom ≤ offset ∧ offset < free.stop := by
  obtain ⟨block, inRow, lower, upper⟩ := stock.carved.tiles.cover (Nat.zero_le offset) below
  obtain ⟨chunk, member, container, rfl⟩ := mem_blocksIn.mp (stock.perm.mem_iff.mp inRow)
  rcases List.mem_append.mp member with inPool | inLoose
  · exact ⟨chunk, inPool, container, lower, upper⟩
  · exact absurd ⟨lower, upper⟩ (apart chunk inLoose container)

/-- The free words of a node fit below its top, together with those of a loose chunk. -/
theorem Stock.words_le (stock : Stock uses pool node loose row) (member : chunk ∈ loose)
    (container : chunk.container = node.id) :
    wordsOf (within node.id pool.chunks) + chunk.size ≤ node.top := by
  have sum := stock.words_eq
  have inWithin : chunk ∈ within node.id loose := mem_within.mpr ⟨member, container⟩
  have sizeLe : chunk.size ≤ wordsOf (within node.id loose) :=
    List.le_sum_of_mem (List.mem_map_of_mem inWithin)
  omega

/-- What a node shows of a chunk that stays loose stays where its words do. -/
theorem Stock.sameAt {after : List Block} {offset : Nat} (stock : Stock uses pool node loose row)
    (stockAfter : Stock uses pool' node' loose' after) (steady : Steady loose pool node pool' node')
    (member : chunk ∈ loose) (stays : chunk ∈ loose') (container : chunk.container = node.id)
    (lower : chunk.bottom ≤ offset) (upper : offset < chunk.stop) : node.SameAt node' offset := by
  have containerAfter : chunk.container = node'.id := container.trans steady.nodeAlike.id.symm
  have shown := stock.carved.shown _ (stock.mem_row (List.mem_append_right _ member) container)
  have shownAfter := stockAfter.carved.shown _
    (stockAfter.mem_row (List.mem_append_right _ stays) containerAfter)
  exact shown.sameAt shownAfter steady.nodeAlike.sizes lower upper
    (steady.spared chunk member container offset lower upper)

/-- The words of a loose chunk can be counted with those of the pool. -/
theorem Stock.counted (stock : Stock uses pool node loose row) (room : Room excuse pool node)
    (member : chunk ∈ loose) (container : chunk.container = node.id) (hard : ¬excuse) :
    pool.words + chunk.size < wordLimit := by
  have limit := room hard
  have parts := wordsOf_within_add_outside node.id pool.chunks
  have wordsLe := stock.words_le member container
  have topLe := stock.carved.top_le
  have committedLe := stock.carved.committed_le
  rw [stock.poolSound.words]
  omega

/-- The blocks of free chunks are free. -/
theorem Stock.free_of_pool (stock : Stock uses pool node loose row) :
    ∀ block ∈ blocksIn node.id pool.chunks, block.isFree = true := by
  intro block member
  obtain ⟨chunk, inPool, _, rfl⟩ := mem_blocksIn.mp member
  exact (stock.poolSound.holds chunk inPool).free

/-- The blocks of loose chunks are in use. -/
theorem Stock.used_of_loose (stock : Stock uses pool node loose row) :
    ∀ block ∈ blocksIn node.id loose, block.isFree = false := by
  intro block member
  obtain ⟨chunk, inLoose, container, rfl⟩ := mem_blocksIn.mp member
  exact (stock.looseOwned chunk inLoose container).2.1

/-- The number of chunks in use is that of the loose chunks. -/
theorem Stock.chunksInUse_eq (stock : Stock uses pool node loose row) :
    node.chunksInUse = (within node.id loose).length := by
  have looseCount := inUseCount_eq_length stock.used_of_loose
  have poolCount := inUseCount_eq_zero stock.free_of_pool
  rw [stock.inUse]
  unfold inUseCount at looseCount poolCount ⊢
  rw [stock.perm.countP_eq, blocksIn_append, List.countP_append, poolCount, looseCount, Nat.zero_add]
  exact List.length_map _

/-- The pool of a stock and its node pass their audits. -/
theorem Stock.auditWith_ensures (stock : Stock uses pool node loose row) :
    Ensures excuse (pool.auditWith node) fun _ => True := by
  unfold Pool.auditWith
  apply ensures_checkIf
  intro _
  apply Ensures.bind stock.poolSound.audit_ensures
  intro _ _
  exact stock.carved.audit_ensures stock.inUse

/-- A loose chunk of a stock passes its audit. -/
theorem Stock.auditChunk_ensures (stock : Stock uses pool node loose row) (member : chunk ∈ loose)
    (container : chunk.container = node.id) :
    Ensures excuse (node.auditChunk chunk) fun _ => True := by
  have owned := (stock.looseOwned chunk member container).1
  exact stock.carved.auditChunk_ensures owned.sound container owned.isClass
    (stock.mem_row (List.mem_append_right _ member) container)

end CollectorMemory
