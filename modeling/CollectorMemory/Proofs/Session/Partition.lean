import CollectorMemory.Proofs.Session.Sound

/-!
# Chunks partition their nodes

The chunks that users hold and those in the free pool are all that a node consists of: in the order of
their offsets they lie side by side from its bottom to its top. Memory, both layers of the map and all
counters say the same about them. This holds in every session that a run reaches.
-/

namespace CollectorMemory

variable {uses : Nat} {pool : Pool} {held : List Chunk} {chunk : Chunk}
  {node : Node} {row : List Block} {space : Space}

/-- A node, the chunks of it that are held and those that are free agree with each other. -/
structure Node.PartitionedBy (node : Node) (held free : List Chunk) : Prop where
  /-- In some order the chunks of the node tile its carved words. -/
  tiles : ∃ row : List Chunk, row.Perm (within node.id (held ++ free)) ∧
    Tiles 0 (row.map Chunk.block) node.top
  /-- Every chunk has its header in memory. -/
  headers : ∀ chunk ∈ within node.id (held ++ free),
    node.words.headerAt chunk.bottom = .ok chunk.header
  /-- A start is marked at the bottoms of the chunks and nowhere else. -/
  starts : ∀ offset, offset % node.map.granule = 0 → (node.map.marksStart offset = true ↔
    ∃ chunk ∈ within node.id (held ++ free), chunk.bottom = offset)
  /-- A granule is marked in use where a chunk that is held covers it and nowhere else. -/
  inUse : ∀ offset, offset % node.map.granule = 0 → (node.map.marksInUse offset = true ↔
    ∃ chunk ∈ within node.id held, chunk.bottom ≤ offset ∧ offset < chunk.stop)
  /-- The number of chunks in use is that of the chunks that are held. -/
  count : node.chunksInUse = (within node.id held).length

/-- The chunks of a node are of its space. -/
theorem within_inSpace {id : NodeId} : within id (inSpace id.space held) = within id held := by
  unfold within inSpace
  rw [List.filter_filter]
  apply List.filter_congr
  intro chunk _
  by_cases same : chunk.container = id
  · simp [same]
  · simp [same]

/-- The blocks of a row are those of a row of chunks. -/
theorem exists_row {chunks : List Chunk} (perm : row.Perm (chunks.map Chunk.block)) :
    ∃ ordered : List Chunk, ordered.Perm chunks ∧ ordered.map Chunk.block = row := by
  have related : List.Forall₂ (fun block chunk => Chunk.block chunk = block)
      (chunks.map Chunk.block) chunks := by
    rw [List.forall₂_map_left_iff]
    exact List.forall₂_same.mpr fun _ _ => rfl
  obtain ⟨ordered, sameBlocks, samePerm⟩ := List.perm_comp_forall₂ perm related
  refine ⟨ordered, samePerm, ?_⟩
  clear samePerm perm related
  induction sameBlocks with
  | nil => rfl
  | cons same _ ih => rw [List.map_cons, same, ih]

/-- The header of a chunk of a node is that of its block. -/
theorem Stock.header_eq (stock : Stock uses pool node held row)
    (member : chunk ∈ within node.id (held ++ pool.chunks)) :
    chunk.header = chunk.block.header node.isClass := by
  obtain ⟨isThere, container⟩ := mem_within.mp member
  rcases List.mem_append.mp isThere with inHeld | inPool
  · have owned := (stock.looseOwned chunk inHeld container).1
    rw [← owned.isClass]
    exact Chunk.header_eq owned.sound.alive
  · have holds := stock.poolSound.holds chunk inPool
    rw [← stock.isClass, ← holds.isClass]
    exact Chunk.header_eq holds.sound.alive

/-- Of the chunks of a node those that are not free are held. -/
theorem Stock.isFree_eq_false_iff (stock : Stock uses pool node held row)
    (member : chunk ∈ within node.id (held ++ pool.chunks)) :
    chunk.isFree = false ↔ chunk ∈ within node.id held := by
  obtain ⟨isThere, container⟩ := mem_within.mp member
  constructor
  · intro used
    rcases List.mem_append.mp isThere with inHeld | inPool
    · exact mem_within.mpr ⟨inHeld, container⟩
    · rw [(stock.poolSound.holds chunk inPool).free] at used
      cases used
  · intro inHeld
    exact (stock.looseOwned chunk (mem_within.mp inHeld).1 container).2.1

/-- The node of a stock is partitioned by the chunks that are held and those in the pool. -/
theorem Stock.partitionedBy (stock : Stock uses pool node held row) :
    node.PartitionedBy held pool.chunks := by
  have carved := stock.carved
  have granule := carved.map_granule
  have swapped : (within node.id (pool.chunks ++ held)).Perm
      (within node.id (held ++ pool.chunks)) := List.perm_append_comm.filter _
  have perm : row.Perm ((within node.id (held ++ pool.chunks)).map Chunk.block) :=
    stock.perm.trans (swapped.map Chunk.block)
  have inRow : ∀ chunk ∈ within node.id (held ++ pool.chunks), chunk.block ∈ row :=
    fun chunk member => perm.mem_iff.mpr (List.mem_map_of_mem member)
  refine ⟨?_, ?_, ?_, ?_, stock.chunksInUse_eq⟩
  · obtain ⟨ordered, samePerm, isRow⟩ := exists_row perm
    refine ⟨ordered, samePerm, ?_⟩
    rw [isRow]
    exact carved.tiles
  · intro chunk member
    have read : Ensures False (node.words.headerAt chunk.bottom) fun found =>
        found = chunk.block.header node.isClass := carved.headerAt_ensures (inRow chunk member)
    obtain ⟨found, isFound, same⟩ := read.exists_ok
    rw [isFound, same, stock.header_eq member]
  · intro offset whole
    rw [granule] at whole
    rw [carved.marksStart_iff whole]
    constructor
    · rintro ⟨block, member, bottom⟩
      obtain ⟨chunk, isThere, rfl⟩ := List.mem_map.mp (perm.mem_iff.mp member)
      exact ⟨chunk, isThere, bottom⟩
    · rintro ⟨chunk, member, bottom⟩
      exact ⟨chunk.block, inRow chunk member, bottom⟩
  · intro offset whole
    rw [granule] at whole
    rw [carved.marksInUse_iff whole]
    constructor
    · rintro ⟨block, member, used, lower, upper⟩
      obtain ⟨chunk, isThere, rfl⟩ := List.mem_map.mp (perm.mem_iff.mp member)
      exact ⟨chunk, (stock.isFree_eq_false_iff isThere).mp used, lower, upper⟩
    · rintro ⟨chunk, inHeld, lower, upper⟩
      obtain ⟨isHeld, container⟩ := mem_within.mp inHeld
      have member := mem_within.mpr ⟨List.mem_append_left pool.chunks isHeld, container⟩
      exact ⟨chunk.block, inRow chunk member, (stock.isFree_eq_false_iff member).mpr inHeld, lower,
        upper⟩

namespace Session

variable {options : Options} {start reached : Session} {operations : List Operation}

/-- In every session that a run reaches, the chunks that are held and those in the pools partition the
carved words of every node, memory and map show exactly these chunks, and all counters are right. -/
theorem reached_partition (chunkWords : options.ChunkWordsBelow (2 ^ 56))
    (made : ofOptions options = .ok start) (done : start.run operations = .ok reached)
    (requests : ∀ operation ∈ operations, operation.RequestsBelow (2 ^ 56)) (space : Space) :
    (∀ node ∈ (reached.allocator.arena space).list.nodes.toList,
      node.PartitionedBy reached.chunks (reached.allocator.arena space).pool.chunks) ∧
    (reached.allocator.arena space).pool.count =
      (reached.allocator.arena space).pool.chunks.length ∧
    (reached.allocator.arena space).pool.words =
      ((reached.allocator.arena space).pool.chunks.map Chunk.size).sum := by
  obtain ⟨sound, _⟩ := reached_sound made done chunkWords (Or.inl requests)
  have arenaSound := sound.allocator.arena space
  refine ⟨?_, arenaSound.poolSound.count, arenaSound.poolSound.words⟩
  intro node member
  obtain ⟨row, settled⟩ := arenaSound.settled node member
  have isSpace : node.id.space = space :=
    (arenaSound.ordered.space node member).trans (sound.allocator.space space)
  obtain ⟨tiles, headers, starts, inUse, count⟩ := settled.toStock.partitionedBy
  have same : within node.id (inSpace space reached.chunks) = within node.id reached.chunks := by
    rw [← isSpace]
    exact within_inSpace
  have sameAll : within node.id (inSpace space reached.chunks ++
      (reached.allocator.arena space).pool.chunks) =
        within node.id (reached.chunks ++ (reached.allocator.arena space).pool.chunks) := by
    have parts : ∀ left right : List Chunk,
        within node.id (left ++ right) = within node.id left ++ within node.id right :=
      fun left right => List.filter_append left right
    rw [parts, parts, same]
  rw [sameAll] at tiles headers starts
  rw [same] at inUse count
  exact ⟨tiles, headers, starts, inUse, count⟩

/-- The two chunks that are held after the short run and the free ones partition their nodes. -/
theorem sample_partition : ∃ start reached : Session, ofOptions Options.smallest = .ok start ∧
    start.run sample = .ok reached ∧ reached.chunks.length = 2 ∧
    (∀ node ∈ (reached.allocator.arena .nonClass).list.nodes.toList,
      node.PartitionedBy reached.chunks (reached.allocator.arena .nonClass).pool.chunks) ∧
    (reached.allocator.arena .nonClass).pool.count =
      (reached.allocator.arena .nonClass).pool.chunks.length ∧
    (reached.allocator.arena .nonClass).pool.words =
      ((reached.allocator.arena .nonClass).pool.chunks.map Chunk.size).sum := by
  have evaluated : (ofOptions Options.smallest >>= fun session => session.run sample).toOption.map
      (fun reached => reached.chunks.length) = some 2 := by decide +kernel
  obtain ⟨start, reached, made, done, held⟩ := exists_reached evaluated
  have chunkWords : Options.smallest.ChunkWordsBelow (2 ^ 56) :=
    Options.smallest_wordsBelow.chunkWords (by decide)
  have requests : ∀ operation ∈ sample, operation.RequestsBelow (2 ^ 56) :=
    fun operation member => (sample_requestsBelow operation member).mono (by decide)
  exact ⟨start, reached, made, done, held, reached_partition chunkWords made done requests .nonClass⟩

end Session

end CollectorMemory
