import CollectorMemory.Proofs.Canonical
import CollectorMemory.Proofs.Node.Twin
import CollectorMemory.Proofs.Pool.Stock

/-!
# Stocks that settle alike

Chunks of a node are put back in some order, and its stock is settled again each time. In whichever
order this is done, in the end the node has the same bounds and marks, and the free pool has the same
chunks of it: they are at the same places and have the same sizes and kinds.
-/

namespace CollectorMemory

/-- What is the same of a free chunk in every order of merging: its place, its size and its kind. -/
def Chunk.entry (chunk : Chunk) : Location × Nat × Kind := (chunk.place, chunk.size, chunk.kind)

/-- The entry of a free chunk of a node whose block has a shape. -/
def Block.entryOf (id : NodeId) (shape : Nat × Nat × Kind × Bool) : Location × Nat × Kind :=
  (⟨id, shape.1⟩, shape.2.1, shape.2.2.1)

/-- A node whose stock settled again after some chunks of it were put back, and the row that it had
before. -/
structure Node.Resettled (uses : Nat) (base : Node) (row : List Block) (pool : Pool) (node : Node)
    (loose : List Chunk) : Prop where
  /-- The node stays alike. -/
  alike : base.Alike node
  /-- Nothing is carved. -/
  top : node.top = base.top
  /-- The row tiled the carved words. -/
  tiles : Tiles 0 row base.top
  /-- The stock is settled, and its row is coarser. -/
  settled : ∃ after, Settled uses pool node loose after ∧ Coarser row after base.top

variable {uses : Nat} {pool pool' : Pool} {node node' base : Node} {loose loose' : List Chunk}
  {row : List Block} {chunk : Chunk} {left right : List Chunk}

/-- The blocks in use of a stock are those of its loose chunks. -/
theorem Stock.mem_row_iff_of_used (stock : Stock uses pool node loose row) {block : Block}
    (used : block.isFree = false) : block ∈ row ↔ block ∈ blocksIn node.id loose := by
  rw [mem_blocksIn]
  constructor
  · intro member
    exact stock.exists_loose member used
  · intro ⟨chunk, member, container, isBlock⟩
    rw [← isBlock]
    exact stock.mem_row (List.mem_append_right _ member) container

/-- The free blocks of a stock are those of the free chunks of the node. -/
theorem Stock.free_perm (stock : Stock uses pool node loose row) :
    (row.filter Block.isFree).Perm (blocksIn node.id pool.chunks) := by
  have perm := stock.perm.filter Block.isFree
  have ofPool : (blocksIn node.id pool.chunks).filter Block.isFree =
      blocksIn node.id pool.chunks := List.filter_eq_self.mpr stock.free_of_pool
  have ofLoose : (blocksIn node.id loose).filter Block.isFree = [] := by
    apply List.filter_eq_nil_iff.mpr
    intro block member
    rw [stock.used_of_loose block member]
    exact Bool.false_ne_true
  rw [blocksIn_append, List.filter_append, ofPool, ofLoose, List.append_nil] at perm
  exact perm

/-- The entries of the free chunks of a node are those of the shapes of its free blocks. -/
theorem Stock.entries_perm (stock : Stock uses pool node loose row) :
    ((within node.id pool.chunks).map Chunk.entry).Perm
      (((row.map Block.shape).filter fun shape => shape.2.2.2).map (Block.entryOf node.id)) := by
  have shapes : (row.map Block.shape).filter (fun shape => shape.2.2.2) =
      (row.filter Block.isFree).map Block.shape := List.filter_map
  have entries : (within node.id pool.chunks).map Chunk.entry =
      (blocksIn node.id pool.chunks).map (Block.entryOf node.id ∘ Block.shape) := by
    unfold blocksIn
    rw [List.map_map]
    apply List.map_congr_left
    intro chunk member
    have container := (mem_within.mp member).2
    unfold Chunk.entry Chunk.place
    rw [container]
    rfl
  rw [shapes, List.map_map, entries]
  exact (stock.free_perm.map _).symm

/-- Chunks have the same entries if those of every node have. -/
theorem entries_perm_of_within
    (each : ∀ id, ((within id left).map Chunk.entry).Perm ((within id right).map Chunk.entry)) :
    (left.map Chunk.entry).Perm (right.map Chunk.entry) := by
  have counted : ∀ (entry : Location × Nat × Kind) (chunks : List Chunk),
      (chunks.map Chunk.entry).count entry =
        ((within entry.1.node chunks).map Chunk.entry).count entry := by
    intro entry chunks
    let isHere (other : Location × Nat × Kind) : Bool := other.1.node == entry.1.node
    have filtered : (within entry.1.node chunks).map Chunk.entry =
        (chunks.map Chunk.entry).filter isHere := by
      rw [List.filter_map]
      rfl
    have passes : isHere entry = true := beq_self_eq_true entry.1.node
    rw [filtered, List.count_filter passes]
  rw [List.perm_iff_count]
  intro entry
  rw [counted entry left, counted entry right]
  exact (each entry.1.node).count_eq entry

/-- The chunks of a kind are in the list of the kind. -/
theorem Pool.Filed.ofKind_eq (filed : pool.Filed) (kind : Kind) :
    pool.ofKind kind = pool.chunks.filter fun chunk => chunk.kind == kind := by
  have own : ∀ other, (pool.ofKind other).filter (fun chunk => chunk.kind == kind) =
      if other = kind then pool.ofKind kind else [] := by
    intro other
    split
    · next same =>
      subst same
      exact List.filter_eq_self.mpr fun chunk member => beq_iff_eq.mpr (filed.kind _ chunk member)
    · next differs =>
      apply List.filter_eq_nil_iff.mpr
      intro chunk member
      rw [filed.kind _ chunk member]
      simpa using differs
  unfold Pool.chunks
  rw [List.filter_flatMap]
  simp only [own]
  cases kind <;> simp [Kind.all]

/-- The lists of every kind have the same entries if the chunks of two pools have. -/
theorem Pool.Filed.entries_perm (filed : pool.Filed) (filed' : pool'.Filed)
    (perm : (pool.chunks.map Chunk.entry).Perm (pool'.chunks.map Chunk.entry)) (kind : Kind) :
    ((pool.ofKind kind).map Chunk.entry).Perm ((pool'.ofKind kind).map Chunk.entry) := by
  have filtered : ∀ chunks : List Chunk,
      (chunks.filter fun chunk => chunk.kind == kind).map Chunk.entry =
        (chunks.map Chunk.entry).filter fun entry => entry.2.2 == kind := by
    intro chunks
    rw [List.filter_map]
    rfl
  rw [filed.ofKind_eq, filed'.ofKind_eq, filtered, filtered]
  exact perm.filter _

/-- Pools with the same entries have as many chunks and words. -/
theorem Pool.Sound.numbers_eq (sound : pool.Sound uses) (sound' : pool'.Sound uses)
    (perm : (pool.chunks.map Chunk.entry).Perm (pool'.chunks.map Chunk.entry)) :
    pool'.count = pool.count ∧ pool'.words = pool.words := by
  have lengths := perm.length_eq
  rw [List.length_map, List.length_map] at lengths
  have sizes : ∀ chunks : List Chunk,
      wordsOf chunks = ((chunks.map Chunk.entry).map fun entry => entry.2.1).sum := by
    intro chunks
    unfold wordsOf
    rw [List.map_map]
    rfl
  have sums := (perm.map fun entry => entry.2.1).sum_nat
  rw [← sizes, ← sizes] at sums
  rw [sound.count, sound'.count, sound.words, sound'.words]
  exact ⟨lengths.symm, sums.symm⟩

namespace Node.Resettled

/-- A settled stock is settled after no chunk was put back. -/
theorem of_settled (settled : Settled uses pool node loose row) :
    Node.Resettled uses node row pool node loose :=
  ⟨Node.Alike.refl settled.carved.toRegular, rfl, settled.carved.tiles, row, settled,
    Coarser.refl row node.top⟩

/-- The row became a reduced one. -/
theorem exists_reduced (resettled : Node.Resettled uses base row pool node loose) :
    ∃ after, Settled uses pool node loose after ∧ Reduced base.sizes row base.top after := by
  obtain ⟨after, settled, coarser⟩ := resettled.settled
  have afterTiles := settled.carved.tiles
  have afterSound := settled.carved.sound
  have coalesced := settled.coalesced
  rw [resettled.alike.sizes] at afterSound coalesced
  rw [resettled.top] at afterTiles coalesced
  exact ⟨after, settled, resettled.tiles, afterTiles, afterSound, coalesced, coarser⟩

/-- In whichever order chunks were put back, the node has the same bounds and marks and the pool has
the same chunks of it. -/
theorem agree (first : Node.Resettled uses base row pool node loose)
    (second : Node.Resettled uses base row pool' node' loose) :
    node.Twin node' ∧ ((within base.id pool.chunks).map Chunk.entry).Perm
      ((within base.id pool'.chunks).map Chunk.entry) := by
  obtain ⟨blocks, settled, reduced⟩ := first.exists_reduced
  obtain ⟨blocks', settled', reduced'⟩ := second.exists_reduced
  have isId := first.alike.id
  have isId' := second.alike.id
  have sameUse : ∀ block : Block, block.isFree = false → (block ∈ blocks ↔ block ∈ blocks') := by
    intro block used
    rw [settled.toStock.mem_row_iff_of_used used, settled'.toStock.mem_row_iff_of_used used, isId,
      isId']
  have otherUse : ∀ block : Block, block.isFree = false → (block ∈ blocks' ↔ block ∈ blocks) :=
    fun block used => (sameUse block used).symm
  constructor
  · apply Node.Twin.of_alike first.alike second.alike (second.top.trans first.top.symm)
    · rw [settled.toStock.chunksInUse_eq, settled'.toStock.chunksInUse_eq, isId, isId']
    · apply settled.carved.map_eq settled'.carved first.alike second.alike _ otherUse
      intro offset
      constructor
      · intro ⟨block, member, bottom⟩
        obtain ⟨other, isThere, shape⟩ := reduced'.exists_shape reduced otherUse member
        exact ⟨other, isThere, (congrArg Prod.fst shape).trans bottom⟩
      · intro ⟨block, member, bottom⟩
        obtain ⟨other, isThere, shape⟩ := reduced.exists_shape reduced' sameUse member
        exact ⟨other, isThere, (congrArg Prod.fst shape).trans bottom⟩
  · have entries := settled.toStock.entries_perm
    have entries' := settled'.toStock.entries_perm
    rw [isId] at entries
    rw [isId'] at entries'
    have shapes := (reduced.shape_perm reduced' sameUse).filter fun shape => shape.2.2.2
    exact entries.trans ((shapes.map (Block.entryOf base.id)).trans entries'.symm)

end Node.Resettled

end CollectorMemory
