import CollectorMemory.Proofs.Allocator.Sound
import CollectorMemory.Proofs.Arena.Confined

/-!
# Allocators that keep to their limits

An allocator that is made from options keeps to the limits of these, in both spaces and for all options:
there is no bound on the numbers in them. The chunks that it hands out are within the limit of their
space, and putting such a chunk back, tagging it and writing through it keep it so.
-/

namespace CollectorMemory

variable {options : Options} {sizes : Space → ChunkSizes} {allocator : Allocator} {arena : Arena}
  {space : Space} {chunk : Chunk} {node after : Node} {id : NodeId} {size : Nat}

/-- The number of words that the nodes of a space may reserve: the class space has one node, of whole
granules. -/
def Options.reserveLimit (options : Options) : Space → Nat
  | .nonClass => options.maxWords
  | .classOnly => Count.nextMultiple options.classSpaceWords options.commitGranuleWords

/-- What a space with chunks of some sizes is confined to under options. -/
def Options.confines (options : Options) (sizes : ChunkSizes) (space : Space) : Confines where
  space
  sizes
  limit := options.reserveLimit space
  granule := options.commitGranuleWords

/-- A chunk that is confined to the limits of its space. -/
def Chunk.ConfinedBy (options : Options) (sizes : Space → ChunkSizes) (chunk : Chunk) : Prop :=
  chunk.Confined (options.confines (sizes chunk.container.space) chunk.container.space)

/-- An allocator whose spaces are confined to the limits of its options. -/
structure Allocator.Confined (options : Options) (sizes : Space → ChunkSizes)
    (allocator : Allocator) : Prop where
  /-- The arenas are confined. -/
  arena : ∀ space, (allocator.arena space).Confined (options.confines (sizes space) space)
  /-- The allocator has the options. -/
  options : allocator.options = options

/-- A chunk that is confined to the limits of a space is of that space. -/
theorem Chunk.Confined.confinedBy
    (isConfined : chunk.Confined (options.confines (sizes space) space)) :
    chunk.ConfinedBy options sizes := by
  unfold Chunk.ConfinedBy
  rw [isConfined.space]
  exact isConfined

/-- The free flag of a chunk does not matter. -/
theorem Chunk.ConfinedBy.withFree (isConfined : chunk.ConfinedBy options sizes) (isFree : Bool) :
    (chunk.withFree isFree).ConfinedBy options sizes :=
  Chunk.Confined.congr isConfined rfl rfl rfl rfl

/-- The dimensions of a space keep to the limit. -/
theorem NodeList.dimensions_confined :
    Ensures True (NodeList.dimensions options space) fun (_, limit) =>
      limit = options.reserveLimit space ∧ 0 < options.commitGranuleWords := by
  unfold NodeList.dimensions
  cases space with
  | nonClass =>
    refine Ensures.bind (Count.roundUp_eq_nextMultiple (absurd trivial) (absurd trivial)) ?_
    rintro words ⟨positive, _⟩
    exact ⟨rfl, positive⟩
  | classOnly =>
    refine Ensures.bind (Count.roundUp_eq_nextMultiple (absurd trivial) (absurd trivial)) ?_
    rintro words ⟨positive, _, rfl⟩
    exact ⟨rfl, positive⟩

/-- A node list that is made from options keeps to their limits. -/
theorem NodeList.ofOptions_confined :
    Ensures True (NodeList.ofOptions space options).outcome fun list =>
      list.Confined (options.confines list.sizes space) ∧ 0 < options.commitGranuleWords := by
  unfold NodeList.ofOptions
  refine Ensures.bindRun (ensures_excused _) ?_
  intro sizes _
  dsimp only
  refine Ensures.bindRun (ensures_excused _) ?_
  intro _ _
  refine Ensures.bindRun NodeList.dimensions_confined ?_
  rintro ⟨nodeWords, limit⟩ ⟨isLimit, positive⟩
  dsimp only
  have empty : NodeList.Confined (options.confines sizes space)
      ⟨space, sizes, options.audited, #[], 0, nodeWords, limit, options.commitGranuleWords⟩ :=
    ⟨rfl, rfl, isLimit, rfl, ⟨List.forall_mem_nil _, List.Pairwise.nil⟩, List.forall_mem_nil _,
      Nat.zero_le _, List.forall_mem_nil _⟩
  refine Ensures.bindRun empty.reserve ?_
  rintro (_ | list) reserved
  · refine ensures_note ?_
    exact ⟨empty, positive⟩
  · have isConfined : list.Confined (options.confines sizes space) := reserved
    have isSizes : list.sizes = sizes := isConfined.sizes
    rw [← isSizes] at isConfined
    exact ⟨isConfined, positive⟩

/-- An arena that is made from options keeps to their limits. -/
theorem Arena.ofOptions_confined :
    Ensures True (Arena.ofOptions space options).outcome fun arena =>
      arena.Confined (options.confines arena.list.sizes space) ∧ 0 < options.commitGranuleWords := by
  unfold Arena.ofOptions
  refine Ensures.bindRun NodeList.ofOptions_confined ?_
  intro list ⟨isConfined, positive⟩
  exact ⟨⟨isConfined, Pool.confined_empty⟩, positive⟩

namespace Allocator

/-- An allocator that is made from options keeps to their limits. -/
theorem ofOptions_confined :
    Ensures True (Allocator.ofOptions options).outcome fun allocator =>
      allocator.Confined options allocator.sizes ∧ 0 < options.commitGranuleWords := by
  unfold Allocator.ofOptions
  refine Ensures.bindRun Arena.ofOptions_confined ?_
  intro nonClass ⟨firstConfined, positive⟩
  refine Ensures.bindRun Arena.ofOptions_confined ?_
  intro classOnly ⟨secondConfined, _⟩
  refine ensures_note ?_
  refine ⟨⟨?_, rfl⟩, positive⟩
  rintro (_ | _)
  · exact firstConfined
  · exact secondConfined

/-- An allocator is confined with another arena of a space. -/
theorem Confined.withArena (confined : allocator.Confined options sizes)
    (isArena : arena.Confined (options.confines (sizes space) space)) :
    (allocator.withArena space arena).Confined options sizes where
  arena other := by
    by_cases same : other = space
    · subst same
      rw [arena_withArena_self]
      exact isArena
    · rw [arena_withArena_of_ne same]
      exact confined.arena other
  options := options_withArena.trans confined.options

/-- A node that is found is confined, and the allocator is confined with another state of it. -/
theorem Confined.withNode (confined : allocator.Confined options sizes)
    (found : allocator.node? id = some node) :
    node.Confined (options.confines (sizes id.space) id.space) ∧
      ∀ after, node.Keeps (options.confines (sizes id.space) id.space) after →
        (allocator.withNode after).Confined options sizes := by
  have isArena := confined.arena id.space
  have member := isArena.list.mem_of_node? found
  obtain ⟨isId, _⟩ := isArena.list.ordered.exists_split found
  refine ⟨isArena.list.nodes node member, fun after kept => ?_⟩
  unfold Allocator.withNode
  rw [kept.id, isId]
  exact confined.withArena ⟨isArena.list.withNode member kept, isArena.pool⟩

/-- A chunk that is allocated for a request has room for it and is unused. -/
theorem Confined.allocate (confined : allocator.Confined options sizes) :
    Ensures True (allocator.allocate space size).outcome fun (result, after) =>
      after.Confined options sizes ∧ ∀ chunk, result = .ok chunk →
        chunk.Unused (options.confines (sizes space) space) ∧ size ≤ chunk.size := by
  unfold Allocator.allocate
  refine Ensures.bindRun (ensures_excused _) ?_
  intro _ _
  refine Ensures.bindRun (confined.arena space).provide ?_
  rintro ⟨_ | chunk, arena⟩ ⟨isArena, served⟩
  · refine ensures_note ?_
    exact ⟨confined.withArena isArena, fun _ isOk => nomatch isOk⟩
  · obtain ⟨unused, enough⟩ := served chunk rfl
    refine Ensures.bindRun unused.addUse ?_
    intro used ⟨usedUnused, isSize⟩
    refine ensures_note ?_
    refine ⟨confined.withArena isArena, ?_⟩
    rintro _ ⟨⟩
    exact ⟨usedUnused, isSize.symm ▸ enough⟩

/-- Putting a confined chunk back keeps an allocator confined. -/
theorem Confined.putBack (confined : allocator.Confined options sizes)
    (isConfined : chunk.ConfinedBy options sizes) :
    Ensures True (allocator.putBack chunk).outcome (Allocator.Confined options sizes) := by
  have isArena := confined.arena chunk.container.space
  unfold Allocator.putBack
  dsimp only
  split
  · trivial
  next node found =>
  have member := isArena.list.mem_of_node? found
  refine Ensures.bindRun (isArena.pool.putBack (isArena.list.nodes node member) isConfined) ?_
  rintro ⟨pool, after⟩ ⟨isPool, kept⟩
  exact confined.withArena ⟨isArena.list.withNode member kept, isPool⟩

/-- Writing words keeps an allocator confined. -/
theorem Confined.writeWords (confined : allocator.Confined options sizes) (place : Location)
    (data : List UInt64) :
    Ensures True (allocator.writeWords chunk place data) (Allocator.Confined options sizes) := by
  unfold Allocator.writeWords
  refine Ensures.bind (ensures_excused _) ?_
  intro _ _
  refine Ensures.bind (ensures_returned _) ?_
  intro node isNode
  obtain ⟨isConfined, replaced⟩ := confined.withNode (nodeOf_eq_ok_iff.mp isNode)
  refine Ensures.bind (isConfined.writeWords place data) ?_
  intro after kept
  exact replaced after kept

/-- Tagging a chunk keeps an allocator confined. -/
theorem Confined.setInUse (confined : allocator.Confined options sizes) (inUse : Bool) :
    Ensures True (allocator.setInUse chunk inUse) fun (after, tagged) =>
      after.Confined options sizes ∧ tagged = chunk.withFree (!inUse) := by
  unfold Allocator.setInUse
  refine Ensures.bind (ensures_returned _) ?_
  intro node isNode
  obtain ⟨isConfined, replaced⟩ := confined.withNode (nodeOf_eq_ok_iff.mp isNode)
  refine Ensures.bind (isConfined.setInUse chunk inUse) ?_
  intro (after, tagged) ⟨kept, isTagged⟩
  exact ⟨replaced after kept, isTagged⟩

/-- Giving up nodes keeps an allocator confined. -/
theorem Confined.purge (confined : allocator.Confined options sizes) :
    Ensures True (allocator.purge space).outcome fun (_, after) => after.Confined options sizes := by
  have isArena := confined.arena space
  unfold Allocator.purge
  refine Ensures.bindRun (isArena.list.purge isArena.pool) ?_
  intro (list, pool, purged) ⟨isList, isPool⟩
  refine ensures_noteIf ?_
  exact confined.withArena ⟨isList, isPool⟩

end Allocator

end CollectorMemory
