import CollectorMemory.Proofs.Arena.Growth
import CollectorMemory.Proofs.Arena.Held
import CollectorMemory.Proofs.Arena.Purge

/-!
# Sound allocators

An allocator is sound if both of its arenas are, each with the chunks of its space that users hold.
An operation on one arena keeps the allocator sound (`Allocator.Sound.withArena`). A chunk that a user
holds can be handed out word by word, and the order of the chunks does not matter.
-/

namespace CollectorMemory

variable {uses fresh more : Nat} {allocator after : Allocator} {space other : Space}
  {held held' kept : List Chunk} {chunk : Chunk} {arena' : Arena}

/-- The chunks of a space in a list. -/
def inSpace (space : Space) (chunks : List Chunk) : List Chunk :=
  chunks.filter fun chunk => chunk.container.space == space

theorem mem_inSpace : chunk ∈ inSpace space held ↔ chunk ∈ held ∧ chunk.container.space = space := by
  simp [inSpace]

/-- A chunk of a space comes first among the chunks of its space. -/
theorem inSpace_cons_self : inSpace chunk.container.space (chunk :: held) =
    chunk :: inSpace chunk.container.space held := by
  simp [inSpace]

/-- A chunk of another space is left out. -/
theorem inSpace_cons_of_ne (differs : chunk.container.space ≠ space) :
    inSpace space (chunk :: held) = inSpace space held := by
  simp [inSpace, differs]

namespace Allocator

/-- An allocator whose arenas are in order, with the chunks that are held by users. -/
structure Sound (uses : Nat) (allocator : Allocator) (held : List Chunk) : Prop where
  /-- Each arena is of its space. -/
  space : ∀ space, (allocator.arena space).list.space = space
  /-- The class space is whole. -/
  whole : ∀ space, (allocator.arena space).list.Whole
  /-- Node numbers were not given out too often. -/
  numbers : ∀ space, (allocator.arena space).list.nextIndex ≤ uses + 1
  /-- Each arena is sound with the chunks of its space. -/
  arena : ∀ space, Arena.Sound uses (allocator.arena space) (inSpace space held)

/-- What an operation leaves as it was: the dimensions, and the words of chunks that are kept. -/
structure Spares (kept : List Chunk) (allocator after : Allocator) : Prop where
  /-- The options stay. -/
  options : after.options = allocator.options
  /-- The node lists stay alike. -/
  lists : ∀ space, (allocator.arena space).list.Alike (after.arena space).list
  /-- The words of chunks that are kept stay. -/
  spared : ∀ chunk ∈ kept, ∀ node, allocator.node? chunk.container = some node →
    ∃ node', after.node? chunk.container = some node' ∧ ∀ offset, chunk.bottom ≤ offset →
      offset < chunk.stop → node'.words.word offset = node.words.word offset

/-- The dimensions of both arenas are small enough for all sums of them to be counts. -/
structure Bounded (allocator : Allocator) : Prop where
  /-- The dimensions of the node lists are small. -/
  lists : ∀ space, (allocator.arena space).list.Bounded
  /-- The granule is small. -/
  granule : allocator.options.commitGranuleWords < 2 ^ 56

/-- The arena of a space after it was replaced. -/
theorem arena_withArena_self : (allocator.withArena space arena').arena space = arena' := by
  cases space <;> rfl

/-- The arena of the other space stays. -/
theorem arena_withArena_of_ne (differs : other ≠ space) :
    (allocator.withArena space arena').arena other = allocator.arena other := by
  cases space <;> cases other <;> first | rfl | exact absurd rfl differs

/-- Replacing an arena leaves the options. -/
theorem options_withArena : (allocator.withArena space arena').options = allocator.options := by
  cases space <;> rfl

/-- Arenas of two allocators that are related stay so where related arenas are put in for one space. -/
theorem related_withArena {related : Arena → Arena → Prop} {twin : Allocator} {arena : Arena}
    (arenas : ∀ space, related (allocator.arena space) (twin.arena space))
    (both : related arena arena') (space other : Space) :
    related ((allocator.withArena space arena).arena other)
      ((twin.withArena space arena').arena other) := by
  by_cases same : other = space
  · rw [same, arena_withArena_self, arena_withArena_self]
    exact both
  · rw [arena_withArena_of_ne same, arena_withArena_of_ne same]
    exact arenas other

/-- The node of a chunk is the one that its handle finds. -/
theorem nodeOf_eq_ok_iff {node : Node} :
    allocator.nodeOf chunk = .ok node ↔ allocator.node? chunk.container = some node := by
  unfold Allocator.nodeOf
  cases allocator.node? chunk.container <;> simp

/-- Where a node is replaced, a handle finds the same node as before, or the new state of the one that
was replaced. -/
theorem node?_withNode {node node' other : Node} {id : NodeId}
    (ordered : (allocator.arena node.id.space).list.Ordered)
    (found : allocator.node? node.id = some node) (same : node'.id = node.id)
    (foundOther : allocator.node? id = some other) :
    ∃ other', (allocator.withNode node').node? id = some other' ∧
      (other' = other ∨ other = node ∧ other' = node') := by
  obtain ⟨_, front, back, split⟩ := ordered.exists_split found
  unfold node? withNode at *
  rw [same]
  by_cases inSpace : id.space = node.id.space
  · rw [inSpace] at foundOther
    rw [inSpace, arena_withArena_self]
    dsimp only
    rw [ordered.withNode_eq split same]
    exact ordered.node?_replace split same foundOther
  · rw [arena_withArena_of_ne inSpace]
    exact ⟨other, foundOther, Or.inl rfl⟩

/-- Nothing changes where nothing is done. -/
theorem Spares.refl (kept : List Chunk) (allocator : Allocator) : Spares kept allocator allocator :=
  ⟨rfl, fun _ => NodeList.Alike.refl _, fun _ _ node found => ⟨node, found, fun _ _ _ => rfl⟩⟩

/-- What two operations leave as it was, both of them do. -/
theorem Spares.trans {middle : Allocator} (first : Spares kept allocator middle)
    (second : Spares kept middle after) : Spares kept allocator after where
  options := second.options.trans first.options
  lists space := (first.lists space).trans (second.lists space)
  spared chunk member node found := by
    obtain ⟨between, foundBetween, sameFirst⟩ := first.spared chunk member node found
    obtain ⟨last, foundLast, sameLast⟩ := second.spared chunk member between foundBetween
    exact ⟨last, foundLast, fun offset lower upper =>
      (sameLast offset lower upper).trans (sameFirst offset lower upper)⟩

/-- An operation that spares some chunks spares fewer of them. -/
theorem Spares.of_subset (spares : Spares kept allocator after) (fewer : held ⊆ kept) :
    Spares held allocator after :=
  { spares with spared := fun chunk member => spares.spared chunk (fewer member) }

/-- An operation on one arena leaves what it leaves there. -/
theorem Spares.withArena
    (spares : Arena.Spares (inSpace space kept) (allocator.arena space) arena') :
    Spares kept allocator (allocator.withArena space arena') where
  options := options_withArena
  lists other := by
    by_cases same : other = space
    · rw [same, arena_withArena_self]
      exact spares.list
    · rw [arena_withArena_of_ne same]
      exact NodeList.Alike.refl _
  spared chunk member node found := by
    unfold node? at found ⊢
    by_cases same : chunk.container.space = space
    · subst same
      rw [arena_withArena_self]
      exact spares.spared chunk (mem_inSpace.mpr ⟨member, rfl⟩) node found
    · rw [arena_withArena_of_ne same]
      exact ⟨node, found, fun _ _ _ => rfl⟩

/-- Bounds are kept where the dimensions stay. -/
theorem Bounded.of_spares (bounded : allocator.Bounded) (spares : Spares kept allocator after) :
    after.Bounded where
  lists space := (bounded.lists space).of_alike (spares.lists space)
  granule := by rw [spares.options]; exact bounded.granule

/-- An allocator stays sound where an operation goes on with the arena of one space. -/
theorem Sound.withArena (sound : allocator.Sound uses held) (le : uses + fresh ≤ more)
    (follows : Arena.Follows more fresh kept (inSpace space held') (allocator.arena space) arena')
    (elsewhere : ∀ other, other ≠ space → inSpace other held' = inSpace other held) :
    (allocator.withArena space arena').Sound more held' where
  space other := by
    by_cases same : other = space
    · rw [same, arena_withArena_self, follows.spares.list.space]
      exact sound.space space
    · rw [arena_withArena_of_ne same]
      exact sound.space other
  whole other := by
    by_cases same : other = space
    · rw [same, arena_withArena_self]
      exact follows.spares.list.whole (sound.whole space)
    · rw [arena_withArena_of_ne same]
      exact sound.whole other
  numbers other := by
    by_cases same : other = space
    · rw [same, arena_withArena_self]
      have before := sound.numbers space
      have number := follows.number
      omega
    · rw [arena_withArena_of_ne same]
      have before := sound.numbers other
      omega
  arena other := by
    by_cases same : other = space
    · rw [same, arena_withArena_self]
      exact follows.sound
    · rw [arena_withArena_of_ne same, elsewhere other same]
      exact (sound.arena other).mono (Nat.le_trans (Nat.le_add_right uses fresh) le)

/-- The order of the chunks that are held does not matter. -/
theorem Sound.of_perm (sound : allocator.Sound uses held) (perm : held.Perm held') :
    allocator.Sound uses held' where
  space := sound.space
  whole := sound.whole
  numbers := sound.numbers
  arena space := (sound.arena space).of_perm (perm.filter _)

/-- A chunk that is held can have another top in it and another use count. -/
theorem Sound.rehold (sound : allocator.Sound uses (chunk :: held)) {top useCount : Nat}
    (payloadLe : chunk.payload ≤ top) (topLe : top ≤ chunk.stop) (usesLe : useCount ≤ uses) :
    allocator.Sound uses ({ chunk with top, useCount } :: held) where
  space := sound.space
  whole := sound.whole
  numbers := sound.numbers
  arena space := by
    have before := sound.arena space
    by_cases same : chunk.container.space = space
    · subst same
      rw [inSpace_cons_self] at before
      have here : inSpace chunk.container.space ({ chunk with top, useCount } :: held) =
          { chunk with top, useCount } :: inSpace chunk.container.space held := by simp [inSpace]
      rw [here]
      exact before.rehold payloadLe topLe usesLe
    · rw [inSpace_cons_of_ne same] at before
      have different : ({ chunk with top, useCount } : Chunk).container.space ≠ space := same
      rw [inSpace_cons_of_ne different]
      exact before

/-- A chunk that is held belongs to a node, which has it as a block in use. -/
theorem Sound.exists_node (sound : allocator.Sound uses held) (member : chunk ∈ held) :
    ∃ node row, allocator.node? chunk.container = some node ∧
      node ∈ (allocator.arena chunk.container.space).list.nodes.toList ∧ node.Owns chunk ∧
        chunk.isFree = false ∧ chunk.useCount ≤ uses ∧
          Settled uses (allocator.arena chunk.container.space).pool node
            (inSpace chunk.container.space held) row ∧ chunk.block ∈ row := by
  have arenaSound := sound.arena chunk.container.space
  obtain ⟨front, node, back, row, split, owned, used, usesLe, settled, inRow⟩ :=
    arenaSound.exists_node (mem_inSpace.mpr ⟨member, rfl⟩)
  refine ⟨node, row, ?_, ?_, owned, used, usesLe, settled, inRow⟩
  · unfold node?
    rw [owned.container]
    have found := arenaSound.ordered.node?_eq split
    rw [owned.container] at found
    exact found
  · rw [split]
    exact List.mem_append_right front List.mem_cons_self

end Allocator

end CollectorMemory
