import CollectorMemory.Proofs.NodeList.Numbers
import CollectorMemory.Proofs.Session.Sound

/-!
# Purging

Purging a space gives up exactly the nodes that are not current and of which no chunk is held, with
exactly their free chunks. Nodes are found by their handles as long as they are in their list, the
node of a chunk that is held always is, and the handle of a node that was given up finds nothing in
any later session, whatever nodes are made.
-/

namespace CollectorMemory

variable {uses : Nat} {options : Options} {start reached later last : Session}
  {operations between after : List Operation} {operation : Operation} {id : NodeId} {node : Node}

namespace Session

/-- Every operation gives out at most new numbers of nodes. -/
theorem perform_continues :
    Ensures True (start.perform operation) fun next => start.allocator.Continues next.allocator := by
  have same := Allocator.Continues.refl start.allocator
  cases operation with
  | allocate space size =>
    apply Ensures.bind Allocator.allocate_continues
    intro (result, allocator) continues
    cases result <;> exact continues
  | putBack index =>
    apply withHolding_ensures same
    intro _ _ _ _ _ _
    apply Ensures.bind Allocator.putBack_continues
    intro _ continues
    exact continues
  | grant index words =>
    apply withHolding_ensures same
    intro _ _ _ _ _ _
    apply Ensures.bind (ensures_excused _)
    intro result _
    cases result <;> exact same
  | write index place data =>
    apply withHolding_ensures same
    intro _ _ _ _ _ _
    apply Ensures.bind Allocator.writeWords_continues
    intro _ continues
    exact continues
  | read index place length =>
    apply withHolding_ensures same
    intro _ _ _ _ _ _
    apply Ensures.bind (ensures_excused _)
    intro _ _
    exact same
  | purge space =>
    apply Ensures.bind Allocator.purge_continues
    intro (_, _) continues
    exact continues
  | audit =>
    apply Ensures.bind (ensures_excused _)
    intro _ _
    exact same

/-- Every run gives out at most new numbers of nodes. -/
theorem run_continues (done : start.run operations = .ok reached) :
    start.allocator.Continues reached.allocator := by
  unfold run at done
  induction operations generalizing start with
  | nil =>
    cases done
    exact Allocator.Continues.refl _
  | cons first rest ih =>
    rw [List.foldlM_cons] at done
    cases performed : start.perform first with
    | error fault =>
      rw [performed] at done
      cases done
    | ok next =>
      rw [performed] at done
      exact (perform_continues.of_ok performed).trans (ih done)

/-- Two runs in sequence are a run. -/
theorem run_append (done : start.run operations = .ok reached)
    (more : reached.run between = .ok later) : start.run (operations ++ between) = .ok later := by
  unfold run at done more ⊢
  rw [List.foldlM_append, done]
  exact more

end Session

namespace Allocator

variable {allocator : Allocator} {held : List Chunk}

/-- A handle finds exactly the node of the list that has it. -/
theorem Sound.node?_eq_some_iff (sound : allocator.Sound uses held) :
    allocator.node? id = some node ↔
      node ∈ (allocator.arena id.space).list.nodes.toList ∧ node.id = id := by
  have ordered := (sound.arena id.space).ordered
  unfold node?
  constructor
  · intro found
    obtain ⟨isNode, front, back, split⟩ := ordered.exists_split found
    refine ⟨?_, isNode⟩
    rw [split]
    exact List.mem_append_right front List.mem_cons_self
  · intro ⟨member, isNode⟩
    obtain ⟨front, back, split⟩ := List.append_of_mem member
    rw [← ordered.node?_eq split, isNode]

/-- A handle finds nothing if no node of its space has its number. -/
theorem Sound.node?_eq_none_iff (sound : allocator.Sound uses held) :
    allocator.node? id = none ↔ id.index ∉ (allocator.arena id.space).list.numbers := by
  rw [Option.eq_none_iff_forall_not_mem]
  constructor
  · intro nothing member
    obtain ⟨node, inList, sameIndex⟩ := List.mem_map.mp member
    have sameSpace : node.id.space = id.space :=
      ((sound.arena id.space).ordered.space node inList).trans (sound.space id.space)
    have isNode : node.id = id := by
      cases isId : node.id
      cases id
      simp_all
    exact nothing node (sound.node?_eq_some_iff.mpr ⟨inList, isNode⟩)
  · intro absent node found
    obtain ⟨inList, isNode⟩ := sound.node?_eq_some_iff.mp found
    exact absent (List.mem_map.mpr ⟨node, inList, congrArg NodeId.index isNode⟩)

end Allocator

namespace Session

/-- In every session that a run reaches, purging a space gives up exactly the idle nodes with exactly
their free chunks and leaves all else as it was. The node of every chunk that is held is found, a
handle finds exactly the node of the list that has it, and where it found one and finds none after
further operations, it finds none ever after. -/
theorem reached_purged (words : options.WordsBelow (2 ^ 55))
    (made : ofOptions options = .ok start) (done : start.run operations = .ok reached) :
    (∀ space, ∃ purged arena',
      (reached.allocator.purge space).outcome =
        .ok (purged, reached.allocator.withArena space arena') ∧
      reached.perform (.purge space) =
        .ok { reached with allocator := reached.allocator.withArena space arena' } ∧
      Arena.Purged (inSpace space reached.chunks) (reached.allocator.arena space) purged arena') ∧
    (∀ chunk ∈ reached.chunks, ∃ node, reached.allocator.node? chunk.container = some node ∧
      node.id = chunk.container ∧ chunk.stop ≤ node.top) ∧
    (∀ id node, reached.allocator.node? id = some node ↔
      node ∈ (reached.allocator.arena id.space).list.nodes.toList ∧ node.id = id) ∧
    ∀ between later after last, reached.run between = .ok later → later.run after = .ok last →
      ∀ id, reached.allocator.node? id ≠ none → later.allocator.node? id = none →
        last.allocator.node? id = none := by
  have chunkWords : options.ChunkWordsBelow Header.sizeLimit := words.chunkWords (by decide)
  have soundOf : ∀ {operations : List Operation} {session : Session},
      start.run operations = .ok session → session.Sound (allocations operations) :=
    fun done => (reached_sound made done chunkWords (Or.inr words)).1
  have sound := soundOf done
  refine ⟨fun space => ?_, fun chunk isHeld => ?_, fun id node => sound.allocator.node?_eq_some_iff,
    fun between later after last ranBetween ranAfter id found gone => ?_⟩
  · obtain ⟨⟨purged, after⟩, isOutcome, _, _, arena', rfl, exactly⟩ :=
      (sound.allocator.purge_ensures).exists_ok
    refine ⟨purged, arena', isOutcome, ?_, exactly⟩
    simp only [perform, isOutcome]
    rfl
  · obtain ⟨node, row, found, _, owned, _, _, settled, inRow⟩ := sound.allocator.exists_node isHeld
    exact ⟨node, found, owned.container.symm, (settled.carved.tiles.bounds inRow).2.2⟩
  · have doneLater := run_append done ranBetween
    have laterSound := soundOf doneLater
    have lastSound := soundOf (run_append doneLater ranAfter)
    rw [laterSound.allocator.node?_eq_none_iff] at gone
    rw [lastSound.allocator.node?_eq_none_iff]
    obtain ⟨node, isFound⟩ := Option.ne_none_iff_exists'.mp found
    obtain ⟨inList, isNode⟩ := sound.allocator.node?_eq_some_iff.mp isFound
    -- The number was given out when the node was there, and numbers stay given out.
    have given : id.index < (later.allocator.arena id.space).list.nextIndex := by
      rw [← isNode]
      exact Nat.lt_of_lt_of_le ((sound.allocator.arena node.id.space).numbered node (isNode ▸ inList))
        (run_continues ranBetween node.id.space).nextIndex
    exact (run_continues ranAfter id.space).not_mem given gone

/-- A run that fills the first node and makes a second one, and puts back what is in the first. -/
def abandoned : List Operation :=
  [.allocate .nonClass 12, .allocate .nonClass 12, .allocate .nonClass 12, .putBack 0, .putBack 0]

/-- A run that needs another node. -/
def renewed : List Operation := [.allocate .nonClass 12, .allocate .nonClass 12]

/-- The first node is given up where it is abandoned, and a third one does not take its number. -/
theorem abandoned_purged : ∃ start early later last : Session,
    ofOptions Options.smallest = .ok start ∧ start.run abandoned = .ok early ∧
    early.run [.purge .nonClass] = .ok later ∧ later.run renewed = .ok last ∧
    (∃ arena', (early.allocator.purge .nonClass).outcome =
        .ok (1, early.allocator.withArena .nonClass arena') ∧
      Arena.Purged (inSpace .nonClass early.chunks) early.allocator.nonClass 1 arena') ∧
    early.allocator.node? ⟨.nonClass, 0⟩ ≠ none ∧ later.allocator.node? ⟨.nonClass, 0⟩ = none ∧
    last.allocator.node? ⟨.nonClass, 2⟩ ≠ none ∧ last.allocator.node? ⟨.nonClass, 0⟩ = none := by
  have evaluated : (do
      let start ← ofOptions Options.smallest
      let early ← start.run abandoned
      let purged ← (early.allocator.purge .nonClass).outcome
      let later ← early.run [.purge .nonClass]
      let last ← later.run renewed
      return (purged.1, (early.allocator.node? ⟨.nonClass, 0⟩).isSome,
        (later.allocator.node? ⟨.nonClass, 0⟩).isSome,
        (last.allocator.node? ⟨.nonClass, 2⟩).isSome)).toOption = some (1, true, false, true) := by
    decide +kernel
  obtain ⟨start, made, evaluated⟩ := exists_first_of_evaluated evaluated
  obtain ⟨early, done, evaluated⟩ := exists_first_of_evaluated evaluated
  obtain ⟨result, isResult, evaluated⟩ := exists_first_of_evaluated evaluated
  obtain ⟨later, ranBetween, evaluated⟩ := exists_first_of_evaluated evaluated
  obtain ⟨last, ranAfter, evaluated⟩ := exists_first_of_evaluated evaluated
  have view := Option.some.inj evaluated
  simp only [Prod.mk.injEq, Option.isSome_iff_ne_none] at view
  obtain ⟨isOne, found, gone, another⟩ := view
  rw [Option.isSome_eq_false_iff, Option.isNone_iff_eq_none] at gone
  obtain ⟨purges, _, _, forGood⟩ := reached_purged Options.smallest_wordsBelow made done
  obtain ⟨purged, arena', isOutcome, _, exactly⟩ := purges .nonClass
  obtain rfl : purged = 1 := by
    rw [isResult] at isOutcome
    rw [← isOne, Except.ok.inj isOutcome]
  exact ⟨start, early, later, last, made, done, ranBetween, ranAfter, ⟨arena', isOutcome, exactly⟩,
    found, gone, another, forGood _ _ _ _ ranBetween ranAfter _ found gone⟩

end Session

end CollectorMemory
