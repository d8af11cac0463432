import CollectorMemory.Proofs.Session.Partition
import CollectorMemory.Proofs.Session.Safety

/-!
# A request that fails damages nothing

A request that nothing serves leaves all nodes, with what they reserve and commit, and all chunks
that are held, with their words and their marks. At most the words that were left in the current
node are free chunks then, and in the class space nothing changes at all. This holds in every
session that a run reaches.
-/

namespace CollectorMemory

variable {uses size : Nat} {held : List Chunk} {arena arena' : Arena} {front : List Node}
  {node node' : Node} {row row' : List Block} {allocator after : Allocator} {space : Space}

/-- What a node has apart from what is carved of it: its handle, the words that it reserves and
commits, and the number of chunks in use. -/
def Node.standing (node : Node) : NodeId × Nat × Nat × Nat :=
  (node.id, node.reserved, node.committed, node.chunksInUse)

/-- What a request that failed leaves of an arena. -/
structure Arena.Undamaged (arena arena' : Arena) : Prop where
  /-- Of the list of nodes at most the nodes have a new state. -/
  list : arena'.list = { arena.list with nodes := arena'.list.nodes }
  /-- The nodes stand as before. -/
  nodes : arena'.list.nodes.toList.map Node.standing = arena.list.nodes.toList.map Node.standing
  /-- As many words are reserved. -/
  reserved : arena'.list.reservedWords = arena.list.reservedWords
  /-- As many words are committed. -/
  committed : arena'.list.committedWords = arena.list.committedWords
  /-- Nothing changes, or all words left in the last node are carved into free chunks of it. -/
  carved : arena' = arena ∨ ∃ front last last', arena.list.nodes.toList = front ++ [last] ∧
    arena'.list.nodes.toList = front ++ [last'] ∧ last'.top = last'.committed ∧
      (outside last.id arena'.pool.chunks).Perm (outside last.id arena.pool.chunks)
  /-- As many words are free or not carved. -/
  words : arena'.pool.words + (arena'.list.nodes.toList.map Node.uncarved).sum =
    arena.pool.words + (arena.list.nodes.toList.map Node.uncarved).sum

/-- What a request for a space that failed leaves, with the chunks that are held. -/
structure Allocator.Undamaged (held : List Chunk) (space : Space) (allocator after : Allocator) :
    Prop where
  /-- The options stay. -/
  options : after.options = allocator.options
  /-- The arena of the other space stays. -/
  elsewhere : ∀ other, other ≠ space → after.arena other = allocator.arena other
  /-- In the class space nothing changes. -/
  classSpace : space = .classOnly → after = allocator
  /-- The arena of the space is not damaged. -/
  arena : Arena.Undamaged (allocator.arena space) (after.arena space)
  /-- The words of every chunk that is held, its header among them, and its marks stay. -/
  chunks : ∀ chunk ∈ held, ∀ node, allocator.node? chunk.container = some node →
    ∃ node', after.node? chunk.container = some node' ∧
      ∀ offset, chunk.bottom ≤ offset → offset < chunk.stop → node.SameAt node' offset
  /-- The chunks that are held and the free ones partition every node. -/
  partitioned : ∀ other, ∀ node ∈ (after.arena other).list.nodes.toList,
    node.PartitionedBy held (after.arena other).pool.chunks
  /-- The free chunks are counted. -/
  counted : ∀ other, (after.arena other).pool.count = (after.arena other).pool.chunks.length ∧
    (after.arena other).pool.words = wordsOf (after.arena other).pool.chunks

/-- What partitions a node depends on the chunks of the node alone. -/
theorem Node.PartitionedBy.of_within {held' free : List Chunk}
    (partitioned : node.PartitionedBy held free)
    (same : within node.id held' = within node.id held) : node.PartitionedBy held' free := by
  have sameAll : within node.id (held' ++ free) = within node.id (held ++ free) := by
    unfold within at same ⊢
    rw [List.filter_append, List.filter_append, same]
  obtain ⟨tiles, headers, starts, inUse, count⟩ := partitioned
  rw [← sameAll] at tiles headers starts
  rw [← same] at inUse count
  exact ⟨tiles, headers, starts, inUse, count⟩

/-- The chunks that are held and the free ones partition every node of a sound allocator. -/
theorem Allocator.Sound.partitionedBy (sound : allocator.Sound uses held)
    (member : node ∈ (allocator.arena space).list.nodes.toList) :
    node.PartitionedBy held (allocator.arena space).pool.chunks := by
  have arenaSound := sound.arena space
  have isSpace : node.id.space = space :=
    (arenaSound.ordered.space node member).trans (sound.space space)
  obtain ⟨row, settled⟩ := arenaSound.settled node member
  apply settled.toStock.partitionedBy.of_within
  rw [← isSpace]
  exact within_inSpace.symm

namespace Arena.Retired

/-- A node that was given up stands as before. -/
theorem standing_eq (retired : Arena.Retired uses held arena arena' front node node' row row') :
    node'.standing = node.standing := by
  have alike := retired.steady.nodeAlike
  have inUse := retired.before.toStock.chunksInUse_eq
  have inUseAfter := retired.settled.toStock.chunksInUse_eq
  rw [alike.id] at inUseAfter
  unfold Node.standing
  rw [alike.id, alike.reserved, alike.committed, inUse, inUseAfter]

/-- What is carved of a node that is given up becomes free. -/
theorem words_eq (retired : Arena.Retired uses held arena arena' front node node' row row') :
    arena'.pool.words + node'.uncarved = arena.pool.words + node.uncarved := by
  have alike := retired.steady.nodeAlike
  have carved : arena'.pool.words + wordsOf (within node.id []) + node.top =
      arena.pool.words + node'.top :=
    retired.steady.words_eq retired.before.toStock retired.settled.toStock
  have topLe := retired.before.carved.top_le
  have top := retired.top
  have committed := alike.committed
  change _ + 0 + _ = _ at carved
  unfold Node.uncarved
  omega

/-- Giving up a node does not damage the arena. -/
theorem undamaged (retired : Arena.Retired uses held arena arena' front node node' row row') :
    arena.Undamaged arena' where
  list := by rw [retired.list]
  nodes := retired.map_eq retired.standing_eq
  reserved := by
    unfold NodeList.reservedWords
    rw [retired.map_eq retired.steady.nodeAlike.reserved]
  committed := by
    unfold NodeList.committedWords
    rw [retired.map_eq retired.steady.nodeAlike.committed]
  carved := Or.inr ⟨front, node, node', retired.nodes, by rw [retired.list], retired.top,
    retired.steady.elsewhere⟩
  words := by
    have words := retired.words_eq
    rw [retired.nodes, retired.list]
    change _ + ((front ++ [node']).map Node.uncarved).sum = _
    simp only [List.map_append, List.sum_append, List.map_singleton, List.sum_singleton]
    omega

end Arena.Retired

/-- An arena whose current node was given up at most is not damaged. -/
theorem Arena.GivenUp.undamaged (givenUp : Arena.GivenUp uses held size arena arena') :
    arena.Undamaged arena' := by
  rcases givenUp with rfl | ⟨_, _, front, node, node', row, row', retired⟩
  · exact ⟨rfl, rfl, rfl, rfl, Or.inl rfl, rfl⟩
  · exact retired.undamaged

/-- Giving up the current node leaves the words and marks of the chunks that are held. -/
theorem Arena.GivenUp.sameAt {chunk : Chunk} (givenUp : Arena.GivenUp uses held size arena arena')
    (ordered : arena.list.Ordered) (isHeld : chunk ∈ held)
    (found : arena.list.node? chunk.container = some node) :
    ∃ node', arena'.list.node? chunk.container = some node' ∧
      ∀ offset, chunk.bottom ≤ offset → offset < chunk.stop → node.SameAt node' offset := by
  rcases givenUp with rfl | ⟨_, _, front, last, last', row, row', retired⟩
  · exact ⟨node, found, fun offset _ _ => Node.SameAt.refl node offset⟩
  · obtain ⟨isNode, _⟩ := ordered.exists_split found
    obtain ⟨other, foundAfter, rfl | ⟨rfl, rfl⟩⟩ :=
      ordered.node?_replace retired.nodes retired.steady.nodeAlike.id found
    · rw [retired.list]
      exact ⟨other, foundAfter, fun offset _ _ => Node.SameAt.refl other offset⟩
    · rw [retired.list]
      exact ⟨other, foundAfter, fun offset lower upper =>
        retired.before.toStock.sameAt retired.settled.toStock retired.steady isHeld isHeld
          isNode.symm lower upper⟩

namespace Allocator

/-- Replacing an arena by itself changes nothing. -/
theorem withArena_arena : allocator.withArena space (allocator.arena space) = allocator := by
  cases space <;> rfl

/-- An allocator in which the current node of a space was given up at most is not damaged. -/
theorem GivenUp.undamaged {later : Nat} (givenUp : GivenUp uses held space size allocator after)
    (sound : allocator.Sound uses held) (soundAfter : after.Sound later held) :
    allocator.Undamaged held space after := by
  obtain ⟨arena', rfl, arenaGivenUp⟩ := givenUp
  refine {
    options := options_withArena
    elsewhere := fun other differs => arena_withArena_of_ne differs
    classSpace := ?_
    arena := ?_
    chunks := ?_
    partitioned := fun other node member => soundAfter.partitionedBy member
    counted := fun other =>
      ⟨(soundAfter.arena other).poolSound.count, (soundAfter.arena other).poolSound.words⟩ }
  · rintro rfl
    rcases arenaGivenUp with rfl | ⟨_, notClass, _⟩
    · exact withArena_arena
    · unfold NodeList.isClass at notClass
      rw [sound.space .classOnly] at notClass
      cases notClass
  · rw [arena_withArena_self]
    exact arenaGivenUp.undamaged
  · intro chunk isHeld node found
    unfold node? at found ⊢
    by_cases same : chunk.container.space = space
    · subst same
      rw [arena_withArena_self]
      exact arenaGivenUp.sameAt (sound.arena _).ordered (mem_inSpace.mpr ⟨isHeld, rfl⟩) found
    · rw [arena_withArena_of_ne same]
      exact ⟨node, found, fun offset _ _ => Node.SameAt.refl node offset⟩

end Allocator

namespace Session

variable {options : Options} {opened reached session : Session} {operations : List Operation}
  {failure : AllocationFailure}

/-- What is left of the allocator by a request that fails, if it does. -/
def refusal? (session : Session) (space : Space) (size : Nat) : Option Allocator :=
  match (session.allocator.allocate space size).outcome with
  | .ok (.error _, after) => some after
  | _ => none

/-- A request that leaves something of the allocator as a refusal fails. -/
theorem refusal?_eq_some (refused : session.refusal? space size = some after) :
    ∃ failure, (session.allocator.allocate space size).outcome = .ok (.error failure, after) := by
  unfold refusal? at refused
  split at refused
  · next failure rest isOutcome =>
    cases refused
    exact ⟨failure, isOutcome⟩
  · cases refused

/-- What a request that fails in a session that a run reaches is known to leave: nothing in the
space serves it, and the current node was given up at most. -/
theorem reached_givenUp (words : options.WordsBelow (2 ^ 55)) (made : ofOptions options = .ok opened)
    (done : opened.run operations = .ok reached)
    (failed : (reached.allocator.allocate space size).outcome = .ok (.error failure, after)) :
    ∃ uses kind, reached.allocator.Sound uses reached.chunks ∧
      after.Sound (uses + 1) reached.chunks ∧ reached.allocator.Bounded ∧
      Allocator.Spares reached.chunks reached.allocator after ∧
      (∀ space, (reached.allocator.arena space).list.limit < Header.sizeLimit) ∧
      (reached.allocator.sizes space).Suits kind size ∧
      reached.allocator.Stuck space kind size ∧
      Allocator.GivenUp uses reached.chunks space size reached.allocator after := by
  have chunkWords : options.ChunkWordsBelow Header.sizeLimit := words.chunkWords (by decide)
  obtain ⟨sound, isOptions, within⟩ := reached_sound made done chunkWords (Or.inr words)
  have limited : ∀ space, (reached.allocator.arena space).list.limit < Header.sizeLimit :=
    fun space => (within _ words space).limit
  have granule : reached.allocator.options.commitGranuleWords < 2 ^ 55 := by
    rw [isOptions]
    exact words .commitGranuleWords rfl
  have bounded : reached.allocator.Bounded := Allocator.Bounded.of_within granule (within _ words)
  obtain ⟨spares, kind, suits, soundAfter, stuck, givenUp⟩ :=
    (sound.allocator.allocate_ensures (absurd trivial) (absurd trivial) (absurd trivial)
      (absurd trivial) (fun sizeLe => Nat.lt_of_le_of_lt sizeLe (limited space))
      (absurd trivial)).of_ok failed
  exact ⟨_, kind, sound.allocator, soundAfter, bounded, spares, limited, suits, stuck, givenUp⟩

/-- In every session that a run reaches, a request that fails damages nothing, and users hold the
same chunks afterwards. -/
theorem reached_undamaged (words : options.WordsBelow (2 ^ 55)) (made : ofOptions options = .ok opened)
    (done : opened.run operations = .ok reached)
    (failed : (reached.allocator.allocate space size).outcome = .ok (.error failure, after)) :
    reached.perform (.allocate space size) = .ok { reached with allocator := after } ∧
      reached.allocator.Undamaged reached.chunks space after := by
  obtain ⟨uses, kind, sound, soundAfter, _, _, _, _, _, givenUp⟩ :=
    reached_givenUp words made done failed
  refine ⟨?_, givenUp.undamaged sound soundAfter⟩
  change (reached.allocator.allocate space size).outcome >>= _ = _
  rw [failed]
  rfl

/-- A request for more than is left of the limit fails after the current node was given up, and
damages nothing. -/
theorem sample_undamaged : ∃ (opened reached : Session) (failure : AllocationFailure)
    (after : Allocator), ofOptions Options.smallest = .ok opened ∧
    opened.run [.allocate .nonClass 3] = .ok reached ∧
    (reached.allocator.allocate .nonClass 27).outcome = .ok (.error failure, after) ∧
    after.nonClass.pool.words = 9 ∧
    reached.perform (.allocate .nonClass 27) = .ok { reached with allocator := after } ∧
    reached.allocator.Undamaged reached.chunks .nonClass after := by
  have evaluated : (ofOptions Options.smallest >>= fun session =>
      session.run [.allocate .nonClass 3]).toOption.map (fun reached =>
        (reached.refusal? .nonClass 27).map fun after => after.nonClass.pool.words) =
      some (some 9) := by decide +kernel
  obtain ⟨opened, reached, made, done, view⟩ := exists_reached evaluated
  obtain ⟨after, refused, free⟩ := Option.map_eq_some_iff.mp view
  obtain ⟨failure, failed⟩ := refusal?_eq_some refused
  exact ⟨opened, reached, failure, after, made, done, failed, free,
    reached_undamaged Options.smallest_wordsBelow made done failed⟩

end Session

end CollectorMemory
