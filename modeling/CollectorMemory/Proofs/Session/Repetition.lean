import CollectorMemory.Proofs.Session.Refusal

/-!
# Repeating a request that failed

A request that failed fails again exactly if the pool holds no chunk that serves it. The pool did
not hold one before the request, but the words that were left in the current node may have been
merged with a free chunk in front of them into a chunk of just the size that was asked for. Nothing
else can make the repetition succeed, and in the class space nothing does.
-/

namespace CollectorMemory

variable {uses size : Nat} {held : List Chunk} {arena arena' : Arena} {front : List Node}
  {node node' : Node} {row row' : List Block} {kind : Kind} {space : Space} {after : Allocator}

/-- The row of a node that was given up has grown. -/
theorem Arena.Retired.grown
    (retired : Arena.Retired uses held arena arena' front node node' row row') :
    Grown node.sizes row node.top row' node'.top where
  tiles := retired.before.carved.tiles
  afterTiles := retired.settled.carved.tiles
  le := by
    have topLe := retired.before.carved.top_le
    rw [retired.top, retired.steady.nodeAlike.committed]
    exact topLe
  sound := retired.before.carved.sound
  afterSound := by
    have sound := retired.settled.carved.sound
    rw [retired.steady.nodeAlike.sizes] at sound
    exact sound
  kept := by
    intro block member used
    obtain ⟨chunk, inHeld, container, rfl⟩ := retired.before.toStock.exists_loose member used
    exact retired.settled.toStock.mem_row (List.mem_append_right _ inHeld)
      (container.trans retired.steady.nodeAlike.id.symm)
  coarser := retired.coarser

/-- Where nothing in an arena served a request, a free chunk that serves it after the current node
was given up is of the size of the request and lies across the old top of that node. -/
theorem Arena.Retired.straddles {chunk : Chunk}
    (retired : Arena.Retired uses held arena arena' front node node' row row')
    (suits : node.sizes.Suits kind size)
    (noneServes : ∀ chunk ∈ arena.pool.chunks, ¬chunk.block.Serves kind size)
    (noRoom : ¬node.sizes.Fits kind size node.top node.committed)
    (member : chunk ∈ arena'.pool.chunks) (serves : chunk.block.Serves kind size) :
    chunk.container = node.id ∧ chunk.size = size ∧ chunk.bottom < node.top ∧
      node.top < chunk.stop := by
  have alike := retired.steady.nodeAlike
  have container : chunk.container = node.id := by
    by_contra elsewhere
    have old := retired.steady.elsewhere.mem_iff.mp (mem_outside.mpr ⟨member, elsewhere⟩)
    exact noneServes chunk (mem_outside.mp old).1 serves
  have inRow := retired.settled.toStock.mem_row (List.mem_append_left held member)
    (container.trans alike.id.symm)
  have free : chunk.isFree = true := (retired.settled.poolSound.holds chunk member).free
  have noneBefore : ∀ block ∈ row, block.isFree = true → ¬block.Serves kind size := by
    intro block inOld isFree
    obtain ⟨other, inPool, _, rfl⟩ := retired.before.toStock.exists_free inOld isFree
    exact noneServes other inPool
  have coalesced := retired.before.coalesced
  rw [← alike.committed, ← retired.top] at noRoom
  exact ⟨container, retired.grown.straddles coalesced suits noneBefore noRoom inRow free serves⟩

/-- An arena that was stuck is stuck after its current node was given up at most, unless a free
chunk serves the request then. -/
theorem Arena.Stuck.of_givenUp {suggested words : Nat} (stuck : arena.Stuck kind size suggested)
    (sound : Arena.Sound uses arena held) (suits : arena.list.sizes.Suits kind size)
    (givenUp : Arena.GivenUp uses held words arena arena')
    (noneServes : ∀ chunk ∈ arena'.pool.chunks, ¬chunk.block.Serves kind size) :
    arena'.Stuck kind size suggested := by
  refine ⟨noneServes, ?_⟩
  rcases givenUp with rfl | ⟨_, _, front, node, node', row, row', retired⟩
  · exact stuck.full
  · have headerLt := suits.header_lt
    have member : node ∈ arena.list.nodes.toList := by
      rw [retired.nodes]
      exact List.mem_append_right front List.mem_cons_self
    apply retired.full (by omega) ?_ stuck.full
    rw [retired.steady.nodeAlike.sizes, sound.nodeSizes node member]
    exact suits.alignment_pos

/-- Where an arena was stuck, what serves the request after the current node was given up at most is
one chunk of just its size, outside of the class space, that lies across the old top of that node. -/
theorem Arena.GivenUp.straddles {suggested words : Nat} {chunk : Chunk}
    (givenUp : Arena.GivenUp uses held words arena arena') (sound : Arena.Sound uses arena held)
    (suits : arena.list.sizes.Suits kind size) (stuck : arena.Stuck kind size suggested)
    (member : chunk ∈ arena'.pool.chunks) (serves : chunk.block.Serves kind size) :
    arena.list.isClass = false ∧ chunk.size = size ∧ ∃ front node node',
      arena.list.nodes.toList = front ++ [node] ∧ arena'.list.nodes.toList = front ++ [node'] ∧
      chunk.container = node.id ∧ chunk.bottom < node.top ∧ node.top < chunk.stop := by
  rcases givenUp with rfl | ⟨_, notClass, front, node, node', row, row', retired⟩
  · exact absurd serves (stuck.pool chunk member)
  · have inList : node ∈ arena.list.nodes.toList := by
      rw [retired.nodes]
      exact List.mem_append_right front List.mem_cons_self
    have nodeSuits : node.sizes.Suits kind size := by
      rw [sound.nodeSizes node inList]
      exact suits
    have noRoom := stuck.full.room node retired.current?_eq.1
    obtain ⟨container, isSize, lower, upper⟩ :=
      retired.straddles nodeSuits stuck.pool noRoom member serves
    exact ⟨notClass, isSize, front, node, node', retired.nodes, by rw [retired.list], container,
      lower, upper⟩

namespace Session

variable {options : Options} {opened reached : Session} {operations : List Operation}
  {failure : AllocationFailure}

/-- In every session that a run reaches, what a request that fails leaves behind serves it only as
one chunk of just its size, outside of the class space, that was merged across the old top of the
current node. The request fails again exactly if there is no chunk that serves it. -/
theorem reached_repeated (words : options.WordsBelow (2 ^ 55)) (made : ofOptions options = .ok opened)
    (done : opened.run operations = .ok reached)
    (failed : (reached.allocator.allocate space size).outcome = .ok (.error failure, after)) :
    ∃ kind, (reached.allocator.sizes space).Suits kind size ∧
      (∀ chunk ∈ (after.arena space).pool.chunks, chunk.block.Serves kind size →
        space = .nonClass ∧ chunk.size = size ∧ ∃ front node node',
          (reached.allocator.arena space).list.nodes.toList = front ++ [node] ∧
          (after.arena space).list.nodes.toList = front ++ [node'] ∧ chunk.container = node.id ∧
          chunk.bottom < node.top ∧ node.top < chunk.stop) ∧
      ((∃ failure again, (after.allocate space size).outcome = .ok (.error failure, again)) ↔
        ∀ chunk ∈ (after.arena space).pool.chunks, ¬chunk.block.Serves kind size) := by
  obtain ⟨uses, kind, sound, soundAfter, bounded, spares, limited, suits, stuck, givenUp⟩ :=
    reached_givenUp words made done failed
  have alike := spares.lists space
  have limitedAfter : (after.arena space).list.limit < Header.sizeLimit := by
    rw [alike.limit]
    exact limited space
  have suitsAfter : (after.sizes space).Suits kind size := by
    unfold Allocator.sizes
    rw [alike.sizes]
    exact suits
  obtain ⟨arena', rfl, arenaGivenUp⟩ := givenUp
  rw [Allocator.arena_withArena_self] at limitedAfter ⊢
  refine ⟨kind, suits, ?_, ?_, ?_⟩
  · intro chunk member serves
    obtain ⟨notClass, straddles⟩ :=
      arenaGivenUp.straddles (sound.arena space) suits stuck member serves
    refine ⟨?_, straddles⟩
    unfold NodeList.isClass at notClass
    rw [sound.space space] at notClass
    cases space with
    | nonClass => rfl
    | classOnly => cases notClass
  · rintro ⟨failure, again, failedAgain⟩
    obtain ⟨other, otherSuits, fails_iff⟩ := soundAfter.fails_iff_stuck (by
      rw [Allocator.arena_withArena_self]
      exact fun sizeLe => Nat.lt_of_le_of_lt sizeLe limitedAfter) failedAgain
    have same := otherSuits.kind_eq suitsAfter
    subst same
    have nothing := (fails_iff.mp ⟨failure, rfl⟩).pool
    rw [Allocator.arena_withArena_self] at nothing
    exact nothing
  · intro noneServes
    rcases arenaGivenUp with rfl | ⟨within, rest⟩
    · rw [Allocator.withArena_arena]
      exact ⟨failure, _, failed⟩
    · have stuckAfter : (reached.allocator.withArena space arena').Stuck space kind size := by
        unfold Allocator.Stuck at stuck ⊢
        rw [Allocator.arena_withArena_self, spares.options]
        exact stuck.of_givenUp (sound.arena space) suits (Or.inr ⟨within, rest⟩) noneServes
      exact soundAfter.fails_of_stuck (bounded.of_spares spares) suitsAfter
        (Nat.lt_of_le_of_lt within (limited space)) stuckAfter

/-- A run after which a small chunk cannot be had: behind two chunks the node has a free specialized
chunk and as many words as one that were not carved. -/
def cornered : List Operation :=
  [.allocate .nonClass 12, .allocate .nonClass 6, .allocate .nonClass 3, .putBack 2]

end Session

/-- The smallest options, with a limit that allows one node and leaves words of a second one. -/
def Options.tight : Options := { Options.smallest with maxWords := 40 }

/-- The sizes of the tight options are far below the bound. -/
theorem Options.tight_wordsBelow : Options.tight.WordsBelow (2 ^ 55) := by
  intro field _
  cases field <;> decide

namespace Session

/-- After the cornered run a request for a small chunk fails, and leaves a free chunk that serves
it: the next request is answered. -/
theorem cornered_evaluated : (ofOptions Options.tight >>= fun session =>
    session.run cornered).toOption.map (fun reached =>
      (((reached.allocator.sizes .nonClass).kindOfSize 6).toOption,
        (reached.refusal? .nonClass 6).map fun after =>
          (after.nonClass.pool.chunks.any fun chunk => decide (chunk.block.Serves .small 6),
            (after.allocate .nonClass 6).outcome.toOption.bind fun (result, _) =>
              result.toOption.map Chunk.size))) =
    some (some .small, some (true, some 6)) := by decide +kernel

/-- The free chunk that the request leaves after the cornered run lies across the old top of the
node. -/
theorem cornered_repeated : ∃ (opened reached : Session) (failure : AllocationFailure)
    (after : Allocator) (front : List Node) (node : Node) (chunk : Chunk),
    ofOptions Options.tight = .ok opened ∧ opened.run cornered = .ok reached ∧
    (reached.allocator.allocate .nonClass 6).outcome = .ok (.error failure, after) ∧
    reached.allocator.nonClass.list.nodes.toList = front ++ [node] ∧
    chunk ∈ after.nonClass.pool.chunks ∧ chunk.size = 6 ∧ chunk.container = node.id ∧
    chunk.bottom < node.top ∧ node.top < chunk.stop := by
  obtain ⟨opened, reached, made, done, view⟩ := exists_reached cornered_evaluated
  obtain ⟨isSmall, left⟩ := Prod.mk.inj view
  obtain ⟨after, refused, marks⟩ := Option.map_eq_some_iff.mp left
  obtain ⟨failure, failed⟩ := refusal?_eq_some refused
  obtain ⟨kind, suits, across, _⟩ := reached_repeated Options.tight_wordsBelow made done failed
  rw [ChunkSizes.kindOfSize_eq_ok_iff.mpr suits] at isSmall
  obtain rfl := Option.some.inj isSmall
  obtain ⟨chunk, inPool, serves⟩ := List.any_eq_true.mp (Prod.mk.inj marks).1
  obtain ⟨_, isSize, front, node, _, nodes, _, container, lower, upper⟩ :=
    across chunk inPool (of_decide_eq_true serves)
  exact ⟨opened, reached, failure, after, front, node, chunk, made, done, failed, nodes, inPool,
    isSize, container, lower, upper⟩

/-- After the cornered run a request for a small chunk fails, and the same request after it is
answered. -/
theorem cornered_answered : ∃ (opened reached : Session) (failure : AllocationFailure)
    (after again : Allocator) (chunk : Chunk), ofOptions Options.tight = .ok opened ∧
    opened.run cornered = .ok reached ∧
    (reached.allocator.allocate .nonClass 6).outcome = .ok (.error failure, after) ∧
    (∃ free ∈ after.nonClass.pool.chunks, free.block.Serves .small 6) ∧
    (after.allocate .nonClass 6).outcome = .ok (.ok chunk, again) := by
  obtain ⟨opened, reached, made, done, view⟩ := exists_reached cornered_evaluated
  obtain ⟨after, refused, marks⟩ := Option.map_eq_some_iff.mp (Prod.mk.inj view).2
  obtain ⟨failure, failed⟩ := refusal?_eq_some refused
  obtain ⟨served, answered⟩ := Prod.mk.inj marks
  obtain ⟨free, inPool, serves⟩ := List.any_eq_true.mp served
  obtain ⟨⟨result, again⟩, isOutcome, isSize⟩ := Option.bind_eq_some_iff.mp answered
  obtain ⟨chunk, isResult, _⟩ := Option.map_eq_some_iff.mp isSize
  refine ⟨opened, reached, failure, after, again, chunk, made, done, failed,
    ⟨free, inPool, of_decide_eq_true serves⟩, ?_⟩
  rw [eq_ok_of_toOption isOutcome, eq_ok_of_toOption isResult]

end Session

end CollectorMemory
