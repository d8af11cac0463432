import CollectorMemory.Proofs.Session.Refusal

/-!
# When the class space is exhausted

The class space is a single node that reserves all it may have. A request there fails exactly if no
free chunk serves it, the chunk does not fit among the committed words, and fewer words are not
committed yet than the chunk takes with the most padding that it can need, rounded up to the
granule. The padding that it does need, and the committed words behind the top, are not taken into
account: the chunk may fit among the words that are reserved.
-/

namespace CollectorMemory

variable {size suggested : Nat} {arena : Arena} {node : Node} {kind : Kind}

/-- An arena with a single node, which reserves all it may have, is stuck exactly if no free chunk
serves the request, the committed words have no room for it, and too few words are left to be
committed. -/
theorem Arena.stuck_iff_of_single (isClass : arena.list.isClass = true)
    (nodes : arena.list.nodes.toList = [node]) (reserved : node.reserved = arena.list.limit) :
    arena.Stuck kind size suggested ↔
      (∀ chunk ∈ arena.pool.chunks, ¬chunk.block.Serves kind size) ∧
      ¬node.sizes.Fits kind size node.top node.committed ∧
      node.reserved - node.committed < arena.list.leastGrowth kind size := by
  have current : arena.list.current? = some node :=
    NodeList.current?_eq_some_iff.mpr ⟨[], nodes⟩
  have exhausted_iff : arena.list.Exhausted (arena.list.leastGrowth kind size)
      (arena.list.preferredGrowth kind size suggested) ↔
      node.reserved - node.committed < arena.list.leastGrowth kind size := by
    unfold NodeList.Exhausted
    rw [current, nodes]
    simp [isClass, reserved]
  constructor
  · intro stuck
    exact ⟨stuck.pool, stuck.full.room node current, exhausted_iff.mp stuck.full.exhausted⟩
  · rintro ⟨pool, room, few⟩
    refine ⟨pool, ?_, exhausted_iff.mpr few⟩
    intro other found
    rw [← Option.some.inj (current.symm.trans found)]
    exact room

namespace Session

variable {options : Options} {opened reached : Session} {operations : List Operation}
  {result : Except AllocationFailure Chunk} {after : Allocator}

/-- In every session that a run reaches the class space is a single node that reserves as many words
as it may, and a request for a class chunk fails exactly if no free chunk serves it, the committed
words of the node have no room for it, and too few words are left to be committed. -/
theorem reached_exhausted (words : options.WordsBelow (2 ^ 55)) (made : ofOptions options = .ok opened)
    (done : opened.run operations = .ok reached)
    (answered : (reached.allocator.allocate .classOnly size).outcome = .ok (result, after)) :
    ∃ kind node, (reached.allocator.sizes .classOnly).Suits kind size ∧
      reached.allocator.classOnly.list.nodes.toList = [node] ∧
      node.reserved = reached.allocator.classOnly.list.limit ∧
      ((∃ failure, result = .error failure) ↔
        (∀ chunk ∈ reached.allocator.classOnly.pool.chunks, ¬chunk.block.Serves kind size) ∧
        ¬node.sizes.Fits kind size node.top node.committed ∧
        node.reserved - node.committed <
          reached.allocator.classOnly.list.leastGrowth kind size) := by
  obtain ⟨sound, isOptions, within⟩ :=
    reached_sound made done (words.chunkWords (by decide)) (Or.inr words)
  have isClass : reached.allocator.classOnly.list.isClass = true := by
    unfold NodeList.isClass
    rw [show reached.allocator.classOnly.list.space = .classOnly from
      sound.allocator.space .classOnly]
    rfl
  obtain ⟨node, nodes, reserved⟩ := sound.allocator.whole .classOnly isClass
  obtain ⟨kind, suits, fails_iff⟩ := sound.allocator.fails_iff_stuck
    (fun sizeLe => Nat.lt_of_le_of_lt sizeLe (within _ words .classOnly).limit) answered
  have stuck_iff : reached.allocator.Stuck .classOnly kind size ↔ _ :=
    Arena.stuck_iff_of_single isClass nodes reserved
  exact ⟨kind, node, suits, nodes, reserved, fails_iff.trans stuck_iff⟩

/-- A run that takes two medium chunks from the class space. -/
def filled : List Operation := [.allocate .classOnly 12, .allocate .classOnly 12]

end Session

/-- The smallest options, with a class space of three medium chunks. -/
def Options.wider : Options := { Options.smallest with classSpaceWords := 36 }

/-- The sizes of the wider options are far below the bound. -/
theorem Options.wider_wordsBelow : Options.wider.WordsBelow (2 ^ 55) := by
  intro field _
  cases field <;> decide

namespace Session

/-- After two of three medium chunks were taken a request for the third one fails, though it fits.
-/
theorem filled_evaluated : (ofOptions Options.wider >>= fun session =>
    session.run filled).toOption.map (fun reached =>
      (((reached.allocator.sizes .classOnly).kindOfSize 12).toOption,
        reached.allocator.classOnly.list.nodes.toList.map fun node =>
          decide (node.sizes.Fits .medium 12 node.top node.reserved),
        (reached.refusal? .classOnly 12).isSome)) = some (some .medium, [true], true) := by
  decide +kernel

/-- The third medium chunk takes more words with the padding that it could need than are left to be
committed. -/
theorem filled_exhausted : ∃ (opened reached : Session) (failure : AllocationFailure)
    (after : Allocator) (node : Node), ofOptions Options.wider = .ok opened ∧
    opened.run filled = .ok reached ∧
    (reached.allocator.allocate .classOnly 12).outcome = .ok (.error failure, after) ∧
    reached.allocator.classOnly.list.nodes.toList = [node] ∧
    node.reserved - node.committed < reached.allocator.classOnly.list.leastGrowth .medium 12 := by
  obtain ⟨opened, reached, made, done, view⟩ := exists_reached filled_evaluated
  obtain ⟨isMedium, rest⟩ := Prod.mk.inj view
  obtain ⟨after, refused⟩ := Option.isSome_iff_exists.mp (Prod.mk.inj rest).2
  obtain ⟨failure, failed⟩ := refusal?_eq_some refused
  obtain ⟨kind, node, suits, nodes, _, exactly⟩ :=
    reached_exhausted Options.wider_wordsBelow made done failed
  rw [ChunkSizes.kindOfSize_eq_ok_iff.mpr suits] at isMedium
  obtain rfl := Option.some.inj isMedium
  exact ⟨opened, reached, failure, after, node, made, done, failed, nodes,
    (exactly.mp ⟨failure, rfl⟩).2.2⟩

/-- A request for the third medium chunk fails, although it fits among the words that the class
space reserves. -/
theorem filled_fits : ∃ (opened reached : Session) (failure : AllocationFailure) (after : Allocator)
    (node : Node), ofOptions Options.wider = .ok opened ∧ opened.run filled = .ok reached ∧
    (reached.allocator.allocate .classOnly 12).outcome = .ok (.error failure, after) ∧
    reached.allocator.classOnly.list.nodes.toList = [node] ∧
    node.sizes.Fits .medium 12 node.top node.reserved := by
  obtain ⟨opened, reached, made, done, view⟩ := exists_reached filled_evaluated
  obtain ⟨marks, isRefused⟩ := Prod.mk.inj (Prod.mk.inj view).2
  obtain ⟨after, refused⟩ := Option.isSome_iff_exists.mp isRefused
  obtain ⟨failure, failed⟩ := refusal?_eq_some refused
  obtain ⟨node, nodes, fits⟩ := List.map_eq_singleton_iff.mp marks
  exact ⟨opened, reached, failure, after, node, made, done, failed, nodes, of_decide_eq_true fits⟩

end Session

end CollectorMemory
