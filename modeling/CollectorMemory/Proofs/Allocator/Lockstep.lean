import CollectorMemory.Proofs.Allocator.Access
import CollectorMemory.Proofs.Allocator.Operations
import CollectorMemory.Proofs.Arena.Lockstep

/-!
# Twin allocators in lockstep

Allocators that are made from the same options, one of them audited and the other not, are twins. Twin
allocators that are sound with the same chunks give the same answers and stay twins, or stop with the
same fault.
-/

namespace CollectorMemory

variable {excuse : Prop} {uses : Nat} {allocator twin : Allocator} {space : Space}
  {held : List Chunk} {chunk : Chunk}

/-- Two allocators whose arenas are twins, under options that are the same but for the audits. -/
structure Allocator.Twin (allocator twin : Allocator) : Prop where
  /-- The options are the same but for the audits. -/
  options : ∃ audited, twin.options = allocator.options.withAudited audited
  /-- The arenas are twins. -/
  arenas : ∀ space, (allocator.arena space).Twin (twin.arena space)

/-- The dimensions of a list do not depend on the audits. -/
theorem NodeList.dimensions_withAudited (options : Options) (audited : Bool) (space : Space) :
    NodeList.dimensions (options.withAudited audited) space = NodeList.dimensions options space := by
  cases space <;> rfl

/-- The chunk sizes do not depend on the audits. -/
theorem ChunkSizes.ofOptions_withAudited (options : Options) (audited : Bool) (space : Space) :
    ChunkSizes.ofOptions (options.withAudited audited) space =
      ChunkSizes.ofOptions options space := by
  cases space <;> rfl

/-- Twin lists are made from options in lockstep. -/
theorem NodeList.ofOptions_lockstep (space : Space) (options : Options) (audited : Bool) :
    Lockstep excuse NodeList.Twin (NodeList.ofOptions space options).outcome
      (NodeList.ofOptions space (options.withAudited audited)).outcome := by
  unfold NodeList.ofOptions
  rw [ChunkSizes.ofOptions_withAudited, NodeList.dimensions_withAudited]
  apply lockstep_sameRun
  intro sizes _
  apply lockstep_sameRun
  intro _ _
  apply lockstep_sameRun
  intro (nodeWords, limit) _
  have lists : NodeList.Twin
      ⟨space, sizes, options.audited, #[], 0, nodeWords, limit, options.commitGranuleWords⟩
      ⟨space, sizes, audited, #[], 0, nodeWords, limit, options.commitGranuleWords⟩ :=
    ⟨rfl, rfl, List.Forall₂.nil, rfl, rfl, rfl, rfl⟩
  apply Lockstep.bindRun (lists.reserve nodeWords)
  intro opened opened' both
  cases both with
  | none =>
    apply lockstep_note
    exact lists
  | some lists => exact lists

/-- Twin arenas are made from options in lockstep. -/
theorem Arena.ofOptions_lockstep (space : Space) (options : Options) (audited : Bool) :
    Lockstep excuse Arena.Twin (Arena.ofOptions space options).outcome
      (Arena.ofOptions space (options.withAudited audited)).outcome := by
  unfold Arena.ofOptions
  apply Lockstep.bindRun (NodeList.ofOptions_lockstep space options audited)
  intro list list' lists
  refine ⟨lists, audited, ?_⟩
  rw [lists.sizes]
  rfl

namespace Allocator

/-- Twin allocators are made from options in lockstep. -/
theorem ofOptions_lockstep (options : Options) (audited : Bool) :
    Lockstep excuse Allocator.Twin (Allocator.ofOptions options).outcome
      (Allocator.ofOptions (options.withAudited audited)).outcome := by
  unfold Allocator.ofOptions
  apply Lockstep.bindRun (Arena.ofOptions_lockstep .nonClass options audited)
  intro nonClass nonClass' nonClassTwins
  apply Lockstep.bindRun (Arena.ofOptions_lockstep .classOnly options audited)
  intro classOnly classOnly' classOnlyTwins
  apply lockstep_note
  refine ⟨⟨audited, rfl⟩, ?_⟩
  intro space
  cases space with
  | nonClass => exact nonClassTwins
  | classOnly => exact classOnlyTwins

/-- The node of a chunk is looked up in lockstep if its handle finds related nodes. -/
theorem nodeOf_lockstep {related : Node → Node → Prop}
    (both : Option.Rel related (allocator.node? chunk.container) (twin.node? chunk.container)) :
    Lockstep excuse related (allocator.nodeOf chunk) (twin.nodeOf chunk) := by
  unfold Allocator.nodeOf
  obtain ⟨found, found'⟩ | ⟨node, node', found, found', nodes⟩ := cases_of_rel both
  · rw [found, found']
    exact Or.inr rfl
  · rw [found, found']
    exact nodes

namespace Twin

/-- Twin allocators stay twins with other arenas that are twins. -/
theorem withArena (allocators : allocator.Twin twin) {arena arena' : Arena}
    (arenas : arena.Twin arena') (space : Space) :
    (allocator.withArena space arena).Twin (twin.withArena space arena') := by
  refine ⟨?_, ?_⟩
  · rw [options_withArena, options_withArena]
    exact allocators.options
  · exact related_withArena allocators.arenas arenas space

/-- A handle finds twins in twin allocators. -/
theorem node? (allocators : allocator.Twin twin) (id : NodeId) :
    Option.Rel Node.Twin (allocator.node? id) (twin.node? id) :=
  (allocators.arenas id.space).list.node? id

/-- The node of a chunk is looked up in lockstep. -/
theorem nodeOf (allocators : allocator.Twin twin) (chunk : Chunk) :
    Lockstep excuse Node.Twin (allocator.nodeOf chunk) (twin.nodeOf chunk) :=
  nodeOf_lockstep (allocators.node? chunk.container)

/-- Twin allocators stay twins where twins are put into them. -/
theorem withNode (allocators : allocator.Twin twin) {node node' : Node} (nodes : node.Twin node') :
    (allocator.withNode node).Twin (twin.withNode node') := by
  unfold Allocator.withNode
  rw [nodes.id]
  have arenas := allocators.arenas node.id.space
  apply allocators.withArena
  exact ⟨arenas.list.withNode nodes, arenas.pool⟩

/-- Words are read in lockstep. -/
theorem readWords (allocators : allocator.Twin twin) (chunk : Chunk) (place : Location)
    (length : Nat) :
    Lockstep excuse (fun _ _ => True) (allocator.readWords chunk place length)
      (twin.readWords chunk place length) := by
  unfold Allocator.readWords
  apply lockstep_same
  intro _ _
  apply Lockstep.bind (allocators.nodeOf chunk)
  intro node node' nodes
  exact nodes.readWords place length

/-- Words are written in lockstep. -/
theorem writeWords (allocators : allocator.Twin twin) (chunk : Chunk) (place : Location)
    (data : List UInt64) :
    Lockstep excuse Allocator.Twin (allocator.writeWords chunk place data)
      (twin.writeWords chunk place data) := by
  unfold Allocator.writeWords
  apply lockstep_same
  intro _ _
  apply Lockstep.bind (allocators.nodeOf chunk)
  intro node node' nodes
  apply Lockstep.bind (nodes.writeWords place data)
  intro written written' nodes
  exact allocators.withNode nodes

/-- A space is purged in lockstep. -/
theorem purge (allocators : allocator.Twin twin) (space : Space) :
    Lockstep excuse
      (fun (purged, after) (purged', after') => purged' = purged ∧ after.Twin after')
      (allocator.purge space).outcome (twin.purge space).outcome := by
  have arenas := allocators.arenas space
  unfold Allocator.purge
  apply Lockstep.bindRun (arenas.list.purge arenas.pool)
  intro (list, pool, purged) (list', pool', purged') ⟨lists, pools, same⟩
  apply lockstep_noteIf
  exact ⟨same, allocators.withArena ⟨lists, pools⟩ space⟩

/-- The granule of twins is the same. -/
theorem commitGranuleWords (allocators : allocator.Twin twin) :
    twin.options.commitGranuleWords = allocator.options.commitGranuleWords := by
  obtain ⟨audited, same⟩ := allocators.options
  rw [same]
  rfl

/-- Twin allocators are bounded together. -/
theorem bounded (allocators : allocator.Twin twin) (bounded : allocator.Bounded) :
    twin.Bounded where
  lists space := (allocators.arenas space).list.bounded (bounded.lists space)
  granule := by rw [allocators.commitGranuleWords]; exact bounded.granule

/-- A chunk is allocated in lockstep. -/
theorem allocate (allocators : allocator.Twin twin) (sound : allocator.Sound uses held)
    (sound' : twin.Sound uses held) (bounded : allocator.Bounded) {size : Nat}
    (short : size ≤ (allocator.arena space).list.limit → size < Header.sizeLimit) :
    Lockstep False
      (fun (result, after) (result', after') => result' = result ∧ after.Twin after')
      (allocator.allocate space size).outcome (twin.allocate space size).outcome := by
  have arenas := allocators.arenas space
  unfold Allocator.allocate
  dsimp only
  rw [arenas.list.sizes, allocators.commitGranuleWords]
  apply lockstep_sameRun
  intro _ checked
  have fits := (ensures_require (absurd trivial)).of_ok checked
  obtain ⟨kind, suits⟩ := ChunkSizes.exists_suits_of_isChunkSize fits
  apply Lockstep.bindRun ((sound.arena space).provide_lockstep (sound'.arena space) arenas
    (bounded.lists space) suits short)
  intro (found, arena) (found', arena') ⟨same, arenas⟩
  cases same
  have after := allocators.withArena arenas space
  cases found with
  | some chunk =>
    apply lockstep_sameRun
    intro counted _
    apply lockstep_note
    exact ⟨rfl, after⟩
  | none =>
    apply lockstep_note
    exact ⟨rfl, after⟩

/-- A chunk is put back in lockstep. -/
theorem putBack (allocators : allocator.Twin twin) (sound : allocator.Sound uses (chunk :: held))
    (sound' : twin.Sound uses (chunk :: held)) (bounded : allocator.Bounded) :
    Lockstep False Allocator.Twin (allocator.putBack chunk).outcome
      (twin.putBack chunk).outcome := by
  have arenas := allocators.arenas chunk.container.space
  obtain ⟨node, row, found, member, owned, _, _, settled, _⟩ := sound.exists_node List.mem_cons_self
  obtain ⟨node', row', found', member', owned', _, _, settled', _⟩ :=
    sound'.exists_node List.mem_cons_self
  rw [inSpace_cons_self] at settled settled'
  have room : Room False (allocator.arena chunk.container.space).pool node :=
    (sound.arena chunk.container.space).room (fun _ => bounded.lists _) member
  have room' : Room False (twin.arena chunk.container.space).pool node' :=
    (sound'.arena chunk.container.space).room (fun _ => (allocators.bounded bounded).lists _) member'
  have nodes : node.Twin node' := by
    have both := allocators.node? chunk.container
    rw [found, found'] at both
    cases both
    assumption
  unfold Allocator.node? at found found'
  unfold Allocator.putBack
  dsimp only
  rw [found, found']
  apply Lockstep.bindRun ((settled.putBack_lockstep settled' arenas.pool nodes
    owned.container).ensured (settled.putBack_ensures room owned.container)
    (settled'.putBack_ensures room' owned'.container))
  intro (pool, last) (pool', last') ⟨⟨pools, nodes⟩, _⟩
  apply allocators.withArena
  exact ⟨arenas.list.withNode nodes, pools⟩

/-- The checks of twins pass together. -/
theorem audit (allocators : allocator.Twin twin) (sound : allocator.Sound uses held)
    (sound' : twin.Sound uses held) (bounded : allocator.Bounded) :
    Lockstep False (fun _ _ => True) allocator.audit twin.audit :=
  ((lockstep_checks _ _).ensured (sound.audit_ensures fun _ => bounded)
    (sound'.audit_ensures fun _ => allocators.bounded bounded)).mono fun _ _ _ => trivial

end Twin

end Allocator

end CollectorMemory
