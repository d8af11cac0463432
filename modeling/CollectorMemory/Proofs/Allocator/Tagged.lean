import CollectorMemory.Proofs.Allocator.Lockstep
import CollectorMemory.Proofs.Arena.Simulation
import CollectorMemory.Proofs.Node.Retagged

/-!
# Allocators with tagged chunks

Some of the chunks that users hold are tagged free. Beside such an allocator stands one that is the same
but for the tags and is sound. What the allocator with the tags does, the sound one does as well, with the
same answers, and the two differ in the tags alone again.
-/

namespace CollectorMemory

variable {excuse : Prop} {uses size : Nat} {tags : Location → Bool} {row : List Block} {block : Block}
  {allocator allocator' : Allocator} {space : Space} {held : List Chunk} {chunk : Chunk}
  {node node' : Node} {place : Location} {data : List UInt64} {pool : Pool}

/-- Words are written in the payload of a chunk in lockstep, whether it is tagged or not. -/
theorem Node.TaggedAs.writeWords (nodes : node.TaggedAs tags row node') (member : block ∈ row)
    (container : place.node = node.id) (lower : block.bottom + Header.words ≤ place.offset)
    (upper : place.offset + data.length ≤ block.stop) :
    Lockstep True (Tagged tags) (node.writeWords place data) (node'.writeWords place data) := by
  have bounds := nodes.carved.tiles.bounds member
  have inside : place.offset + data.length ≤ node.top := by omega
  apply (lockstep_of_ensures (nodes.carved.writeWords_ensures container inside)
    (nodes.tagged.writeWords_ensures (container.trans nodes.alike.id.symm)
      (by rw [nodes.top]; exact inside))).mono
  intro after after' ⟨⟨words, isAfter, size, word⟩, ⟨words', isAfter', size', word'⟩⟩
  subst isAfter isAfter'
  have kept := fun offset outside => (word offset).trans (if_neg outside)
  have kept' := fun offset outside => (word' offset).trans (if_neg outside)
  obtain ⟨carved, alike⟩ := nodes.carved.written member lower upper size kept
  obtain ⟨carved', alike'⟩ := nodes.tagged.written (tag_mem_tagRow _ _ member) lower upper size' kept'
  exact ⟨row, nodes.step alike alike' nodes.top nodes.chunksInUse carved carved' nodes.anchored⟩

/-- Only a chunk that is not tagged free can be put back. -/
theorem Pool.putBack_used : Ensures True (pool.putBack node chunk).outcome fun _ =>
    chunk.isFree = false := by
  unfold Pool.putBack
  apply Ensures.bindRun (ensures_excused _)
  intro _ _
  apply Ensures.bindRun (ensures_excused _)
  intro _ _
  apply Ensures.bindRun (ensures_excused _)
  intro _ _
  apply Ensures.bindRun (ensures_require (absurd trivial))
  intro _ used
  apply (ensures_excused _).mono
  intro _ _
  rw [Bool.not_eq_true'] at used
  exact used

namespace Allocator

/-- Two allocators that differ in the tags alone. -/
structure Tagged (tags : Location → Bool) (allocator allocator' : Allocator) : Prop where
  /-- The options are the same. -/
  options : allocator'.options = allocator.options
  /-- The arenas differ in the tags alone. -/
  arenas : ∀ space, (allocator.arena space).Tagged tags (allocator'.arena space)

/-- Only a chunk that is not tagged free can be put back. -/
theorem putBack_used : Ensures True (allocator.putBack chunk).outcome fun _ =>
    chunk.isFree = false := by
  unfold putBack
  dsimp only
  cases (allocator.arena chunk.container.space).list.node? chunk.container with
  | none => trivial
  | some node =>
    apply Ensures.bindRun Pool.putBack_used
    intro _ used
    exact used

/-- A sound allocator differs from itself in no tags. -/
theorem Sound.tagged_self (sound : allocator.Sound uses held)
    (untagged : ∀ place, tags place = false) : allocator.Tagged tags allocator := by
  refine ⟨rfl, fun space => ⟨⟨⟨rfl, rfl, ?_, rfl, rfl, rfl, rfl⟩, rfl⟩, rfl⟩⟩
  rw [List.forall₂_same]
  intro node member
  obtain ⟨row, settled⟩ := (sound.arena space).settled node member
  exact settled.carved.tagged_self fun _ => untagged _

namespace Tagged

/-- Allocators differ in the tags alone with other arenas that do. -/
theorem withArena (allocators : allocator.Tagged tags allocator') {arena arena' : Arena}
    (arenas : arena.Tagged tags arena') (space : Space) :
    (allocator.withArena space arena).Tagged tags (allocator'.withArena space arena') := by
  refine ⟨?_, related_withArena allocators.arenas arenas space⟩
  rw [options_withArena, options_withArena]
  exact allocators.options

/-- A handle finds nodes that differ in the tags alone. -/
theorem node? (allocators : allocator.Tagged tags allocator') (id : NodeId) :
    Option.Rel (Node.Tagged tags) (allocator.node? id) (allocator'.node? id) :=
  (allocators.arenas id.space).list.toPaired.node? Node.Tagged.corresponds id

/-- Allocators differ in the tags alone where such nodes are put into them. -/
theorem withNode (allocators : allocator.Tagged tags allocator') (nodes : node.Tagged tags node') :
    (allocator.withNode node).Tagged tags (allocator'.withNode node') := by
  have arenas := allocators.arenas node.id.space
  unfold Allocator.withNode
  rw [nodes.id]
  apply allocators.withArena
  exact ⟨arenas.list.withNode nodes, arenas.pool⟩

/-- A node that is found with the tags is the one that is found without them, but for the tags. -/
theorem exists_node? (allocators : allocator.Tagged tags allocator') {id : NodeId}
    (found : allocator.node? id = some node) :
    ∃ node', allocator'.node? id = some node' ∧ node.Tagged tags node' := by
  have both := allocators.node? id
  rw [found] at both
  obtain ⟨_, found'⟩ | ⟨_, node', same, found', nodes⟩ := cases_of_rel both
  · contradiction
  · rw [Option.some.inj same]
    exact ⟨node', found', nodes⟩

/-- The lists with tags are ordered if those without are. -/
theorem ordered (allocators : allocator.Tagged tags allocator') (sound : allocator.Sound uses held)
    (space : Space) : (allocator'.arena space).list.Ordered :=
  (allocators.arenas space).list.toPaired.ordered Node.Tagged.corresponds (sound.arena space).ordered

/-- Allocators differ in the tags alone with another tag in one node, if that node does. -/
theorem withRetagged (allocators : allocator.Tagged tags allocator') (sound : allocator.Sound uses held)
    (found : allocator.node? node.id = some node) {isFree : Bool} (here : place.node = node.id)
    (nodes : node.Tagged (retag tags place isFree) node') :
    allocator.Tagged (retag tags place isFree) (allocator'.withNode node') := by
  unfold Allocator.withNode
  refine ⟨?_, ?_⟩
  · rw [options_withArena]
    exact allocators.options
  · intro space
    have arenas := allocators.arenas space
    have ordered := (sound.arena space).ordered
    by_cases same : space = node'.id.space
    · subst same
      rw [arena_withArena_self]
      have isSpace : node'.id = node.id := nodes.id
      unfold Allocator.node? at found
      rw [← isSpace] at found
      obtain ⟨_, front, back, split⟩ := ordered.exists_split found
      refine ⟨⟨arenas.list.toPaired.replace Node.Tagged.corresponds ordered split nodes isSpace ?_,
        ?_⟩, arenas.pool⟩
      · intro other other' differs others
        exact others.retag_of_ne (by rw [here]; exact differs) isFree
      · rw [NodeList.audited_withNode]
        exact arenas.list.audited
    · rw [arena_withArena_of_ne same]
      refine ⟨⟨arenas.list.toPaired.mono ?_, arenas.list.audited⟩, arenas.pool⟩
      intro other member other' others
      apply others.retag_of_ne
      intro isHere
      have isSpace := ordered.space other member
      rw [isHere, here, sound.space, ← nodes.id] at isSpace
      exact same isSpace.symm

/-- A space that is purged with tags is purged without them. -/
theorem purge (allocators : allocator.Tagged tags allocator') (space : Space) :
    Simulates (fun (purged, after) (purged', after') => purged' = purged ∧ after.Tagged tags after')
      (allocator.purge space).outcome (allocator'.purge space).outcome := by
  unfold Allocator.purge
  apply Simulates.bindRun (allocators.arenas space).purge
  intro (list, pool, purged) (list', pool', purged') ⟨lists, samePool, same⟩
  apply simulates_noteIf
  exact simulates_ok ⟨same, allocators.withArena ⟨lists, samePool⟩ space⟩

/-- A chunk that is allocated with tags is allocated without them. -/
theorem allocate (allocators : allocator.Tagged tags allocator') (sound : allocator.Sound uses held)
    (bounded : allocator.Bounded) (tagged : ∀ space, TagsHeld tags space held)
    (short : size ≤ (allocator.arena space).list.limit → size < Header.sizeLimit) :
    Simulates (fun (result, after) (result', after') => result' = result ∧ after.Tagged tags after')
      (allocator.allocate space size).outcome (allocator'.allocate space size).outcome := by
  have arenas := allocators.arenas space
  have heldHere : TagsHeld tags (allocator.arena space).list.space (inSpace space held) := by
    intro place isTagged isSpace
    obtain ⟨chunk, isHeld, isPlace⟩ := tagged _ place isTagged isSpace
    refine ⟨chunk, mem_inSpace.mpr ⟨isHeld, ?_⟩, isPlace⟩
    rw [sound.space] at isSpace
    rw [← isSpace, ← isPlace]
    rfl
  unfold Allocator.allocate
  dsimp only
  rw [arenas.list.sizes, allocators.options]
  apply simulates_sameRun
  intro _ checked
  have fits := (ensures_require (absurd trivial)).of_ok checked
  obtain ⟨kind, suits⟩ := ChunkSizes.exists_suits_of_isChunkSize fits
  apply Simulates.bindRun ((sound.arena space).provide_simulates arenas (bounded.lists space)
    heldHere suits short)
  intro (found, arena) (found', arena') ⟨same, arenas⟩
  cases same
  have after := allocators.withArena arenas space
  cases found with
  | some chunk =>
    apply simulates_sameRun
    intro counted _
    apply simulates_note
    exact simulates_ok ⟨rfl, after⟩
  | none =>
    apply simulates_note
    exact simulates_ok ⟨rfl, after⟩

/-- A chunk that is put back with tags, where it is not tagged itself, is put back without them. -/
theorem putBack (allocators : allocator.Tagged tags allocator')
    (sound : allocator.Sound uses (chunk :: held)) (bounded : allocator.Bounded)
    (untagged : tags chunk.place = false) :
    Simulates (Allocator.Tagged tags) (allocator.putBack chunk).outcome
      (allocator'.putBack chunk).outcome := by
  have arenas := allocators.arenas chunk.container.space
  obtain ⟨node, row, found, _, owned, _, _, settled, _⟩ := sound.exists_node List.mem_cons_self
  rw [inSpace_cons_self] at settled
  obtain ⟨node', found', nodes⟩ := allocators.exists_node? found
  have lockstep : Lockstep True (Allocator.Tagged tags) (allocator.putBack chunk).outcome
      (allocator'.putBack chunk).outcome := by
    unfold Allocator.node? at found found'
    unfold Allocator.putBack
    dsimp only
    rw [found, found', arenas.pool]
    apply Lockstep.bindRun (settled.putBack_tagged nodes owned.container untagged)
    intro (pool, last) (pool', last') ⟨samePool, nodes⟩
    exact allocators.withArena ⟨arenas.list.withNode nodes, samePool⟩ _
  have puts : Ensures False (allocator.putBack chunk).outcome _ :=
    sound.putBack_ensures fun _ => bounded
  exact (lockstep.simulates puts).mono fun _ _ together => together.1

/-- Words that are written with tags are written without them. -/
theorem writeWords (allocators : allocator.Tagged tags allocator')
    (sound : allocator.Sound uses (chunk.withFree false :: held)) :
    Simulates (Allocator.Tagged tags) (allocator.writeWords (chunk.withFree false) place data)
      (allocator'.writeWords chunk place data) := by
  have isHeld : chunk.withFree false ∈ chunk.withFree false :: held := List.mem_cons_self
  obtain ⟨node, row, found, _, owned, _, _, settled, inRow⟩ := sound.exists_node isHeld
  obtain ⟨node', found', nodes⟩ := allocators.exists_node? found
  have topLe := owned.sound.top_le
  have stopLt := sound.stop_lt isHeld
  have access := @checkAccess_ensures True data.length chunk place (Nat.lt_of_le_of_lt topLe stopLt)
    (absurd trivial)
  have lockstep : Lockstep True (Allocator.Tagged tags)
      (allocator.writeWords (chunk.withFree false) place data)
      (allocator'.writeWords chunk place data) := by
    unfold Allocator.writeWords
    apply Lockstep.bind ((lockstep_checks _ _).known (ensures_excused _) access)
    rintro _ _ ⟨_, _, allots⟩
    have isNode' : allocator'.nodeOf chunk = .ok node' := nodeOf_eq_ok_iff.mpr found'
    rw [nodeOf_eq_ok_iff.mpr found, isNode']
    change Lockstep True _ (node.writeWords place data >>= _) (node'.writeWords place data >>= _)
    apply Lockstep.bind ((nodes.as settled.carved).writeWords inRow
      (allots.node.trans owned.container) allots.payload_le (Nat.le_trans allots.le_top topLe))
    intro written written' nodes
    exact allocators.withNode nodes
  intro other done
  have allots : chunk.Allots place data.length := by
    obtain ⟨_, passed, _⟩ := bind_eq_ok_iff.mp done
    exact access.of_ok passed
  have writes : Ensures False (allocator.writeWords (chunk.withFree false) place data) _ :=
    sound.writeWords_ensures fun _ => ⟨allots.node, allots.payload_le, allots.le_top⟩
  obtain ⟨value, isValue, both, _⟩ := lockstep.simulates writes other done
  exact ⟨value, isValue, both⟩

end Tagged

/-- Two states of an allocator between which a chunk was tagged: the free chunks and all other nodes are
the same, and so is the node of the chunk but for the tag. -/
structure Retagged (chunk : Chunk) (allocator after : Allocator) : Prop where
  /-- The free chunks stay. -/
  pools : ∀ space, (after.arena space).pool = (allocator.arena space).pool
  /-- The node of the chunk stays but for the tag. -/
  node : ∀ node, allocator.node? chunk.container = some node →
    ∃ node', after.node? chunk.container = some node' ∧ node.Retagged chunk node'
  /-- All other nodes stay. -/
  elsewhere : ∀ id node, id ≠ chunk.container → allocator.node? id = some node →
    after.node? id = some node

/-- Memory and the map reflect a chunk with its flag. -/
structure Reflects (allocator : Allocator) (chunk : Chunk) : Prop where
  /-- Memory has the header of the chunk, with its free flag, and all granules of the chunk are marked in
  use if it is not tagged free, and free if it is. -/
  shown : ∃ node, allocator.node? chunk.container = some node ∧
    node.words.headerAt chunk.bottom = .ok chunk.header ∧
    ∀ offset, offset % node.map.granule = 0 → chunk.bottom ≤ offset → offset < chunk.stop →
      node.map.marksInUse offset = !chunk.isFree
  /-- The check of the chunk passes. -/
  audited : allocator.auditChunk chunk = .ok ()

/-- A chunk that is held belongs to a node, which holds it with the tag that it has. -/
theorem Sound.exists_holds (sound : allocator.Sound uses held)
    (isHeld : chunk.withFree false ∈ held) (flag : tags chunk.place = chunk.isFree) :
    ∃ node row, allocator.node? chunk.container = some node ∧ node.Carved row ∧
      node.Holds tags row chunk := by
  obtain ⟨node, row, found, _, owned, _, _, settled, inRow⟩ := sound.exists_node isHeld
  have same : (chunk.withFree false).withFree chunk.isFree = chunk := rfl
  have owns := owned.withFree chunk.isFree
  rw [same] at owns
  exact ⟨node, row, found, settled.carved, owns, inRow, flag⟩

/-- The flag of a chunk that is held, its header and its granules agree, whatever it is tagged. -/
theorem Tagged.reflects (allocators : allocator.Tagged tags allocator')
    (sound : allocator.Sound uses held) (isHeld : chunk.withFree false ∈ held)
    (flag : tags chunk.place = chunk.isFree) : allocator'.Reflects chunk := by
  obtain ⟨node, row, found, carved, holds⟩ := sound.exists_holds isHeld flag
  obtain ⟨node', found', nodes⟩ := allocators.exists_node? found
  have nodes := nodes.as carved
  obtain ⟨header, shows, audited⟩ := nodes.shows holds
  refine ⟨⟨node', found', header, ?_⟩, ?_⟩
  · intro offset whole lower upper
    rw [nodes.tagged.map_granule] at whole
    exact shows.inUse offset whole lower upper
  · unfold Allocator.auditChunk
    rw [nodeOf_eq_ok_iff.mpr found']
    exact audited

/-- A chunk that is held is tagged free or in use, whatever it was tagged before, and nothing else
changes. -/
theorem Tagged.setInUse_ensures (allocators : allocator.Tagged tags allocator')
    (sound : allocator.Sound uses held) (isHeld : chunk.withFree false ∈ held)
    (flag : tags chunk.place = chunk.isFree) (inUse : Bool) :
    Ensures excuse (allocator'.setInUse chunk inUse) fun (after, tagged) =>
      tagged = chunk.withFree (!inUse) ∧
        allocator.Tagged (retag tags chunk.place (!inUse)) after ∧
        Retagged chunk allocator' after := by
  obtain ⟨node, row, found, carved, holds⟩ := sound.exists_holds isHeld flag
  obtain ⟨node', found', nodes⟩ := allocators.exists_node? found
  have container := holds.owned.container
  unfold Allocator.setInUse
  rw [nodeOf_eq_ok_iff.mpr found']
  change Ensures excuse (node'.setInUse chunk inUse >>= _) _
  apply Ensures.bind ((nodes.as carved).retag_ensures holds inUse)
  intro (after, tagged) ⟨isTagged, nodesAfter, retagged⟩
  have sameId : after.id = chunk.container := nodesAfter.alike.id.trans container.symm
  have sameBefore : node'.id = chunk.container := nodes.id.trans container.symm
  rw [container] at found
  rw [← sameBefore] at found'
  have finds := fun {id other} foundOther => @node?_withNode allocator' node' after other id
    (allocators.ordered sound _) found' (sameId.trans sameBefore.symm) foundOther
  refine ⟨isTagged, allocators.withRetagged sound found container ⟨row, nodesAfter⟩, ?_, ?_, ?_⟩
  · intro space
    unfold Allocator.withNode
    by_cases same : space = after.id.space
    · rw [same, arena_withArena_self]
    · rw [arena_withArena_of_ne same]
  · intro other foundOther
    obtain ⟨other', foundAfter, same | ⟨same, isAfter⟩⟩ := finds foundOther
    · refine ⟨other', foundAfter, ?_⟩
      rw [same]
      exact ⟨rfl, rfl, fun offset _ => Node.SameAt.refl other offset, fun _ _ => rfl⟩
    · refine ⟨other', foundAfter, ?_⟩
      rw [same, isAfter]
      exact retagged
  · intro id other differs foundOther
    obtain ⟨other', foundAfter, same | ⟨same, _⟩⟩ := finds foundOther
    · rw [← same]
      exact foundAfter
    · obtain ⟨isId, _⟩ := (allocators.ordered sound id.space).exists_split foundOther
      rw [same, sameBefore] at isId
      exact absurd isId.symm differs

end Allocator

end CollectorMemory
