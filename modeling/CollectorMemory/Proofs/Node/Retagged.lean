import CollectorMemory.Proofs.Node.Audit
import CollectorMemory.Proofs.Node.Tagged

/-!
# Tagging a chunk of a node

A chunk that is held is tagged free or in use again, whatever it was tagged before. That changes the tag
of its place and nothing else: the header and the granules of the chunk show the new tag, and everything
outside of its range stays.
-/

namespace CollectorMemory

variable {excuse : Prop} {tags : Location → Bool} {row : List Block} {node node' : Node}
  {chunk : Chunk}

/-- The tags after the tag of one place was set. -/
def retag (tags : Location → Bool) (place : Location) (isFree : Bool) : Location → Bool :=
  fun other => if other = place then isFree else tags other

/-- The place has the tag that was set. -/
theorem retag_self (tags : Location → Bool) (place : Location) (isFree : Bool) :
    retag tags place isFree place = isFree := if_pos rfl

/-- Other places keep their tags. -/
theorem retag_of_ne {place other : Location} {isFree : Bool} (differs : other ≠ place) :
    retag tags place isFree other = tags other := if_neg differs

/-- Setting the tag of a place keeps the tags of blocks that do not start there. -/
theorem tagRow_retag {place : Location} {isFree : Bool}
    (differs : ∀ block ∈ row, block.bottom ≠ place.offset) :
    tagRow (retag tags place isFree) node.id row = tagRow tags node.id row := by
  apply List.map_congr_left
  intro block member
  unfold Block.tag
  rw [retag_of_ne]
  intro same
  exact differs block member (congrArg Location.offset same)

/-- A node owns a chunk with any free flag. -/
theorem Node.Owns.withFree (owned : node.Owns chunk) (isFree : Bool) :
    node.Owns (chunk.withFree isFree) :=
  ⟨owned.container, owned.isClass, owned.sound.withFree isFree⟩

/-- Two states of a node between which a chunk was tagged: only the words of its header and the marks in
its range may differ. -/
structure Node.Retagged (chunk : Chunk) (node after : Node) : Prop where
  /-- The top stays. -/
  top : after.top = node.top
  /-- The number of chunks in use stays. -/
  chunksInUse : after.chunksInUse = node.chunksInUse
  /-- Words and marks stay outside of the chunk. -/
  outside : ∀ offset, offset < chunk.bottom ∨ chunk.stop ≤ offset → node.SameAt after offset
  /-- The words after the header stay. -/
  payload : ∀ offset, chunk.payload ≤ offset → after.words.word offset = node.words.word offset

/-- Setting the tag of a place in one node leaves the others as they are. -/
theorem Node.Tagged.retag_of_ne {place : Location} (nodes : node.Tagged tags node')
    (differs : node.id ≠ place.node) (isFree : Bool) :
    node.Tagged (retag tags place isFree) node' := by
  obtain ⟨row, nodes⟩ := nodes
  have same : ∀ offset, retag tags place isFree ⟨node.id, offset⟩ = tags ⟨node.id, offset⟩ :=
    fun offset => CollectorMemory.retag_of_ne fun same => differs (congrArg Location.node same)
  have sameRow : tagRow (retag tags place isFree) node.id row = tagRow tags node.id row := by
    apply List.map_congr_left
    intro block _
    unfold Block.tag
    rw [same]
  refine ⟨row, nodes.alike, nodes.top, nodes.chunksInUse, nodes.carved, ?_, ?_⟩
  · rw [sameRow]
    exact nodes.tagged
  · intro offset isTagged
    rw [same] at isTagged
    exact nodes.anchored offset isTagged

/-- A chunk beside which a node has a block in use, and whose flag is the tag of its place. -/
structure Node.Holds (tags : Location → Bool) (node : Node) (row : List Block) (chunk : Chunk) :
    Prop where
  /-- The node owns the chunk. -/
  owned : node.Owns chunk
  /-- The chunk is a block in use, but for its tag. -/
  member : (chunk.withFree false).block ∈ row
  /-- The flag of the chunk is the tag of its place. -/
  flag : tags chunk.place = chunk.isFree

namespace Node

/-- The block of a chunk is the block in use with the tag. -/
theorem Holds.block_eq (holds : node.Holds tags row chunk) :
    (chunk.withFree false).block.tag tags node.id = chunk.block := by
  have flag := holds.flag
  unfold Chunk.place at flag
  rw [holds.owned.container] at flag
  change Block.mk chunk.bottom chunk.size chunk.kind chunk.origin
    (false || tags ⟨node.id, chunk.bottom⟩) = _
  rw [flag]
  rfl

/-- A node with tags shows the flag of a chunk that is held, in its header and in all of its granules,
and its handle passes the check. -/
theorem TaggedAs.shows (nodes : TaggedAs tags row node node')
    (holds : node.Holds tags row chunk) :
    node'.words.headerAt chunk.bottom = .ok chunk.header ∧ node'.Shows chunk.block ∧
      node'.auditChunk chunk = .ok () := by
  have owned := holds.owned.of_alike nodes.alike
  have member := tag_mem_tagRow tags node.id holds.member
  rw [holds.block_eq] at member
  have header : chunk.block.header node'.isClass = chunk.header := by
    rw [Chunk.header_eq owned.sound.alive, owned.isClass]
  refine ⟨(nodes.tagged.headerAt_ensures member).eq_ok fun _ same => same.trans header,
    nodes.tagged.shown _ member, ?_⟩
  exact (nodes.tagged.auditChunk_ensures owned.sound owned.container owned.isClass member).eq_ok
    fun _ _ => rfl

/-- Tagging a chunk that is held sets the tag of its place, and changes no more than the header and the
marks of the chunk. -/
theorem TaggedAs.retag_ensures (nodes : TaggedAs tags row node node')
    (holds : node.Holds tags row chunk) (inUse : Bool) :
    Ensures excuse (node'.setInUse chunk inUse) fun (after, tagged) =>
      tagged = chunk.withFree (!inUse) ∧ TaggedAs (retag tags chunk.place (!inUse)) row node after ∧
        node'.Retagged chunk after := by
  have container := holds.owned.container
  have isBlock := holds.block_eq
  obtain ⟨front, back, rfl⟩ := exists_around holds.member
  have tagged := nodes.tagged
  simp only [tagRow_append, tagRow_singleton, isBlock] at tagged
  apply (tagged.setInUse_ensures (holds.owned.of_alike nodes.alike)).mono
  intro (after, retagged) ⟨isChunk, alike, top, count, carved, outside, payload⟩
  change retagged = _ at isChunk
  subst isChunk
  obtain ⟨frontTiles, chunkTiles, backTiles⟩ := nodes.carved.tiles.around
  have bottom : (chunk.withFree false).block.bottom = chunk.bottom := rfl
  have before : ∀ block ∈ front, block.bottom ≠ chunk.bottom := by
    intro block member
    have inside := frontTiles.bounds member
    omega
  have behind : ∀ block ∈ back, block.bottom ≠ chunk.bottom := by
    intro block member
    have inside := backTiles.bounds member
    have nonempty := chunkTiles.bounds List.mem_cons_self
    omega
  have here : (chunk.withFree false).block.tag (retag tags chunk.place (!inUse)) node.id =
      (chunk.withFree (!inUse)).block := by
    change Block.mk chunk.bottom chunk.size chunk.kind chunk.origin
      (false || retag tags chunk.place (!inUse) ⟨node.id, chunk.bottom⟩) = _
    rw [← container, Bool.false_or]
    exact congrArg _ (retag_self tags chunk.place (!inUse))
  refine ⟨rfl, ?_, ⟨top, count, outside, payload⟩⟩
  refine ⟨nodes.alike.trans alike, top.trans nodes.top, count.trans nodes.chunksInUse, nodes.carved,
    ?_, ?_⟩
  · simp only [tagRow_append, tagRow_singleton]
    rw [tagRow_retag before, tagRow_retag behind, here]
    exact carved
  · intro offset isTagged
    by_cases same : (⟨node.id, offset⟩ : Location) = chunk.place
    · refine ⟨_, holds.member, rfl, ?_⟩
      exact (congrArg Location.offset same).symm
    · rw [retag_of_ne same] at isTagged
      exact nodes.anchored offset isTagged

end Node

end CollectorMemory
