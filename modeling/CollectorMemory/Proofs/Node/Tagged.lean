import CollectorMemory.Proofs.Node.Growth
import CollectorMemory.Proofs.Node.Lockstep
import CollectorMemory.Proofs.Node.Split

/-!
# Nodes with tagged chunks

A chunk that is held can be tagged free, while nobody but its holder may use it. A node of which some
chunks are tagged is compared with a node that is the same but has all of these chunks in use. What is
done elsewhere in the nodes leaves two nodes that again differ in the tags alone, and gives the same
chunks. The second of the two nodes is the tagged one.
-/

namespace CollectorMemory

variable {tags : Location → Bool} {block : Block} {row front area fresh back : List Block}

section Rows

variable {id : NodeId}

/-- A block, which is free as well if its place is tagged. -/
def Block.tag (tags : Location → Bool) (id : NodeId) (block : Block) : Block :=
  { block with isFree := block.isFree || tags ⟨id, block.bottom⟩ }

/-- A row of a node in which the blocks at tagged places are free as well. -/
def tagRow (tags : Location → Bool) (id : NodeId) (row : List Block) : List Block :=
  row.map (Block.tag tags id)

/-- Tags do not move a block. -/
@[simp] theorem Block.bottom_tag : (block.tag tags id).bottom = block.bottom := rfl

/-- A free block is free with any tags. -/
theorem Block.tag_of_free (free : block.isFree = true) : block.tag tags id = block := by
  unfold Block.tag
  rw [free, Bool.true_or, ← free]

/-- A block at a place that is not tagged stays as it is. -/
theorem Block.tag_of_untagged (untagged : tags ⟨id, block.bottom⟩ = false) :
    block.tag tags id = block := by
  unfold Block.tag
  rw [untagged, Bool.or_false]

@[simp] theorem tagRow_append : tagRow tags id (front ++ back) =
    tagRow tags id front ++ tagRow tags id back := List.map_append

@[simp] theorem tagRow_singleton : tagRow tags id [block] = [block.tag tags id] := rfl

/-- Free blocks are free with any tags. -/
theorem tagRow_of_free (free : ∀ block ∈ area, block.isFree = true) : tagRow tags id area = area := by
  unfold tagRow
  rw [List.map_congr_left fun block member => Block.tag_of_free (free block member)]
  exact List.map_id' area

/-- A block of a row is in the tagged row, with its tag. -/
theorem tag_mem_tagRow (tags : Location → Bool) (id : NodeId) (member : block ∈ row) :
    block.tag tags id ∈ tagRow tags id row :=
  List.mem_map_of_mem member

/-- The tagged row tiles what the row does. -/
theorem Tiles.tagRow {start stop : Nat} (tiles : Tiles start row stop) :
    Tiles start (tagRow tags id row) stop := by
  induction row generalizing start with
  | nil => exact tiles
  | cons head rest ih => exact ⟨tiles.1, tiles.2.1, ih tiles.2.2⟩

/-- The tagged row has the bounds of the row. -/
theorem isBound_tagRow_iff {stop offset : Nat} :
    IsBound (tagRow tags id row) stop offset ↔ IsBound row stop offset := by
  simp [IsBound, CollectorMemory.tagRow]

/-- What can be merged can be merged with tags as well. -/
theorem Mergeable.tagRow {top start size : Nat} (mergeable : Mergeable row top start size) :
    Mergeable (tagRow tags id row) top start size where
  inside := mergeable.inside
  start_bound := isBound_tagRow_iff.mpr mergeable.start_bound
  stop_bound := isBound_tagRow_iff.mpr mergeable.stop_bound
  free tagged member blockFirst startFirst := by
    obtain ⟨block, inRow, rfl⟩ := List.mem_map.mp member
    have free := mergeable.free block inRow blockFirst startFirst
    rw [Block.tag_of_free free]
    exact free

/-- All tags of a node are at blocks of its row that are in use. -/
def Anchored (tags : Location → Bool) (id : NodeId) (row : List Block) : Prop :=
  ∀ offset, tags ⟨id, offset⟩ = true → ∃ block ∈ row, block.isFree = false ∧ block.bottom = offset

/-- Tags are not at free blocks, since no other block starts there. -/
theorem Anchored.untagged_of_free {start stop : Nat} (anchored : Anchored tags id row)
    (tiles : Tiles start row stop) (member : block ∈ row) (free : block.isFree = true) :
    tags ⟨id, block.bottom⟩ = false := by
  rw [← Bool.not_eq_true]
  intro tagged
  obtain ⟨other, inRow, used, bottom⟩ := anchored block.bottom tagged
  have inside := tiles.bounds member
  have otherInside := tiles.bounds inRow
  have same := tiles.eq_of_meet member inRow (by omega) (by omega)
  rw [← same, free] at used
  cases used

/-- There are no tags from the end of a row on. -/
theorem Anchored.untagged_above {stop offset : Nat} (anchored : Anchored tags id row)
    (tiles : Tiles 0 row stop) (above : stop ≤ offset) : tags ⟨id, offset⟩ = false := by
  rw [← Bool.not_eq_true]
  intro tagged
  obtain ⟨block, inRow, -, bottom⟩ := anchored offset tagged
  have inside := tiles.bounds inRow
  omega

/-- Tags stay at their blocks where free blocks are replaced. -/
theorem Anchored.replace (anchored : Anchored tags id (front ++ area ++ back))
    (free : ∀ block ∈ area, block.isFree = true) : Anchored tags id (front ++ fresh ++ back) := by
  intro offset tagged
  obtain ⟨block, member, used, bottom⟩ := anchored offset tagged
  refine ⟨block, ?_, used, bottom⟩
  simp only [List.mem_append] at member ⊢
  rcases member with (inFront | inArea) | inBack
  · exact Or.inl (Or.inl inFront)
  · rw [free block inArea] at used
    cases used
  · exact Or.inr inBack

/-- Tags stay at their blocks where blocks are added. -/
theorem Anchored.append (anchored : Anchored tags id row) : Anchored tags id (row ++ fresh) := by
  intro offset tagged
  obtain ⟨block, member, atBlock⟩ := anchored offset tagged
  exact ⟨block, List.mem_append_left fresh member, atBlock⟩

end Rows

namespace Node

variable {node node' after after' : Node} {kind target : Kind} {size start least preferred : Nat}
  {chunk larger : Chunk}

/-- Two nodes that differ in the tags alone: the first consists of a row, and the second of the tagged
row. -/
structure TaggedAs (tags : Location → Bool) (row : List Block) (node node' : Node) : Prop where
  /-- The nodes are alike. -/
  alike : node.Alike node'
  /-- The nodes are carved up to the same top. -/
  top : node'.top = node.top
  /-- The nodes have the same number of chunks in use. -/
  chunksInUse : node'.chunksInUse = node.chunksInUse
  /-- The first node consists of the row. -/
  carved : node.Carved row
  /-- The second node consists of the tagged row. -/
  tagged : node'.Carved (tagRow tags node.id row)
  /-- Only blocks in use are tagged. -/
  anchored : Anchored tags node.id row

/-- Two nodes that differ in the tags alone. -/
def Tagged (tags : Location → Bool) (node node' : Node) : Prop := ∃ row, TaggedAs tags row node node'

/-- A node consists of no second row. -/
theorem Carved.row_eq {other : List Block} (carved : node.Carved row)
    (otherCarved : node.Carved other) : other = row :=
  otherCarved.consists.toLaid.row_eq carved.consists.toLaid

/-- Where a node is known to consist of a row, that is the row which is tagged. -/
theorem Tagged.as (nodes : node.Tagged tags node') (carved : node.Carved row) :
    TaggedAs tags row node node' := by
  obtain ⟨other, nodes⟩ := nodes
  rw [carved.row_eq nodes.carved] at nodes
  exact nodes

/-- Nodes that differ in the tags have the same handle. -/
theorem Tagged.id (nodes : node.Tagged tags node') : node'.id = node.id := by
  obtain ⟨_, nodes⟩ := nodes
  exact nodes.alike.id

/-- Nodes that differ in the tags are alike. -/
theorem Tagged.alike (nodes : node.Tagged tags node') : node.Alike node' := by
  obtain ⟨_, nodes⟩ := nodes
  exact nodes.alike

/-- Nodes that differ in the tags are carved up to the same top. -/
theorem Tagged.top (nodes : node.Tagged tags node') : node'.top = node.top := by
  obtain ⟨_, nodes⟩ := nodes
  exact nodes.top

/-- Nodes that differ in the tags have the same number of chunks in use. -/
theorem Tagged.chunksInUse (nodes : node.Tagged tags node') :
    node'.chunksInUse = node.chunksInUse := by
  obtain ⟨_, nodes⟩ := nodes
  exact nodes.chunksInUse

/-- Nodes that differ in the tags have the same number of words left. -/
theorem Tagged.uncarved (nodes : node.Tagged tags node') : node'.uncarved = node.uncarved := by
  unfold Node.uncarved
  rw [nodes.alike.committed, nodes.top]

/-- A node without tags differs from itself in no tags. -/
theorem Carved.tagged_self (carved : node.Carved row) (untagged : ∀ offset,
    tags ⟨node.id, offset⟩ = false) : node.Tagged tags node := by
  have same : tagRow tags node.id row = row := by
    unfold tagRow
    rw [List.map_congr_left fun block _ => Block.tag_of_untagged (untagged block.bottom)]
    exact List.map_id' row
  refine ⟨row, Alike.refl carved.toRegular, rfl, rfl, carved, ?_, ?_⟩
  · rw [same]
    exact carved
  · intro offset tagged
    rw [untagged offset] at tagged
    cases tagged

/-- Two nodes that were alike still are if each stays like itself. -/
theorem Alike.square (alike : node.Alike node') (first : node.Alike after)
    (second : node'.Alike after') : after.Alike after' where
  id := second.id.trans (alike.id.trans first.id.symm)
  sizes := second.sizes.trans (alike.sizes.trans first.sizes.symm)
  reserved := second.reserved.trans (alike.reserved.trans first.reserved.symm)
  audited := second.audited.trans (alike.audited.trans first.audited.symm)
  committed := second.committed.trans (alike.committed.trans first.committed.symm)
  map := {
    regular := second.map.regular
    words := second.map.words.trans (alike.map.words.trans first.map.words.symm)
    granule := second.map.granule.trans (alike.map.granule.trans first.map.granule.symm)
    starts_room :=
      second.map.starts_room.trans (alike.map.starts_room.trans first.map.starts_room.symm)
    inUse_room :=
      second.map.inUse_room.trans (alike.map.inUse_room.trans first.map.inUse_room.symm) }

/-- Nodes that differ in the tags still do after steps of both that lead to the same row. -/
theorem TaggedAs.step (nodes : TaggedAs tags row node node') (first : node.Alike after)
    (second : node'.Alike after') (top : after'.top = after.top)
    (chunksInUse : after'.chunksInUse = after.chunksInUse) (carved : after.Carved fresh)
    (tagged : after'.Carved (tagRow tags node.id fresh)) (anchored : Anchored tags node.id fresh) :
    TaggedAs tags fresh after after' := by
  refine ⟨nodes.alike.square first second, top, chunksInUse, carved, ?_, ?_⟩
  · rw [first.id]
    exact tagged
  · rw [first.id]
    exact anchored

/-- Nodes that differ in the tags still do with one chunk in use more. -/
theorem Tagged.addInUse (nodes : node.Tagged tags node') :
    node.addInUse.Tagged tags node'.addInUse := by
  obtain ⟨row, nodes⟩ := nodes
  refine ⟨row, ?_, nodes.top, congrArg (· + 1) nodes.chunksInUse,
    nodes.carved.with_chunksInUse _, nodes.tagged.with_chunksInUse _, nodes.anchored⟩
  exact { nodes.alike with }

/-- Nodes that differ in the tags drop a chunk in use in lockstep. -/
theorem TaggedAs.dropInUse (nodes : TaggedAs tags row node node') :
    Lockstep True (TaggedAs tags row) node.dropInUse node'.dropInUse := by
  unfold Node.dropInUse
  rw [nodes.chunksInUse]
  apply Lockstep.bind (lockstep_checks _ _)
  intro _ _ _
  refine ⟨?_, nodes.top, rfl, nodes.carved.with_chunksInUse _, nodes.tagged.with_chunksInUse _,
    nodes.anchored⟩
  exact { nodes.alike with }

/-- A chunk whose place is not tagged is marked in lockstep. -/
theorem TaggedAs.setInUse (nodes : TaggedAs tags row node node') (owned : node.Owns chunk)
    (member : chunk.block ∈ row) (untagged : tags chunk.place = false) (inUse : Bool) :
    Lockstep True (Alongside (Tagged tags)) (node.setInUse chunk inUse)
      (node'.setInUse chunk inUse) := by
  obtain ⟨front, back, rfl⟩ := exists_around member
  have untaggedHere : tags ⟨node.id, chunk.bottom⟩ = false := by
    rw [← owned.container]
    exact untagged
  have same : chunk.block.tag tags node.id = chunk.block := Block.tag_of_untagged untaggedHere
  have tagged := nodes.tagged
  simp only [tagRow_append, tagRow_singleton, same] at tagged
  apply (lockstep_of_ensures (nodes.carved.setInUse_ensures owned)
    (tagged.setInUse_ensures (owned.of_alike nodes.alike))).mono
  intro (after, chunk') (after', chunk'') ⟨⟨isChunk, alike, top, count, carved, _⟩,
    ⟨isChunk', alike', top', count', carved', _⟩⟩
  change chunk' = _ at isChunk
  change chunk'' = _ at isChunk'
  subst isChunk isChunk'
  refine ⟨⟨_, nodes.step alike alike' ?_ ?_ carved ?_ ?_⟩, rfl⟩
  · rw [top, top', nodes.top]
  · rw [count, count', nodes.chunksInUse]
  · simp only [tagRow_append, tagRow_singleton]
    rw [Block.tag_of_untagged (show tags ⟨node.id, (chunk.withFree (!inUse)).block.bottom⟩ = false
      from untaggedHere)]
    exact carved'
  · intro offset tagged
    obtain ⟨block, inRow, used, bottom⟩ := nodes.anchored offset tagged
    refine ⟨block, ?_, used, bottom⟩
    simp only [List.mem_append, List.mem_singleton] at inRow ⊢
    rcases inRow with (inFront | isChunk) | inBack
    · exact Or.inl (Or.inl inFront)
    · rw [← bottom, isChunk] at tagged
      exact absurd (untaggedHere.symm.trans tagged) Bool.false_ne_true
    · exact Or.inr inBack

/-- The payload of a chunk whose place is not tagged is overwritten in lockstep. -/
theorem TaggedAs.fillPayloadIf (nodes : TaggedAs tags row node node')
    (container : chunk.container = node.id) (member : chunk.block ∈ row)
    (untagged : tags chunk.place = false) (asked : Bool) (word : UInt64) :
    Lockstep True (TaggedAs tags row) (node.fillPayloadIf asked chunk word)
      (node'.fillPayloadIf asked chunk word) := by
  have untaggedHere : tags ⟨node.id, chunk.bottom⟩ = false := by
    rw [← container]
    exact untagged
  have member' := tag_mem_tagRow tags node.id member
  rw [Block.tag_of_untagged untaggedHere] at member'
  apply (lockstep_of_ensures (nodes.carved.fillPayloadIf_ensures container member)
    (nodes.tagged.fillPayloadIf_ensures (container.trans nodes.alike.id.symm) member')).mono
  intro after after' ⟨⟨words, isAfter, carved, size, _⟩, ⟨words', isAfter', carved', size', _⟩⟩
  subst isAfter isAfter'
  have first : node.Alike { node with words } :=
    ⟨rfl, rfl, rfl, rfl, size, Occupancy.Alike.refl nodes.carved.map⟩
  have second : node'.Alike { node' with words := words' } :=
    ⟨rfl, rfl, rfl, rfl, size', Occupancy.Alike.refl nodes.tagged.map⟩
  exact nodes.step first second nodes.top nodes.chunksInUse carved carved' nodes.anchored

/-- Chunks are carved in lockstep where they suit the top. -/
theorem TaggedAs.carve {origin : Origin} (nodes : TaggedAs tags row node node')
    (suits : node.sizes.Suits kind size) (aligned : node.top % node.sizes.alignment kind size = 0)
    (short : size < Header.sizeLimit) (room : node.top + size ≤ node.committed) :
    Lockstep True
      (fun (after, chunk) (after', chunk') => after.Tagged tags after' ∧ chunk' = chunk)
      (node.carve kind size origin) (node'.carve kind size origin) := by
  have carves' : Ensures True (node'.carve kind size origin) _ :=
    nodes.tagged.carve_ensures (by rw [nodes.alike.sizes]; exact suits)
      (by rw [nodes.top, nodes.alike.sizes]; exact aligned) short
      (by rw [nodes.top, nodes.alike.committed]; exact room)
  apply (lockstep_of_ensures (nodes.carved.carve_ensures suits aligned short room) carves').mono
  intro (after, chunk) (after', chunk') ⟨⟨isChunk, alike, top, count, carved, _⟩,
    ⟨isChunk', alike', top', count', carved', _⟩⟩
  have same : chunk' = chunk := by
    rw [isChunk, isChunk']
    unfold Node.chunkAt
    rw [nodes.alike.id, nodes.alike.isClass, nodes.top]
  have untagged : tags ⟨node.id, chunk.block.bottom⟩ = false := by
    rw [isChunk]
    exact nodes.anchored.untagged_above nodes.carved.tiles (Nat.le_refl _)
  refine ⟨⟨_, nodes.step alike alike' ?_ ?_ carved ?_ nodes.anchored.append⟩, same⟩
  · rw [top, top', nodes.top]
  · rw [count, count', nodes.chunksInUse]
  · rw [tagRow_append, tagRow_singleton, Block.tag_of_untagged untagged, ← same]
    exact carved'

/-- The size of padding depends on the chunk sizes alone. -/
theorem paddingSize_congr (sizes : node'.sizes = node.sizes) (here : Nat) :
    node'.paddingSize here = node.paddingSize here := by
  cases node
  cases node'
  cases sizes
  rfl

/-- Padding is carved in lockstep. -/
theorem Tagged.padFrom {stop here : Nat} (nodes : node.Tagged tags node') (isTop : here = node.top)
    (reached : stop = here ∨ stop % node.sizes.small = 0) (room : stop ≤ node.committed) :
    Lockstep True (Alongside (Tagged tags)) (node.padFrom stop here) (node'.padFrom stop here) := by
  induction left : stop - here using Nat.strong_induction_on generalizing node node' here with
  | _ left ih =>
    obtain ⟨row, nodes⟩ := nodes
    have carved := nodes.carved
    have short := carved.short
    rw [Node.padFrom, Node.padFrom]
    by_cases more : here < stop
    · have stopSmall := reached.resolve_left (by omega)
      have hereWhole : here % node.sizes.specialized = 0 := by
        rw [isTop]
        exact carved.top_whole
      rw [if_pos more, if_pos more, paddingSize_congr nodes.alike.sizes, nodes.alike.sizes]
      apply lockstep_same
      rintro ⟨size, positive⟩ chosen
      obtain ⟨suits, aligned, small, within⟩ :=
        (@paddingSize_ensures True node here hereWhole).of_ok chosen
      have inside := within stop stopSmall more
      change node.sizes.Suits (node.sizes.paddingKind here) size at suits
      change here % node.sizes.alignment (node.sizes.paddingKind here) size = 0 at aligned
      change size ≤ node.sizes.medium at small
      change here + size ≤ stop at inside
      have alignedTop : node.top % node.sizes.alignment (node.sizes.paddingKind here) size = 0 := by
        rw [← isTop]
        exact aligned
      have sizeShort := Nat.lt_of_le_of_lt small short
      apply lockstep_same
      intro _ _
      rw [ChunkSizes.kindOfSize_eq_ok_iff.mpr suits]
      apply Lockstep.bind ((nodes.carve suits alignedTop sizeShort (by omega)).known
        (carved.carve_ensures suits alignedTop sizeShort (by omega)) (ensures_excused _))
      rintro ⟨padded, chunk⟩ ⟨padded', chunk'⟩ ⟨⟨nodesPadded, same⟩, ⟨_, alike, top, _⟩, _⟩
      cases same
      apply Lockstep.bind (ih (stop - (here + size)) (by omega) nodesPadded (by omega)
        (Or.inr (by rw [alike.sizes]; exact stopSmall)) (by rw [alike.committed]; exact room) rfl)
      rintro ⟨after, rest⟩ ⟨after', rest'⟩ ⟨nodesAfter, same⟩
      cases same
      exact ⟨nodesAfter, rfl⟩
    · rw [if_neg more, if_neg more]
      exact ⟨⟨row, nodes⟩, rfl⟩

/-- Words are committed in lockstep. -/
theorem Tagged.expand (nodes : node.Tagged tags node') (least preferred : Nat) :
    Lockstep excuse (Option.Rel (Tagged tags)) (node.expand least preferred).outcome
      (node'.expand least preferred).outcome := by
  obtain ⟨row, nodes⟩ := nodes
  have committed := nodes.alike.committed
  have reserved := nodes.alike.reserved
  have sizes := nodes.alike.sizes
  have stepped : Lockstep excuse (Option.Rel fun after after' => ∃ amount,
      after = { node with words := node.words ++ Array.replicate amount 0 } ∧
        after' = { node' with words := node'.words ++ Array.replicate amount 0 })
      (node.expand least preferred).outcome (node'.expand least preferred).outcome := by
    unfold Node.expand
    rw [committed, reserved, sizes]
    dsimp only
    split
    · exact Option.Rel.none
    · apply lockstep_sameRun
      intro wanted _
      apply lockstep_note
      exact Option.Rel.some ⟨_, rfl, rfl⟩
  apply (stepped.known (nodes.carved.expand_ensures (absurd trivial))
    (ensures_excused _)).mono
  intro found found' ⟨both, known, _⟩
  cases both with
  | none => exact Option.Rel.none
  | some both =>
    obtain ⟨amount, rfl, rfl⟩ := both
    obtain ⟨same, isSame, whole, inside, _⟩ := known
    have sameAmount : same = amount := by
      have sizes := congrArg Node.committed isSame
      simpa [Node.committed] using sizes.symm
    subst sameAmount
    refine Option.Rel.some ⟨row, ?_, nodes.top, nodes.chunksInUse, nodes.carved.commit whole inside,
      nodes.tagged.commit ?_ ?_, nodes.anchored⟩
    · refine { nodes.alike with committed := ?_ }
      simp only [Node.committed, Array.size_append] at committed ⊢
      rw [committed]
    · rw [committed, sizes]
      exact whole
    · rw [committed, reserved]
      exact inside

/-- Free chunks of an area are merged in lockstep. -/
theorem TaggedAs.merge {absorbed : List Chunk} (nodes : TaggedAs tags (front ++ area ++ back) node node')
    (frontTiles : Tiles 0 front start) (areaTiles : Tiles start area (start + size))
    (backTiles : Tiles (start + size) back node.top) (isArea : Area node.sizes target start size)
    (free : ∀ block ∈ area, block.isFree = true)
    (chunksFree : ∀ chunk ∈ absorbed, chunk.isFree = true)
    (chunksInside : ∀ chunk ∈ absorbed, start ≤ chunk.bottom ∧ chunk.bottom < start + size) :
    Lockstep True (Alongside (Tagged tags)) (node.merge start target absorbed)
      (node'.merge start target absorbed) := by
  have tagged := nodes.tagged
  rw [tagRow_append, tagRow_append, tagRow_of_free free] at tagged
  have merges' : Ensures True (node'.merge start target absorbed) _ :=
    tagged.merge_ensures frontTiles.tagRow areaTiles (by rw [nodes.top]; exact backTiles.tagRow)
      (by rw [nodes.alike.sizes]; exact isArea) free chunksFree chunksInside
  apply (lockstep_of_ensures (nodes.carved.merge_ensures frontTiles areaTiles backTiles isArea free
    chunksFree chunksInside) merges').mono
  intro (after, merged) (after', merged') ⟨⟨isMerged, alike, top, count, carved, _⟩,
    ⟨isMerged', alike', top', count', carved', _⟩⟩
  have same : merged' = merged := by
    rw [isMerged, isMerged']
    unfold Node.chunkAt
    rw [nodes.alike.id, nodes.alike.isClass]
  refine ⟨⟨_, nodes.step alike alike' ?_ ?_ carved ?_ (nodes.anchored.replace free)⟩, same⟩
  · rw [top, top', nodes.top]
  · rw [count, count', nodes.chunksInUse]
  · rw [tagRow_append, tagRow_append, tagRow_of_free (List.forall_mem_singleton.mpr
      (show merged.block.isFree = true by rw [isMerged]; rfl)), ← same]
    exact carved'

/-- Pieces are placed with the same handles in nodes with the same handle. -/
theorem placePiece_agree (sameId : node'.id = node.id) (sizes : node'.sizes = node.sizes)
    (kind : Kind) (size offset : Nat) :
    Lockstep True (fun (after, piece) (after', piece') =>
        piece' = piece ∧ after'.id = after.id ∧ after'.sizes = after.sizes)
      (node.placePiece kind size offset) (node'.placePiece kind size offset) := by
  unfold Node.placePiece Node.isClass
  rw [sameId, sizes]
  apply lockstep_same
  intro chunk _
  apply Lockstep.bind (lockstep_checks _ _)
  intro _ _ _
  apply Lockstep.bind (lockstep_checks _ _)
  intro _ _ _
  exact ⟨rfl, rfl, rfl⟩

/-- What fits an offset depends on the handle and the chunk sizes alone. -/
theorem fittingKind_congr (sameId : node'.id = node.id) (sizes : node'.sizes = node.sizes)
    (offset : Nat) (target : Kind) (candidates : List Kind) :
    node'.fittingKind offset target candidates = node.fittingKind offset target candidates := by
  induction candidates with
  | nil =>
    unfold Node.fittingKind
    rw [sameId]
  | cons head rest ih =>
    unfold Node.fittingKind
    rw [ih, sizes]

/-- What is left of a split chunk is covered with the same handles in nodes with the same handle. -/
theorem coverRest_agree (sameId : node'.id = node.id) (sizes : node'.sizes = node.sizes)
    (larger target : Kind) (stop offset : Nat) :
    Lockstep True (fun (_, pieces) (_, pieces') => pieces' = pieces)
      (node.coverRest larger target stop offset) (node'.coverRest larger target stop offset) := by
  induction left : stop - offset using Nat.strong_induction_on generalizing node node' offset with
  | _ left ih =>
    rw [coverRest_eq, coverRest_eq]
    by_cases more : offset < stop
    · rw [if_pos more, if_pos more, fittingKind_congr sameId sizes, sizes]
      apply lockstep_same
      intro kind _
      apply lockstep_same
      intro size fixed
      have positive := node.sizes.pos_of_fixedSize fixed
      apply lockstep_same
      intro _ _
      apply Lockstep.bind (placePiece_agree sameId sizes kind size offset)
      intro (placed, piece) (placed', piece') ⟨same, sameId, sizes⟩
      cases same
      apply Lockstep.bind (ih (stop - (offset + size)) (by omega) sameId sizes (offset + size) rfl)
      intro (_, rest) (_, rest') same
      exact congrArg (piece :: ·) same
    · rw [if_neg more, if_neg more]
      rfl

/-- Chunks are split with the same handles in nodes with the same handle. -/
theorem split_agree (sameId : node'.id = node.id) (sizes : node'.sizes = node.sizes)
    (larger : Chunk) (target : Kind) :
    Lockstep True (fun (_, parts) (_, parts') => parts' = parts) (node.split larger target)
      (node'.split larger target) := by
  unfold Node.split Node.isClass
  rw [sameId, sizes]
  apply lockstep_same
  intro _ _
  apply lockstep_same
  intro size _
  apply lockstep_same
  intro whole _
  apply lockstep_same
  intro _ _
  apply Lockstep.bind (lockstep_checks _ _)
  intro _ _ _
  apply lockstep_same
  intro chunk _
  apply Lockstep.bind (lockstep_checks _ _)
  intro _ _ _
  apply lockstep_same
  intro second _
  refine Lockstep.bind (coverRest_agree ?_ ?_ _ _ _ _) ?_
  · rfl
  · rfl
  · intro (_, pieces) (_, pieces') same
    exact congrArg (Prod.mk _) same

/-- A free chunk is split in lockstep. -/
theorem TaggedAs.split (nodes : TaggedAs tags row node node') (member : larger.block ∈ row)
    (free : larger.isFree = true) (notHumongous : larger.kind ≠ .humongous)
    (below : target.code < larger.kind.code) (fixed : node.sizes.fixedSize target = .ok size) :
    Lockstep True (Alongside (Tagged tags)) (node.split larger target)
      (node'.split larger target) := by
  obtain ⟨front, back, rfl⟩ := exists_around member
  have largerFree : ∀ block ∈ [larger.block], block.isFree = true :=
    List.forall_mem_singleton.mpr free
  have tagged := nodes.tagged
  rw [tagRow_append, tagRow_append, tagRow_of_free largerFree] at tagged
  apply ((split_agree nodes.alike.id nodes.alike.sizes larger target).known
    (nodes.carved.split_ensures free notHumongous below fixed)
    (tagged.split_ensures free notHumongous below (by rw [nodes.alike.sizes]; exact fixed))).mono
  intro (after, first, pieces) (after', first', pieces') ⟨same, ⟨_, divided⟩, ⟨_, divided'⟩⟩
  cases same
  have partsFree : ∀ block ∈ (first :: pieces).map Chunk.block, block.isFree = true := by
    refine List.forall_mem_map.mpr (List.forall_mem_cons.mpr ⟨divided.free, ?_⟩)
    exact fun piece inPieces => (divided.isPiece piece inPieces).free
  refine ⟨⟨_, nodes.step divided.alike divided'.alike ?_ ?_ divided.carved ?_
    (nodes.anchored.replace largerFree)⟩, rfl⟩
  · rw [divided.top, divided'.top, nodes.top]
  · rw [divided.inUse, divided'.inUse, nodes.chunksInUse]
  · rw [tagRow_append, tagRow_append, tagRow_of_free partsFree]
    exact divided'.carved

end Node

end CollectorMemory
