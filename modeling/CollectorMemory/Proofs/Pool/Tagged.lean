import CollectorMemory.Proofs.Node.Tagged
import CollectorMemory.Proofs.Pool.Lockstep

/-!
# Pools and nodes with tagged chunks

Chunks that are tagged are not in the pool, so that the same is done with a pool and a node whether
chunks of the node are tagged or not. The one exception are areas that can be merged because of tags:
their chunks cannot all be taken out of the pool, and the attempt stops.
-/

namespace CollectorMemory

variable {excuse : Prop} {uses : Nat} {tags : Location → Bool} {pool : Pool} {node node' : Node}
  {loose : List Chunk} {row : List Block} {chunk : Chunk} {kind target : Kind} {size : Nat}

namespace Pool

/-- What is taken out for a header was in the pool, at the offset of the header. -/
theorem unlink_mem (id : NodeId) (offset : Nat) (header : Header) :
    Ensures True (pool.unlink id offset header) fun (after, chunk) =>
      (chunk ∈ pool.chunks ∧ chunk.container = id ∧ chunk.bottom = offset) ∧
        ∀ other ∈ after.chunks, other ∈ pool.chunks := by
  unfold unlink
  cases header.kind? with
  | none => trivial
  | some kind =>
    simp only [Option.bind_some]
    cases taken : takeFirst? _ (pool.ofKind kind) with
    | none => trivial
    | some found =>
      obtain ⟨passes, perm⟩ := takeFirst?_eq_some taken
      simp only [Bool.and_eq_true, beq_iff_eq] at passes
      refine ⟨⟨mem_chunks.mpr ⟨kind, perm.mem_iff.mpr List.mem_cons_self⟩, passes.1⟩, ?_⟩
      intro other member
      have perms : (found.1 :: (pool.withKind kind found.2).chunks).Perm pool.chunks :=
        chunks_withKind_perm [found.1] [] perm.symm
      exact perms.mem_iff.mp (List.mem_cons_of_mem _ member)

/-- Where the chunks of all headers are taken out, each was in the pool, at the offset of its header. -/
theorem unlinkAll_mem (id : NodeId) (headers : List (Nat × Header)) :
    Ensures True (pool.unlinkAll id headers) fun _ =>
      ∀ entry ∈ headers, ∃ chunk ∈ pool.chunks, chunk.container = id ∧ chunk.bottom = entry.1 := by
  induction headers generalizing pool with
  | nil => exact fun entry member => absurd member List.not_mem_nil
  | cons head rest ih =>
    obtain ⟨offset, header⟩ := head
    unfold unlinkAll
    apply Ensures.bind (unlink_mem id offset header)
    rintro ⟨middle, chunk⟩ ⟨found, fewer⟩
    apply Ensures.bind ih
    intro _ others
    refine List.forall_mem_cons.mpr ⟨⟨chunk, found⟩, fun entry member => ?_⟩
    obtain ⟨other, inMiddle, isThere⟩ := others entry member
    exact ⟨other, fewer other inMiddle, isThere⟩

end Pool

/-- The chunks of an area with a tagged block cannot all be taken out of the pool. -/
theorem Stock.unlinkAll_stops {area : List Block} {block : Block}
    (stock : Stock uses pool node loose row) (anchored : Anchored tags node.id row)
    (member : block ∈ area) (tagged : tags ⟨node.id, block.bottom⟩ = true) :
    Ensures True (pool.unlinkAll node.id (node.headersOf area)) fun _ => False := by
  apply (Pool.unlinkAll_mem node.id (node.headersOf area)).mono
  intro _ found
  obtain ⟨chunk, inPool, container, bottom⟩ := found _ (List.mem_map_of_mem member)
  have inRow := stock.mem_row (List.mem_append_left _ inPool) container
  have free : chunk.block.isFree = true := (stock.poolSound.holds chunk inPool).free
  have untagged := anchored.untagged_of_free stock.carved.tiles inRow free
  change tags ⟨node.id, chunk.bottom⟩ = false at untagged
  rw [bottom] at untagged
  exact Bool.false_ne_true (untagged.symm.trans tagged)

/-- Where an area can be merged because of tags alone, the walk over its headers finds one that is
tagged. -/
theorem Node.TaggedAs.exists_tagged {start : Nat} (nodes : node.TaggedAs tags row node')
    (mergeable : Mergeable (tagRow tags node.id row) node.top start size)
    (notWithout : ¬Mergeable row node.top start size) :
    ∃ area, Ensures True (node'.headersIn start size) (fun headers => headers = node.headersOf area) ∧
      ∃ block ∈ area, tags ⟨node.id, block.bottom⟩ = true := by
  have meets : ∃ block ∈ row, block.bottom < start + size ∧ start < block.stop ∧
      block.isFree = false := by
    by_contra none
    apply notWithout
    refine ⟨mergeable.inside, isBound_tagRow_iff.mp mergeable.start_bound,
      isBound_tagRow_iff.mp mergeable.stop_bound, ?_⟩
    intro block member blockFirst startFirst
    by_contra used
    exact none ⟨block, member, blockFirst, startFirst, by simpa using used⟩
  obtain ⟨block, inRow, blockFirst, startFirst, used⟩ := meets
  have inTagged := tag_mem_tagRow tags node.id inRow
  have tagged : tags ⟨node.id, block.bottom⟩ = true := by
    have free := mergeable.free _ inTagged blockFirst startFirst
    change (block.isFree || tags ⟨node.id, block.bottom⟩) = true at free
    rw [used, Bool.false_or] at free
    exact free
  have carved := nodes.tagged
  have tiles : Tiles 0 (tagRow tags node.id row) node.top := nodes.carved.tiles.tagRow
  have enclosed := mergeable.encloses tiles inTagged blockFirst startFirst
  obtain ⟨front, area, back, split, _, areaTiles, _, _⟩ := mergeable.split tiles
  rw [split] at carved inTagged tiles
  refine ⟨area, ?_, block.tag tags node.id, ?_, tagged⟩
  · apply (carved.headersIn_ensures areaTiles (by rw [nodes.top]; exact mergeable.inside)).mono
    intro headers isHeaders
    rw [isHeaders]
    unfold Node.headersOf
    rw [nodes.alike.isClass]
  · have nonempty := (tiles.bounds inTagged).2.1
    obtain ⟨other, inArea, lower, upper⟩ := areaTiles.cover enclosed.1 (by simpa using blockFirst)
    have inAll : other ∈ front ++ area ++ back :=
      List.mem_append_left _ (List.mem_append_right _ inArea)
    have nonemptyOther := (tiles.bounds inAll).2.1
    rw [tiles.eq_of_meet inTagged inAll (by omega) (by omega)]
    exact inArea

/-- The area around an offset is merged in lockstep. -/
theorem Stock.mergeAround_tagged (stock : Stock uses pool node loose row)
    (nodes : node.Tagged tags node') (offset : Nat) (kind target : Kind) :
    Lockstep True
      (fun (isMerged, after, last) (isMerged', after', last') =>
        isMerged' = isMerged ∧ after' = after ∧ last.Tagged tags last')
      (pool.mergeAround node offset kind target).outcome
      (pool.mergeAround node' offset kind target).outcome := by
  have asRow := nodes.as stock.carved
  have sameId := nodes.id
  unfold Pool.mergeAround
  apply lockstep_sameRun
  intro _ allowed
  apply lockstep_sameRun
  intro size fixed
  apply lockstep_sameRun
  intro start rounded
  have isTarget : target = .small ∨ target = .medium := by
    have checked := (ensures_require (absurd trivial)).of_ok allowed
    revert checked
    cases kind <;> cases target <;> decide
  rw [Run.outcome_liftM, stock.sizes] at fixed
  have isStart := (@Count.roundDown_ensures False offset size
    (node.sizes.pos_of_fixedSize fixed)).of_ok rounded
  have isArea : Area node.sizes target start size :=
    ⟨isTarget, fixed, by rw [isStart]; exact Nat.mul_mod_left _ _⟩
  have suits := isArea.suits
  have startWhole := suits.offset_whole isArea.alignment
  have sizes := nodes.alike.sizes
  have canIff' : Ensures True (node'.canMerge start size) _ :=
    asRow.tagged.canMerge_ensures (by rw [sizes]; exact startWhole)
      (by rw [sizes]; exact suits.whole) isArea.positive (absurd trivial)
  rw [nodes.top] at canIff'
  apply Lockstep.bindRun (lockstep_of_ensures (stock.carved.canMerge_ensures startWhole suits.whole
    isArea.positive (absurd trivial)) canIff')
  intro can can' ⟨canIff, canIff'⟩
  by_cases mergeable : Mergeable row node.top start size
  · rw [canIff.mpr mergeable, canIff'.mpr mergeable.tagRow]
    obtain ⟨front, area, back, rfl, frontTiles, areaTiles, backTiles, areaFree⟩ :=
      mergeable.split stock.carved.tiles
    have inRow : ∀ block ∈ area, block ∈ front ++ area ++ back := fun block member =>
      List.mem_append_left _ (List.mem_append_right _ member)
    have carved' := asRow.tagged
    rw [tagRow_append, tagRow_append, tagRow_of_free areaFree] at carved'
    apply lockstep_note
    apply Lockstep.bindRun (lockstep_of_ensures
      (stock.carved.headersIn_ensures areaTiles mergeable.inside)
      (carved'.headersIn_ensures areaTiles (by rw [nodes.top]; exact mergeable.inside)))
    intro headers headers' ⟨isHeaders, isHeaders'⟩
    have same : headers' = headers := by
      rw [isHeaders, isHeaders']
      unfold Node.headersOf
      rw [nodes.alike.isClass]
    rw [same, sameId]
    apply lockstep_sameRun
    intro (rest, absorbed) unlinked
    rw [Run.outcome_liftM, isHeaders] at unlinked
    have soundBlocks : ∀ block ∈ area, block.Sound node.sizes := fun block member =>
      stock.carved.sound block (inRow block member)
    have unlinks : Ensures True (Pool.unlinkAll node.id pool (node.headersOf area)) _ :=
      Pool.unlinkAll_ensures stock.poolSound.filed soundBlocks areaTiles.nodup_bottom.of_map
        stock.distinct fun block member => stock.exists_free (inRow block member) (areaFree block member)
    obtain ⟨blocks, _, _⟩ := unlinks.of_ok unlinked
    have inArea : ∀ chunk ∈ absorbed, chunk.block ∈ area := by
      intro chunk member
      rw [← blocks]
      exact List.mem_map_of_mem member
    apply lockstep_sameRun
    intro total _
    apply lockstep_sameRun
    intro _ _
    apply Lockstep.bindRun (asRow.merge frontTiles areaTiles backTiles isArea areaFree
      (fun chunk member => areaFree chunk.block (inArea chunk member))
      fun chunk member => by
        have inside : start ≤ chunk.bottom ∧ chunk.bottom < chunk.block.stop ∧
          chunk.block.stop ≤ start + size := areaTiles.bounds (inArea chunk member)
        omega)
    intro (after, merged) (after', merged') ⟨nodesAfter, same⟩
    cases same
    apply lockstep_note
    apply lockstep_sameRun
    intro count _
    apply Lockstep.bindRun (lockstep_checks _ _)
    intro _ _ _
    exact ⟨rfl, rfl, nodesAfter⟩
  · have cannot : can = false := by
      rw [← Bool.not_eq_true, canIff]
      exact mergeable
    rw [cannot]
    cases can' with
    | false => exact ⟨rfl, rfl, nodes⟩
    | true =>
      obtain ⟨area, headersIn, block, member, tagged⟩ :=
        asRow.exists_tagged (canIff'.mp rfl) mergeable
      apply lockstep_of_stops
      apply ensures_note
      apply Ensures.bindRun headersIn
      intro headers isHeaders
      rw [isHeaders, sameId]
      apply Ensures.bindRun (stock.unlinkAll_stops asRow.anchored member tagged)
      intro _ stopped
      exact stopped.elim

/-- The neighbours of a chunk are merged in lockstep. -/
theorem Stock.mergeNeighbours_tagged (stock : Stock uses pool node loose row)
    (nodes : node.Tagged tags node') (below : chunk.bottom < node.top) :
    Lockstep True (fun (after, last) (after', last') => after' = after ∧ last.Tagged tags last')
      (pool.mergeNeighbours node chunk).outcome (pool.mergeNeighbours node' chunk).outcome := by
  have isMedium := Area.around_medium node.sizes chunk.bottom
  unfold Pool.mergeNeighbours
  cases chunk.kind with
  | medium => exact ⟨rfl, nodes⟩
  | humongous => exact ⟨rfl, nodes⟩
  | small =>
    apply Lockstep.bindRun (stock.mergeAround_tagged nodes _ _ _)
    intro (_, _, _) (_, _, _) ⟨_, together⟩
    exact together
  | specialized =>
    apply Lockstep.bindRun ((stock.mergeAround_tagged nodes _ _ _).known
      (stock.mergeAround_ensures (absurd trivial) (by decide) isMedium rfl below)
      (ensures_excused _))
    intro (isMerged, after, last) (isMerged', after', last') ⟨⟨same, samePool, nodesLast⟩, left, _⟩
    cases same
    cases samePool
    cases isMerged with
    | true => exact ⟨rfl, nodesLast⟩
    | false =>
      -- Nothing was merged, so the stock is as it was.
      obtain ⟨_, rfl, rfl, _⟩ | ⟨isTrue, _⟩ := left
      · apply Lockstep.bindRun (stock.mergeAround_tagged nodesLast _ _ _)
        intro (_, _, _) (_, _, _) ⟨_, together⟩
        exact together
      · cases isTrue

/-- A chunk whose place is not tagged is released in lockstep. -/
theorem Stock.release_tagged (stock : Stock uses pool node (chunk :: loose) row)
    (nodes : node.Tagged tags node') (container : chunk.container = node.id)
    (untagged : tags chunk.place = false) :
    Lockstep True
      (fun (after, last, freed) (after', last', freed') =>
        after' = after ∧ last.Tagged tags last' ∧ freed' = freed)
      (pool.release node chunk).outcome (pool.release node' chunk).outcome := by
  have inRow := stock.mem_row (List.mem_append_right _ List.mem_cons_self) container
  obtain ⟨owned, used, _⟩ := stock.looseOwned chunk List.mem_cons_self container
  unfold Pool.release
  rw [nodes.id]
  apply lockstep_sameRun
  intro _ _
  apply lockstep_sameRun
  intro _ _
  apply Lockstep.bindRun (lockstep_checks _ _)
  intro _ _ _
  apply lockstep_sameRun
  intro _ _
  have fills : Lockstep True _ (node.fillPayloadIf _ chunk.emptied _) _ :=
    (nodes.as stock.carved).fillPayloadIf container inRow untagged pool.audited Words.abandoned
  apply Lockstep.bindRun (fills.known (stock.carved.fillPayloadIf_ensures container inRow)
    (ensures_excused _))
  intro filled filled' ⟨nodesFilled, ⟨words, isFilled, _⟩, _⟩
  have positive : 0 < filled.chunksInUse := by
    rw [isFilled]
    change 0 < node.chunksInUse
    rw [stock.inUse]
    exact inUseCount_pos inRow used
  apply Lockstep.bindRun (nodesFilled.dropInUse.known (Node.dropInUse_ensures positive)
    (ensures_excused _))
  intro dropped dropped' ⟨nodesDropped, isDropped, _⟩
  have ownedEmptied : dropped.Owns chunk.emptied := by
    rw [isDropped, isFilled]
    exact ⟨container, owned.isClass, owned.sound.emptied⟩
  apply Lockstep.bindRun (nodesDropped.setInUse ownedEmptied inRow untagged false)
  intro (tagged, freed) (tagged', freed') ⟨nodesTagged, same⟩
  cases same
  apply lockstep_sameRun
  intro counted _
  apply lockstep_note
  exact ⟨rfl, nodesTagged, rfl⟩

/-- A chunk whose place is not tagged is put back in lockstep. -/
theorem Settled.putBack_tagged (settled : Settled uses pool node (chunk :: loose) row)
    (nodes : node.Tagged tags node') (container : chunk.container = node.id)
    (untagged : tags chunk.place = false) :
    Lockstep True (fun (after, last) (after', last') => after' = after ∧ last.Tagged tags last')
      (pool.putBack node chunk).outcome (pool.putBack node' chunk).outcome := by
  rw [Pool.putBack_eq, Pool.putBack_eq]
  apply Lockstep.bindRun ((settled.toStock.release_tagged nodes container untagged).known
    (settled.release_ensures (absurd trivial) container) (ensures_excused _))
  intro (after, last, freed) (after', last', freed') ⟨⟨samePool, nodesLast, sameFreed⟩, released, _⟩
  cases samePool
  cases sameFreed
  obtain ⟨middle, stock, _, _, member, _⟩ := released
  have inside := stock.carved.tiles.bounds member
  exact stock.mergeNeighbours_tagged nodesLast (Nat.lt_of_lt_of_le inside.2.1 inside.2.2)

/-- Chunks whose places are not tagged are put back one after the other in lockstep. -/
theorem Settled.putBackAll_tagged {chunks : List Chunk}
    (settled : Settled uses pool node (chunks ++ loose) row) (nodes : node.Tagged tags node')
    (container : ∀ chunk ∈ chunks, chunk.container = node.id)
    (untagged : ∀ chunk ∈ chunks, tags chunk.place = false) :
    Lockstep True (fun (after, last) (after', last') => after' = after ∧ last.Tagged tags last')
      (pool.putBackAll node chunks).outcome (pool.putBackAll node' chunks).outcome := by
  induction chunks generalizing pool node node' row with
  | nil => exact ⟨rfl, nodes⟩
  | cons head rest ih =>
    have here := container head List.mem_cons_self
    unfold Pool.putBackAll
    apply Lockstep.bindRun ((settled.putBack_tagged nodes here
      (untagged head List.mem_cons_self)).known (settled.putBack_ensures (absurd trivial) here)
      (ensures_excused _))
    rintro ⟨after, last⟩ ⟨after', last'⟩ ⟨⟨same, nodesLast⟩, ⟨_, settledLast, steady, _⟩, _⟩
    cases same
    apply ih settledLast nodesLast
    · intro chunk member
      rw [steady.nodeAlike.id]
      exact container chunk (List.mem_cons_of_mem head member)
    · exact fun chunk member => untagged chunk (List.mem_cons_of_mem head member)

/-- A chunk is carved with its padding in lockstep. -/
theorem Stock.carvePadded_tagged {origin : Origin} {start : Nat}
    (stock : Stock uses pool node loose row) (nodes : node.Tagged tags node')
    (suits : node.sizes.Suits kind size) (aligned : start % node.sizes.alignment kind size = 0)
    (startLe : node.top ≤ start) (startLt : start < node.top + node.sizes.alignment kind size)
    (short : size < Header.sizeLimit) (inside : start + size ≤ node.committed) :
    Lockstep True (Alongside (Node.Tagged tags)) (node.carvePadded kind size start origin).outcome
      (node'.carvePadded kind size start origin).outcome := by
  have carved := stock.carved
  have reached := carved.next_reached suits aligned startLe startLt
  have room : start ≤ node.committed := by omega
  unfold Node.carvePadded
  rw [nodes.top]
  apply Lockstep.bindRun ((nodes.padFrom rfl reached room).known
    (carved.padFrom_ensures rfl startLe reached room) (ensures_excused _))
  intro (padded, padding) (padded', padding') ⟨⟨nodesPadded, same⟩, ⟨alike, top, _, paddedCarved, _⟩, _⟩
  cases same
  apply Lockstep.bindRun ((nodesPadded.as paddedCarved).carve (by rw [alike.sizes]; exact suits)
    (by rw [top, alike.sizes]; exact aligned) short (by rw [top, alike.committed]; exact inside))
  intro (full, chunk) (full', chunk') ⟨nodesFull, same⟩
  cases same
  exact ⟨nodesFull, rfl⟩

/-- What carving a chunk gives beside what it gives with tags, of which none is at the chunk. -/
def CarvedBeside (tags : Location → Bool) :
    Option (Node × Pool × Chunk) → Option (Node × Pool × Chunk) → Prop :=
  Option.Rel fun (node, pool, chunk) (node', pool', chunk') =>
    node.Tagged tags node' ∧ pool' = pool ∧ chunk' = chunk ∧ tags chunk.place = false

/-- An aligned chunk is carved in lockstep. -/
theorem Settled.carveAligned_tagged {origin : Origin} (settled : Settled uses pool node loose row)
    (nodes : node.Tagged tags node') (short : size ≤ node.reserved → size < Header.sizeLimit) :
    Lockstep True (CarvedBeside tags) (node.carveAligned size origin pool).outcome
      (node'.carveAligned size origin pool).outcome := by
  have anchored := (nodes.as settled.carved).anchored
  rw [Node.carveAligned_eq, Node.carveAligned_eq, nodes.alike.sizes, nodes.top, nodes.uncarved]
  apply lockstep_sameRun
  intro kind isKind
  have suits := ChunkSizes.kindOfSize_eq_ok_iff.mp isKind
  apply lockstep_sameRun
  intro start rounded
  obtain ⟨_, aligned, startLe, startLt, _⟩ :=
    (Count.roundUp_ensures (absurd trivial) (absurd trivial)).of_ok rounded
  apply lockstep_sameRun
  intro needed added
  obtain ⟨rfl, _⟩ := (Count.add_ensures (absurd trivial)).of_ok added
  by_cases few : node.uncarved < start - node.top + size
  · rw [if_pos few, if_pos few]
    exact Option.Rel.none
  · rw [if_neg few, if_neg few]
    have topLe := settled.carved.top_le
    have committedLe := settled.carved.committed_le
    have uncarved : node.uncarved = node.committed - node.top := rfl
    have sizeShort := short (by omega)
    have inside : start + size ≤ node.committed := by omega
    apply lockstep_noteIf
    apply Lockstep.bindRun ((settled.toStock.carvePadded_tagged nodes suits aligned startLe startLt
      sizeShort inside).known ((settled.carvePadded_ensures suits aligned startLe startLt sizeShort
      inside).and (settled.toStock.carvePadded_ensures suits aligned startLe startLt sizeShort
      inside)) (ensures_excused _))
    intro (full, padding, chunk) (full', padding', chunk') ⟨⟨nodesFull, same⟩,
      ⟨⟨isChunk, _, steady, paddingHere, _, fullSettled, _⟩, _, _, _, pads, _⟩, _⟩
    cases same
    have above : ∀ other : Chunk, other.container = node.id → node.top ≤ other.bottom →
        tags other.place = false := by
      intro other container lower
      have untagged := anchored.untagged_above settled.carved.tiles lower
      rw [← container] at untagged
      exact untagged
    have chunkUntagged : tags chunk.place = false := by
      rw [isChunk]
      exact above _ rfl startLe
    have paddingUntagged : ∀ other ∈ padding, tags other.place = false := fun other member =>
      above other (paddingHere other member) (pads.tiles.bounds (List.mem_map_of_mem member)).1
    apply Lockstep.bindRun (fullSettled.putBackAll_tagged nodesFull (fun other member => by
      rw [steady.nodeAlike.id]
      exact paddingHere other member) paddingUntagged)
    intro (after, last) (after', last') ⟨samePool, nodesLast⟩
    cases samePool
    apply lockstep_note
    apply Lockstep.bindRun (lockstep_checks _ _)
    intro _ _ _
    exact Option.Rel.some ⟨nodesLast, rfl, rfl, chunkUntagged⟩

/-- An aligned chunk of any size that is carved with tags is carved without them, if the node is small
enough. -/
theorem Settled.carveAligned_simulates {origin : Origin} (settled : Settled uses pool node loose row)
    (nodes : node.Tagged tags node') (room : Room False pool node) (small : node.reserved < 2 ^ 57)
    (suits : node.sizes.Suits kind size) (short : size ≤ node.reserved → size < Header.sizeLimit) :
    Simulates (CarvedBeside tags) (node.carveAligned size origin pool).outcome
      (node'.carveAligned size origin pool).outcome := by
  have committedLe := settled.carved.committed_le
  have uncarved : node.uncarved = node.committed - node.top := rfl
  by_cases fits : node.reserved + 2 * size < wordLimit
  · apply ((settled.carveAligned_tagged nodes short).simulates
      (settled.carveAligned_ensures room suits short fun _ => fits)).mono
    exact fun _ _ together => together.1
  · -- There is no room for a size that cannot be added to those of the node.
    have crowded : node.uncarved < size := by
      unfold wordLimit at fits
      omega
    exact (Node.carveAligned_crowded nodes.alike.sizes nodes.top nodes.uncarved
      crowded).simulates_of_hard

/-- Chunks of one size are carved and put back in lockstep. -/
theorem Settled.retireSize_tagged {rounds carvedCount : Nat}
    (settled : Settled uses pool node loose row) (nodes : node.Tagged tags node')
    (suits : node.sizes.Suits kind size) (short : size < Header.sizeLimit) :
    Lockstep True
      (fun (after, rest, count) (after', rest', count') =>
        after.Tagged tags after' ∧ rest' = rest ∧ count' = count)
      (node.retireSize pool size rounds carvedCount).outcome
      (node'.retireSize pool size rounds carvedCount).outcome := by
  induction rounds generalizing pool node node' row carvedCount with
  | zero => exact ⟨nodes, rfl, rfl⟩
  | succ rounds ih =>
    unfold Node.retireSize
    rw [nodes.uncarved]
    by_cases few : node.uncarved < size
    · rw [if_pos few, if_pos few]
      exact ⟨nodes, rfl, rfl⟩
    · rw [if_neg few, if_neg few]
      apply Lockstep.bindRun ((settled.carveAligned_tagged nodes fun _ => short).known
        (settled.carveAligned_ensures (absurd trivial) suits (fun _ => short) (absurd trivial))
        (ensures_excused _))
      rintro result result' ⟨together, known, _⟩
      cases together with
      | none => exact ⟨nodes, rfl, rfl⟩
      | @some carved carved' together =>
        obtain ⟨after, rest, chunk⟩ := carved
        obtain ⟨after', rest', chunk'⟩ := carved'
        obtain ⟨nodesAfter, samePool, sameChunk, untagged⟩ := together
        cases samePool
        cases sameChunk
        obtain ⟨_, steady, _, container, _, _, settledAfter, _⟩ := known
        have here := container.trans steady.nodeAlike.id.symm
        apply Lockstep.bindRun ((settledAfter.putBack_tagged nodesAfter here untagged).known
          (settledAfter.putBack_ensures (absurd trivial) here) (ensures_excused _))
        rintro ⟨last, lastNode⟩ ⟨last', lastNode'⟩ ⟨⟨same, nodesLast⟩, ⟨_, settledLast, alike, _⟩, _⟩
        cases same
        apply ih settledLast nodesLast
        rw [alike.nodeAlike.sizes, steady.nodeAlike.sizes]
        exact suits

/-- A node is given up in lockstep. -/
theorem Settled.retire_tagged (settled : Settled uses pool node loose row)
    (nodes : node.Tagged tags node') :
    Lockstep True (fun (after, rest) (after', rest') => after.Tagged tags after' ∧ rest' = rest)
      (node.retire pool).outcome (node'.retire pool).outcome := by
  have smallLt := node.sizes.small_lt
  have specializedLt := node.sizes.specialized_lt
  have short := settled.carved.short
  have smallShort : node.sizes.small < Header.sizeLimit := by omega
  have specializedShort : node.sizes.specialized < Header.sizeLimit := by omega
  have isMedium : node.sizes.Suits .medium node.sizes.medium := rfl
  unfold Node.retire
  rw [nodes.alike.isClass, nodes.alike.sizes, nodes.uncarved]
  apply lockstep_sameRun
  intro _ _
  apply Lockstep.bindRun ((settled.retireSize_tagged nodes isMedium short).known
    (settled.retireSize_ensures (absurd trivial) isMedium short (absurd trivial))
    (ensures_excused _))
  intro (first, firstPool, _) (first', firstPool', _) ⟨⟨nodesFirst, rfl, rfl⟩,
    ⟨steady, _, ⟨_, settledFirst, _⟩, _⟩, _⟩
  have isSmall : first.sizes.Suits .small node.sizes.small := by
    rw [steady.nodeAlike.sizes]
    rfl
  dsimp only
  rw [nodesFirst.uncarved]
  apply Lockstep.bindRun ((settledFirst.retireSize_tagged nodesFirst isSmall smallShort).known
    (settledFirst.retireSize_ensures (absurd trivial) isSmall smallShort (absurd trivial))
    (ensures_excused _))
  intro (second, secondPool, _) (second', secondPool', _) ⟨⟨nodesSecond, rfl, rfl⟩,
    ⟨steadySecond, _, ⟨_, settledSecond, _⟩, _⟩, _⟩
  have isSpecialized : second.sizes.Suits .specialized node.sizes.specialized := by
    rw [steadySecond.nodeAlike.sizes, steady.nodeAlike.sizes]
    rfl
  dsimp only
  rw [nodesSecond.uncarved]
  apply Lockstep.bindRun (settledSecond.retireSize_tagged nodesSecond isSpecialized
    specializedShort)
  intro (last, lastPool, _) (last', lastPool', _) ⟨nodesLast, rfl, rfl⟩
  apply Lockstep.bindRun (lockstep_checks _ _)
  intro _ _ _
  apply lockstep_note
  exact ⟨nodesLast, rfl⟩

end CollectorMemory
