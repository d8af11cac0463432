import CollectorMemory.Pool.PutBack
import CollectorMemory.Proofs.Pool.Stock
import CollectorMemory.Proofs.Returned
import CollectorMemory.Proofs.Serving

/-!
# Putting chunks back into a stock

A chunk that is put back becomes a free block of the row, and a row that was coalesced stays so except
at that block. The two areas around it are merged if they can be, after which the row is coalesced.
What an operation does to a stock is `Restocks`, whether the row is coalesced or not.
-/

namespace CollectorMemory

variable {excuse : Prop} {uses : Nat} {pool : Pool} {node : Node} {loose : List Chunk}
  {row : List Block} {chunk : Chunk} {kind target : Kind} {start size offset : Nat}

/-- A node and its pool after an operation on them: they have a stock with the chunks that are loose
then, the chunks that are kept are spared, and a row that was coalesced is so again. -/
structure Restocks (uses : Nat) (kept : List Chunk) (pool : Pool) (node : Node) (row : List Block)
    (pool' : Pool) (node' : Node) (loose : List Chunk) (after : List Block) : Prop where
  /-- There is a stock. -/
  stock : Stock uses pool' node' loose after
  /-- What is kept is spared. -/
  steady : Steady kept pool node pool' node'
  /-- No word is given back to the node. -/
  top_le : node.top ≤ node'.top
  /-- The row becomes coarser. -/
  coarser : Coarser row after node.top
  /-- A coalesced row is coalesced again. -/
  coalesced : Coalesced node.sizes row node.top → Coalesced node'.sizes after node'.top

namespace Restocks

variable {kept fewer middleLoose last : List Chunk} {middlePool pool' : Pool} {middle node' : Node}
  {middleRow after : List Block}

/-- Doing nothing restocks a node. -/
theorem refl (stock : Stock uses pool node loose row) :
    Restocks uses kept pool node row pool node loose row where
  stock := stock
  steady := Steady.refl stock.carved.toRegular
  top_le := Nat.le_refl _
  coarser := Coarser.refl row node.top
  coalesced := id

/-- Two operations that restock a node do so in sequence. -/
theorem trans (first : Restocks uses kept pool node row middlePool middle middleLoose middleRow)
    (second : Restocks uses kept middlePool middle middleRow pool' node' last after) :
    Restocks uses kept pool node row pool' node' last after where
  stock := second.stock
  steady := first.steady.trans second.steady
  top_le := Nat.le_trans first.top_le second.top_le
  coarser := first.coarser.trans second.coarser first.top_le
  coalesced coalesced := second.coalesced (first.coalesced coalesced)

/-- An operation that spares some chunks spares fewer of them. -/
theorem of_subset (restocks : Restocks uses kept pool node row pool' node' last after)
    (subset : fewer ⊆ kept) : Restocks uses fewer pool node row pool' node' last after :=
  { restocks with steady := restocks.steady.of_subset subset }

/-- A settled stock is settled again. -/
theorem settled (restocks : Restocks uses kept pool node row pool' node' last after)
    (before : Settled uses pool node loose row) : Settled uses pool' node' last after :=
  restocks.stock.settled (restocks.coalesced before.coalesced)

end Restocks

/-- A row after the free blocks of an area were merged into a block of the target kind. -/
def Merged (row after : List Block) (target : Kind) (start size top : Nat) : Prop :=
  ∃ front area back block, row = front ++ area ++ back ∧ after = front ++ [block] ++ back ∧
    Tiles 0 front start ∧ Tiles start area (start + size) ∧ Tiles start [block] (start + size) ∧
    Tiles (start + size) back top ∧ (∀ other ∈ area, other.isFree = true) ∧ block.kind = target

/-- The words of chunks whose blocks tile an area are those of the area. -/
theorem wordsOf_eq_of_blocks {taken : List Chunk} {area : List Block} {stop : Nat}
    (blocks : taken.map Chunk.block = area) (tiles : Tiles start area stop) :
    start + wordsOf taken = stop := by
  have sum := tiles.sum_size
  rw [← blocks, List.map_map] at sum
  exact sum

/-- The stock after free chunks of an area were replaced by a merged one in the node and the pool. -/
theorem Stock.of_merge {front area back : List Block} {rest pool' : Pool} {node' : Node}
    {absorbed : List Chunk} {merged : Chunk}
    (stock : Stock uses pool node loose (front ++ area ++ back))
    (areaTiles : Tiles start area (start + size))
    (backTiles : Tiles (start + size) back node.top)
    (areaFree : ∀ block ∈ area, block.isFree = true) (isArea : Area node.sizes target start size)
    (without : pool.Without rest absorbed) (blocks : absorbed.map Chunk.block = area)
    (containers : ∀ chunk ∈ absorbed, chunk.container = node.id)
    (isMerged : merged = node.chunkAt target size start .merge true) (alike : node.Alike node')
    (inUse : node'.chunksInUse = node.chunksInUse)
    (carved : node'.Carved (front ++ [merged.block] ++ back))
    (same : ∀ offset, offset < start ∨ start + size ≤ offset → node.SameAt node' offset)
    (isPool : pool' = { rest.push merged with count := rest.count + 1 - absorbed.length }) :
    Stock uses pool' node' loose (front ++ [merged.block] ++ back) ∧
      Steady loose pool node pool' node' := by
  have positive := isArea.positive
  have mergedHere : ∀ chunk ∈ [merged], chunk.container = node.id := by
    rw [List.forall_mem_singleton, isMerged]
    rfl
  have mergedFree : ∀ block ∈ [merged.block], block.isFree = true := by
    rw [List.forall_mem_singleton, isMerged]
    rfl
  -- The first absorbed chunk was where the merged one is, so no other chunk of the pool is there.
  have fresh : ∀ other ∈ rest.chunks, other.place ≠ merged.place := by
    rcases areaTiles.isBound_start with atStop | ⟨block, inArea, bottom⟩
    · omega
    · rw [← blocks] at inArea
      obtain ⟨first, inAbsorbed, rfl⟩ := List.mem_map.mp inArea
      have container := containers first inAbsorbed
      have place : merged.place = first.place := by
        rw [isMerged]
        unfold Chunk.place
        rw [container, show first.bottom = start from bottom]
        rfl
      intro other member
      rw [place]
      exact stock.apart_of_without without first inAbsorbed other member container
  obtain ⟨pushed, pushedFiled⟩ := Pool.push_perm without.filed fresh
  have chunks : pool'.chunks = (rest.push merged).chunks := by rw [isPool]; rfl
  have filed : pool'.Filed := by rw [isPool]; exact pushedFiled.withNumbers _ _
  have poolAlike : pool.Alike pool' := by
    rw [isPool]
    have numbered : (rest.push merged).Alike
        { rest.push merged with count := rest.count + 1 - absorbed.length } := ⟨rfl, rfl, rfl⟩
    exact without.toAlike.trans (Pool.alike_push.trans numbered)
  have poolPerm : (absorbed ++ pool'.chunks).Perm ([merged] ++ pool.chunks) := by
    rw [chunks]
    have moved : (absorbed ++ (rest.push merged).chunks).Perm (merged :: (absorbed ++ rest.chunks)) :=
      (pushed.append_left absorbed).trans List.perm_middle
    exact moved.trans (without.perm.symm.cons merged)
  have absorbedWords := wordsOf_eq_of_blocks blocks areaTiles
  have restCount := stock.poolSound.count
  have lengths := without.perm.length_eq
  rw [List.length_append] at lengths
  have words : pool'.words = pool.words := by
    rw [isPool]
    exact Pool.words_withKind.trans without.words
  have holds : ∀ chunk ∈ [merged], pool.Holds uses chunk := by
    rw [List.forall_mem_singleton, isMerged]
    have owned := Node.chunkAt_owned .merge true isArea.suits isArea.alignment
      (Nat.lt_of_le_of_lt isArea.le_medium stock.carved.short)
    exact ⟨by rw [stock.sizes]; exact owned.sound, by rw [stock.isClass]; rfl, rfl, rfl,
      Nat.zero_le _⟩
  have poolSound : pool'.Sound uses := by
    apply stock.poolSound.of_perm poolAlike filed poolPerm holds
    · rw [isPool]
      change rest.count + 1 - absorbed.length + absorbed.length = _
      rw [without.count, List.length_singleton]
      omega
    · rw [words, isMerged, wordsOf_cons, wordsOf_nil]
      change _ = pool.words + (size + 0)
      omega
    · rw [words]
      exact stock.poolSound.counted
  exact stock.exchange areaTiles backTiles areaFree mergedFree alike carved inUse poolSound poolAlike
    poolPerm containers mergedHere blocks rfl same

/-- The area around an offset is merged exactly if it can be. -/
theorem Stock.mergeAround_ensures (stock : Stock uses pool node loose row)
    (room : Room excuse pool node)
    (allowed : (kind == .specialized && (target == .small || target == .medium)
      || kind == .small && target == .medium) = true)
    (isArea : Area node.sizes target start size) (isStart : start = offset / size * size)
    (below : offset < node.top) :
    Ensures excuse (pool.mergeAround node offset kind target).outcome fun (isMerged, pool', node') =>
      (isMerged = false ∧ pool' = pool ∧ node' = node ∧ ¬Mergeable row node.top start size) ∨
        (isMerged = true ∧ Steady loose pool node pool' node' ∧ node'.top = node.top ∧
          ∃ after, Stock uses pool' node' loose after ∧
            Merged row after target start size node.top) := by
  have carved := stock.carved
  have suits := isArea.suits
  have positive := isArea.positive
  have sizeLe := isArea.le_medium
  have topLe := carved.top_le
  have committedLe := carved.committed_le
  have counted := carved.reserved_lt
  have startLe : start ≤ offset := by
    rw [isStart]
    exact Nat.div_mul_le_self offset size
  unfold Pool.mergeAround
  refine Ensures.bindRun (ensures_require fun _ => allowed) ?_
  intro _ _
  refine Ensures.bindRun (ensures_eq (show pool.sizes.fixedSize target = .ok size by
    rw [stock.sizes]; exact isArea.fixed)) ?_
  intro targetSize same
  subst targetSize
  refine Ensures.bindRun (Count.roundDown_ensures positive) ?_
  intro found same
  rw [← isStart] at same
  subst found
  refine Ensures.bindRun (carved.canMerge_ensures (suits.offset_whole isArea.alignment) suits.whole
    positive fun hard => by have := room hard; omega) ?_
  intro can canIff
  cases can with
  | false =>
    refine Or.inl ⟨rfl, rfl, rfl, ?_⟩
    rw [← canIff]
    exact Bool.false_ne_true
  | true =>
    have mergeable := canIff.mp rfl
    have insideTop := mergeable.inside
    obtain ⟨front, area, back, rfl, frontTiles, areaTiles, backTiles, areaFree⟩ :=
      mergeable.split carved.tiles
    have inRow : ∀ block ∈ area, block ∈ front ++ area ++ back := fun block member =>
      List.mem_append_left _ (List.mem_append_right _ member)
    refine ensures_note ?_
    refine Ensures.bindRun (carved.headersIn_ensures areaTiles mergeable.inside) ?_
    rintro headers rfl
    have soundBlocks : ∀ block ∈ area, block.Sound node.sizes := fun block member =>
      carved.sound block (inRow block member)
    refine Ensures.bindRun (Pool.unlinkAll_ensures stock.poolSound.filed soundBlocks
      areaTiles.nodup_bottom.of_map stock.distinct
      fun block member => stock.exists_free (inRow block member) (areaFree block member)) ?_
    rintro ⟨rest, absorbed⟩ ⟨blocks, containers, without⟩
    have absorbedWords := wordsOf_eq_of_blocks blocks areaTiles
    refine Ensures.bindRun (Count.sum_ensures fun _ => by
      change wordsOf absorbed < wordLimit
      omega) ?_
    rintro total rfl
    refine Ensures.bindRun (ensures_require fun _ => beq_iff_eq.mpr (by
      change wordsOf absorbed = size
      omega)) ?_
    intro _ _
    have inArea : ∀ chunk ∈ absorbed, chunk.block ∈ area := by
      intro chunk member
      rw [← blocks]
      exact List.mem_map_of_mem member
    refine Ensures.bindRun (carved.merge_ensures frontTiles areaTiles backTiles isArea areaFree
      (fun chunk member => areaFree chunk.block (inArea chunk member))
      fun chunk member => by
        have inside : start ≤ chunk.bottom ∧ chunk.bottom < chunk.block.stop ∧
          chunk.block.stop ≤ start + size := areaTiles.bounds (inArea chunk member)
        omega) ?_
    rintro ⟨after, merged⟩ ⟨isMerged, alike, top, inUse, afterCarved, same⟩
    refine ensures_note ?_
    have poolCount := stock.poolSound.count
    have lengths := without.perm.length_eq
    rw [List.length_append] at lengths
    refine Ensures.bindRun (Count.sub_ensures fun _ => by rw [without.count]; omega) ?_
    rintro count ⟨rfl, _⟩
    obtain ⟨afterStock, steady⟩ := stock.of_merge areaTiles backTiles areaFree isArea
      without blocks containers isMerged alike inUse afterCarved same rfl
    refine Ensures.bindRun afterStock.auditWith_ensures ?_
    intro _ _
    refine Or.inr ⟨rfl, steady, top, _, afterStock, front, area, back, merged.block, rfl, rfl,
      frontTiles, areaTiles, ?_, backTiles, areaFree, ?_⟩
    · rw [isMerged]
      exact tiles_singleton rfl positive rfl
    · rw [isMerged]
      rfl

/-- Merging an area makes a row coarser. -/
theorem Merged.coarser {after : List Block} {top limit : Nat}
    (merged : Merged row after target start size top) (isArea : Area node.sizes target start size) :
    Coarser row after limit := by
  obtain ⟨front, area, back, block, rfl, rfl, _, areaTiles, blockTiles, _, _, isKind⟩ := merged
  have positive := isArea.positive
  obtain ⟨first, inArea, lower, _⟩ := areaTiles.cover (Nat.le_refl start) (by omega)
  have inside := areaTiles.bounds inArea
  have bottom : block.bottom = start := blockTiles.1
  apply Coarser.of_replace inArea (by omega)
  rw [isKind]
  exact fun humongous => absurd humongous (ChunkSizes.ne_humongous_of_fixedSize isArea.fixed)

/-- A row that was coalesced except at an offset is coalesced after the area of a kind around the
offset was merged, if no larger area around it could be. -/
theorem Merged.coalesced {after : List Block} {top : Nat}
    (merged : Merged row after target start size top) (tiles : Tiles 0 after top)
    (sound : ∀ block ∈ after, block.Sound node.sizes) (isArea : Area node.sizes target start size)
    (isStart : start = offset / size * size)
    (except : CoalescedExceptAt node.sizes row top offset)
    (noneLarger : NoneLarger node.sizes row top offset target) : Coalesced node.sizes after top := by
  obtain ⟨front, area, back, block, rfl, rfl, frontTiles, areaTiles, blockTiles, backTiles,
    areaFree, isKind⟩ := merged
  have positive := isArea.positive
  have startLe : start ≤ offset := by
    rw [isStart]
    exact Nat.div_mul_le_self offset size
  have below : offset < start + size := by
    rw [isStart]
    exact Nat.lt_div_mul_add positive
  have member : block ∈ front ++ [block] ++ back := by simp
  have exceptAfter := except.replace_single frontTiles areaTiles backTiles blockTiles startLe below
  have isBottom : block.bottom = start := blockTiles.1
  have isStop : block.stop = start + size := blockTiles.2.2
  apply Coalesced.of_noneLarger exceptAfter tiles member (sound block member) (by omega) (by omega)
  intro kind larger isLarger above mergeable
  rw [isKind] at above
  apply noneLarger kind larger isLarger above
  have nested := aligned_nested
    (ChunkSizes.dvd_of_code_le isArea.fixed isLarger.fixed (UInt8.le_of_lt above))
    (Nat.dvd_of_mod_eq_zero isArea.aligned) (Nat.dvd_of_mod_eq_zero isLarger.aligned)
    (Nat.lt_of_le_of_lt startLe (Nat.lt_div_mul_add isLarger.positive))
    (Nat.lt_of_le_of_lt (Nat.div_mul_le_self offset larger) below)
  exact mergeable.of_replace_around areaTiles backTiles blockTiles areaFree nested.1 nested.2

/-- A stock whose row is coalesced except at a block is coalesced if no larger area there can be
merged. -/
theorem Stock.coalesced_of_noneLarger (stock : Stock uses pool node loose row)
    (member : chunk.block ∈ row)
    (noneLarger : NoneLarger node.sizes row node.top chunk.bottom chunk.kind)
    (except : CoalescedExceptAt node.sizes row node.top chunk.bottom) :
    Coalesced node.sizes row node.top := by
  have sound := stock.carved.sound chunk.block member
  exact Coalesced.of_noneLarger except stock.carved.tiles member sound (Nat.le_refl _)
    sound.bottom_lt_stop noneLarger

/-- A stock whose row was coalesced except at an offset is coalesced after the area of a kind there was
merged, if no larger area there could be. -/
theorem Stock.coalesced_of_merged {pool' : Pool} {node' : Node} {after : List Block}
    (afterStock : Stock uses pool' node' loose after) (alike : node.Alike node')
    (top : node'.top = node.top) (merged : Merged row after target start size node.top)
    (isArea : Area node.sizes target start size) (isStart : start = offset / size * size)
    (noneLarger : NoneLarger node.sizes row node.top offset target)
    (except : CoalescedExceptAt node.sizes row node.top offset) :
    Coalesced node'.sizes after node'.top := by
  have afterTiles := afterStock.carved.tiles
  have afterSound := afterStock.carved.sound
  rw [top] at afterTiles
  rw [alike.sizes] at afterSound
  rw [alike.sizes, top]
  exact merged.coalesced afterTiles afterSound isArea isStart except noneLarger

/-- Merging the neighbours of a free block leaves a coalesced row, if it was coalesced except there. -/
theorem Stock.mergeNeighbours_ensures (stock : Stock uses pool node loose row)
    (room : Room excuse pool node) (member : chunk.block ∈ row) :
    Ensures excuse (pool.mergeNeighbours node chunk).outcome fun (pool', node') =>
      ∃ after, Stock uses pool' node' loose after ∧ Steady loose pool node pool' node' ∧
        node'.top = node.top ∧ Coarser row after node.top ∧
        (CoalescedExceptAt node.sizes row node.top chunk.bottom →
          Coalesced node'.sizes after node'.top) := by
  have nonempty := (stock.carved.sound chunk.block member).bottom_lt_stop
  have inside := stock.carved.tiles.bounds member
  have below : chunk.bottom < node.top := by
    change chunk.bottom < chunk.block.stop at nonempty
    omega
  have isMedium := Area.around_medium node.sizes chunk.bottom
  have isSmall := Area.around_small node.sizes chunk.bottom
  -- With nothing to merge the stock stays as it is.
  have stay : NoneLarger node.sizes row node.top chunk.bottom chunk.kind →
      ∃ after, Stock uses pool node loose after ∧ Steady loose pool node pool node ∧
        node.top = node.top ∧ Coarser row after node.top ∧
        (CoalescedExceptAt node.sizes row node.top chunk.bottom →
          Coalesced node.sizes after node.top) := fun noneLarger =>
    ⟨row, stock, Steady.refl stock.carved.toRegular, rfl, Coarser.refl row node.top,
      stock.coalesced_of_noneLarger member noneLarger⟩
  unfold Pool.mergeNeighbours
  cases isKind : chunk.kind with
  | medium =>
    apply stay
    rw [isKind]
    exact NoneLarger.of_medium_le (UInt8.le_refl _)
  | humongous =>
    apply stay
    rw [isKind]
    exact NoneLarger.of_medium_le (by decide)
  | small =>
    refine Ensures.bindRun (stock.mergeAround_ensures room (by decide) isMedium rfl below) ?_
    rintro ⟨isMerged, pool', node'⟩
      (⟨rfl, samePool, sameNode, notMedium⟩ | ⟨rfl, steady, top, after, afterStock, merged⟩)
    · subst pool' node'
      apply stay
      rw [isKind]
      exact NoneLarger.of_small notMedium
    · exact ⟨after, afterStock, steady, top, merged.coarser isMedium,
        afterStock.coalesced_of_merged steady.nodeAlike top merged isMedium rfl
          (NoneLarger.of_medium_le (UInt8.le_refl _))⟩
  | specialized =>
    refine Ensures.bindRun (stock.mergeAround_ensures room (by decide) isMedium rfl below) ?_
    rintro ⟨isMerged, pool', node'⟩
      (⟨rfl, samePool, sameNode, notMedium⟩ | ⟨rfl, steady, top, after, afterStock, merged⟩)
    · subst pool' node'
      refine Ensures.bindRun (stock.mergeAround_ensures room (by decide) isSmall rfl below) ?_
      rintro ⟨isMerged, pool', node'⟩
        (⟨rfl, samePool, sameNode, notSmall⟩ | ⟨rfl, steady, top, after, afterStock, merged⟩)
      · subst pool' node'
        exact stay (NoneLarger.of_both notMedium notSmall)
      · exact ⟨after, afterStock, steady, top, merged.coarser isSmall,
          afterStock.coalesced_of_merged steady.nodeAlike top merged isSmall rfl
            (NoneLarger.of_small notMedium)⟩
    · exact ⟨after, afterStock, steady, top, merged.coarser isMedium,
        afterStock.coalesced_of_merged steady.nodeAlike top merged isMedium rfl
          (NoneLarger.of_medium_le (UInt8.le_refl _))⟩

/-- Merging the chunks of an area returns no chunk. -/
theorem Pool.returned_mergeAround (pool : Pool) (node : Node) (offset : Nat) (kind target : Kind) :
    (pool.mergeAround node offset kind target).returned = [] := by
  unfold Pool.mergeAround
  refine Run.returned_bind_eq_nil rfl fun _ => ?_
  refine Run.returned_bind_eq_nil rfl fun size => ?_
  refine Run.returned_bind_eq_nil rfl fun start => ?_
  refine Run.returned_bind_eq_nil rfl fun can => ?_
  cases can with
  | false => rfl
  | true =>
    refine Run.returned_bind_eq_nil rfl fun _ => ?_
    refine Run.returned_bind_eq_nil rfl fun headers => ?_
    refine Run.returned_bind_eq_nil rfl fun (rest, absorbed) => ?_
    refine Run.returned_bind_eq_nil rfl fun total => ?_
    refine Run.returned_bind_eq_nil rfl fun _ => ?_
    refine Run.returned_bind_eq_nil rfl fun (after, merged) => ?_
    refine Run.returned_bind_eq_nil rfl fun _ => ?_
    refine Run.returned_bind_eq_nil rfl fun count => ?_
    exact Run.returned_bind_eq_nil rfl fun _ => rfl

/-- Merging the neighbours of a chunk returns no chunk. -/
theorem Pool.returned_mergeNeighbours (pool : Pool) (node : Node) (chunk : Chunk) :
    (pool.mergeNeighbours node chunk).returned = [] := by
  unfold Pool.mergeNeighbours
  cases chunk.kind with
  | medium => rfl
  | humongous => rfl
  | small => exact Run.returned_bind_eq_nil (pool.returned_mergeAround ..) fun _ => rfl
  | specialized =>
    refine Run.returned_bind_eq_nil (pool.returned_mergeAround ..) fun (isMerged, pool, node) => ?_
    cases isMerged with
    | true => rfl
    | false => exact Run.returned_bind_eq_nil (pool.returned_mergeAround ..) fun _ => rfl

/-- The stock after a loose chunk was tagged free in the node and put into the pool. -/
theorem Stock.of_release {front back : List Block} {pool' : Pool} {node' : Node} {freed : Chunk}
    (stock : Stock uses pool node (chunk :: loose) (front ++ [chunk.block] ++ back))
    (container : chunk.container = node.id) (isFreed : freed = chunk.emptied.withFree true)
    (alike : node.Alike node') (inUse : node'.chunksInUse = node.chunksInUse - 1)
    (carved : node'.Carved (front ++ [freed.block] ++ back))
    (same : ∀ offset, offset < chunk.bottom ∨ chunk.stop ≤ offset → node.SameAt node' offset)
    (counted : pool.words + freed.size < wordLimit)
    (isPool : pool' =
      Pool.push { pool with words := pool.words + freed.size, count := pool.count + 1 } freed) :
    Stock uses pool' node' loose (front ++ [freed.block] ++ back) ∧
      Steady loose pool node pool' node' := by
  have isLoose : chunk ∈ chunk :: loose := List.mem_cons_self
  have place : freed.place = chunk.place := by rw [isFreed]; rfl
  have freedContainer : freed.container = node.id := by rw [isFreed]; exact container
  obtain ⟨owned, used, uses_le⟩ := stock.looseOwned chunk isLoose container
  have fresh : ∀ other ∈ pool.chunks, other.place ≠ freed.place := by
    rw [place]
    exact stock.pool_apart isLoose container
  have holds : pool.Holds uses freed := by
    rw [isFreed]
    have sound := owned.sound.emptied.withFree true
    rw [← stock.sizes] at sound
    exact ⟨sound, by rw [stock.isClass]; exact owned.isClass, rfl, rfl, uses_le⟩
  obtain ⟨poolSound, poolAlike, pushed⟩ := stock.poolSound.push holds fresh counted isPool
  have poolPerm : ([] ++ pool'.chunks).Perm ([freed] ++ pool.chunks) := pushed
  have chunkUsed : inUseCount [chunk.block] = 1 :=
    inUseCount_eq_length (List.forall_mem_singleton.mpr used)
  have freedUnused : inUseCount [freed.block] = 0 := by
    rw [isFreed]
    rfl
  have someUsed : 0 < node.chunksInUse := by
    rw [stock.inUse]
    exact inUseCount_pos (stock.mem_row (List.mem_append_right _ isLoose) container) used
  have perm : ([chunk] ++ (pool'.chunks ++ loose)).Perm
      ([freed] ++ (pool.chunks ++ (chunk :: loose))) := by
    have moved : (pool'.chunks ++ (chunk :: loose)).Perm (freed :: pool.chunks ++ (chunk :: loose)) :=
      pushed.append_right _
    have middle : (chunk :: (pool'.chunks ++ loose)).Perm (pool'.chunks ++ chunk :: loose) :=
      List.perm_middle.symm
    exact middle.trans moved
  constructor
  · apply stock.replace alike carved (by rw [inUse, chunkUsed, freedUnused]; omega) poolSound
      poolAlike perm
    · exact blocksIn_eq_map (List.forall_mem_singleton.mpr container)
    · exact blocksIn_eq_map (List.forall_mem_singleton.mpr freedContainer)
    · exact fun other member => stock.looseOwned other (List.mem_cons_of_mem chunk member)
  · obtain ⟨_, chunkTiles, backTiles⟩ := stock.carved.tiles.around
    apply stock.steady chunkTiles backTiles alike poolAlike poolPerm
      (fun other member => absurd member List.not_mem_nil)
      (List.forall_mem_singleton.mpr freedContainer)
      (List.subset_cons_self chunk loose) ?_ same
    exact fun other member otherContainer => stock.loose_apart container member otherContainer

/-- Put a chunk in use back into the pool, without merging it with its neighbours. -/
def Pool.release (pool : Pool) (node : Node) (chunk : Chunk) : Run (Pool × Node × Chunk) := do
  require (chunk.container == node.id) (.pool (.wrongNode chunk))
  require (chunk.isClass == pool.isClass) (.pool (.wrongSpace chunk))
  checkIf pool.audited (node.auditChunk chunk)
  require (!chunk.isFree) (.pool (.alreadyFree chunk))
  let chunk := chunk.emptied
  let node ← node.fillPayloadIf pool.audited chunk Words.abandoned
  let node ← node.dropInUse
  let (node, chunk) ← node.setInUse chunk false
  let pool ← pool.countAdded chunk
  Run.note (.returned pool.isClass chunk)
  return (pool.push chunk, node, chunk)

/-- Putting a chunk back releases it and merges its neighbours. -/
theorem Pool.putBack_eq (pool : Pool) (node : Node) (chunk : Chunk) :
    pool.putBack node chunk = pool.release node chunk >>= fun (released, after, freed) =>
      released.mergeNeighbours after freed := by
  unfold Pool.putBack Pool.release
  simp only [bind_assoc, pure_bind]

/-- A chunk in use after it was put into the pool. -/
def Chunk.freed (chunk : Chunk) : Chunk := chunk.emptied.withFree true

/-- A loose chunk that is released is a free block of the row, which is coalesced elsewhere if it was
coalesced. The chunk is the one that is returned. -/
theorem Stock.release_ensures (stock : Stock uses pool node (chunk :: loose) row)
    (room : Room excuse pool node) (container : chunk.container = node.id) :
    Ensures excuse (pool.release node chunk).account fun ((pool', node', freed), told) =>
      freed = chunk.freed ∧ told = [chunk.freed] ∧
        ∃ after, Stock uses pool' node' loose after ∧ Steady loose pool node pool' node' ∧
          node'.top = node.top ∧ freed.block ∈ after ∧ Coarser row after node.top ∧
          (Coalesced node.sizes row node.top →
            CoalescedExceptAt node'.sizes after node'.top freed.bottom) := by
  have isLoose : chunk ∈ chunk :: loose := List.mem_cons_self
  have inRow := stock.mem_row (List.mem_append_right _ isLoose) container
  obtain ⟨owned, used, uses_le⟩ := stock.looseOwned chunk isLoose container
  have ownedEmptied : node.Owns chunk.emptied := ⟨container, owned.isClass, owned.sound.emptied⟩
  have positive : 0 < node.chunksInUse := by
    rw [stock.inUse]
    exact inUseCount_pos inRow used
  obtain ⟨front, back, rfl⟩ := exists_around inRow
  unfold Pool.release
  refine Ensures.bindSilent rfl (ensures_require fun _ => beq_iff_eq.mpr container) ?_
  intro _ _
  refine Ensures.bindSilent rfl (ensures_require fun _ => beq_iff_eq.mpr
    (owned.isClass.trans stock.isClass.symm)) ?_
  intro _ _
  refine Ensures.bindSilent rfl
    (ensures_checkIf fun _ => stock.auditChunk_ensures isLoose container) ?_
  intro _ _
  refine Ensures.bindSilent rfl (ensures_require fun _ => by rw [used]; rfl) ?_
  intro _ _
  refine Ensures.bindSilent rfl (stock.carved.fillPayloadIf_ensures container inRow) ?_
  rintro filled ⟨words, rfl, filledCarved, filledSize, filledSame⟩
  refine Ensures.bindSilent rfl (Node.dropInUse_ensures positive) ?_
  rintro dropped rfl
  have dropped : Node.Carved { node with words, chunksInUse := node.chunksInUse - 1 }
      (front ++ [chunk.emptied.block] ++ back) := filledCarved.with_chunksInUse _
  have droppedAlike : node.Alike { node with words, chunksInUse := node.chunksInUse - 1 } :=
    ⟨rfl, rfl, rfl, rfl, filledSize, Occupancy.Alike.refl stock.carved.map⟩
  refine Ensures.bindSilent rfl (dropped.setInUse_ensures (ownedEmptied.of_alike droppedAlike)) ?_
  rintro ⟨node', freed⟩ ⟨isFreed, alike, top, inUse, carved, sameTagged, _⟩
  have freedSize : freed.size = chunk.size := by rw [isFreed]; rfl
  refine Ensures.bindSilent rfl (Pool.countAdded_ensures fun hard => by
    rw [freedSize]
    exact stock.counted room isLoose container hard) ?_
  rintro counted ⟨rfl, inside⟩
  have same : ∀ offset, offset < chunk.bottom ∨ chunk.stop ≤ offset → node.SameAt node' offset := by
    intro offset apart
    have first : node.SameAt { node with words, chunksInUse := node.chunksInUse - 1 } offset :=
      ⟨filledSame offset apart, fun _ => rfl, fun _ => rfl⟩
    exact first.trans droppedAlike (sameTagged offset apart)
  obtain ⟨released, steady⟩ := stock.of_release container isFreed (droppedAlike.trans alike) inUse
    carved same inside rfl
  have bottom : freed.bottom = chunk.bottom := by rw [isFreed]; rfl
  refine ⟨isFreed, congrArg (fun freed => [freed]) isFreed, front ++ [freed.block] ++ back, released, steady, top, by simp,
    ?_, ?_⟩
  · apply Coarser.of_replace List.mem_cons_self (by rw [isFreed]; rfl)
    rw [isFreed]
    exact fun humongous => ⟨humongous, rfl⟩
  · intro coalesced
    rw [steady.nodeAlike.sizes, show node'.top = node.top from top, bottom]
    obtain ⟨frontTiles, chunkTiles, backTiles⟩ := stock.carved.tiles.around
    have freedTiles : Tiles chunk.block.bottom [freed.block] chunk.block.stop := by
      rw [isFreed]
      exact chunkTiles
    have inside := (chunkTiles.bounds List.mem_cons_self).2.1
    exact (coalesced.exceptAt chunk.bottom).replace_single frontTiles chunkTiles backTiles
      freedTiles (Nat.le_refl _) inside

/-- Putting a loose chunk back restocks the node without it. -/
theorem Stock.putBack_ensures (stock : Stock uses pool node (chunk :: loose) row)
    (room : Room excuse pool node) (container : chunk.container = node.id) :
    Ensures excuse (pool.putBack node chunk).account fun ((pool', node'), told) =>
      told = [chunk.freed] ∧ node'.top = node.top ∧
        ∃ after, Restocks uses loose pool node row pool' node' loose after := by
  rw [Pool.putBack_eq]
  refine Ensures.bindAccount (stock.release_ensures room container) ?_
  rintro ⟨released, middle, freed⟩ _
    ⟨rfl, rfl, middleRow, stock, steady, top, member, coarser, except⟩
  apply ((stock.mergeNeighbours_ensures (room.of_steady steady) member).account
    (released.returned_mergeNeighbours middle chunk.freed)).mono
  rintro ⟨⟨pool', node'⟩, _⟩ ⟨⟨after, stockAfter, steadyAfter, topAfter, coarserAfter, merged⟩, rfl⟩
  exact ⟨List.append_nil _, topAfter.trans top, after, {
    stock := stockAfter
    steady := steady.trans steadyAfter
    top_le := Nat.le_of_eq (topAfter.trans top).symm
    coarser := coarser.trans coarserAfter (Nat.le_of_eq top.symm)
    coalesced := fun coalesced => merged (except coalesced) }⟩

/-- Putting loose chunks of the node back one after the other restocks the node without them. -/
theorem Stock.putBackAll_ensures {chunks : List Chunk}
    (stock : Stock uses pool node (chunks ++ loose) row) (room : Room excuse pool node)
    (container : ∀ chunk ∈ chunks, chunk.container = node.id) :
    Ensures excuse (pool.putBackAll node chunks).account fun ((pool', node'), told) =>
      told = chunks.map Chunk.freed ∧ node'.top = node.top ∧
        ∃ after, Restocks uses loose pool node row pool' node' loose after := by
  induction chunks generalizing pool node row with
  | nil => exact ⟨rfl, rfl, row, Restocks.refl stock⟩
  | cons head rest ih =>
    unfold Pool.putBackAll
    refine Ensures.bindAccount (stock.putBack_ensures room (container head List.mem_cons_self)) ?_
    rintro ⟨pool', node'⟩ _ ⟨rfl, top, after, restocks⟩
    apply (ih restocks.stock (room.of_steady restocks.steady) fun chunk member => by
      rw [restocks.steady.nodeAlike.id]
      exact container chunk (List.mem_cons_of_mem head member)).mono
    rintro ⟨⟨lastPool, last⟩, _⟩ ⟨rfl, lastTop, lastRow, lastRestocks⟩
    exact ⟨rfl, lastTop.trans top, lastRow,
      (restocks.of_subset (List.subset_append_right rest loose)).trans lastRestocks⟩

/-- A loose chunk that is released is a free block of the row, which is coalesced elsewhere. -/
theorem Settled.release_ensures (settled : Settled uses pool node (chunk :: loose) row)
    (room : Room excuse pool node) (container : chunk.container = node.id) :
    Ensures excuse (pool.release node chunk).outcome fun (pool', node', freed) =>
      ∃ after, Stock uses pool' node' loose after ∧ Steady loose pool node pool' node' ∧
        node'.top = node.top ∧ freed.block ∈ after ∧
        CoalescedExceptAt node'.sizes after node'.top freed.bottom ∧
        Coarser row after node.top := by
  apply (settled.toStock.release_ensures room container).outcome
  rintro ⟨pool', node', freed⟩ told ⟨_, _, after, stock, steady, top, member, coarser, except⟩
  exact ⟨after, stock, steady, top, member, except settled.coalesced, coarser⟩

/-- Putting a loose chunk back settles the stock without it. -/
theorem Settled.putBack_ensures (settled : Settled uses pool node (chunk :: loose) row)
    (room : Room excuse pool node) (container : chunk.container = node.id) :
    Ensures excuse (pool.putBack node chunk).outcome fun (pool', node') =>
      ∃ after, Settled uses pool' node' loose after ∧ Steady loose pool node pool' node' ∧
        node'.top = node.top ∧ Coarser row after node.top := by
  apply (settled.toStock.putBack_ensures room container).outcome
  rintro ⟨pool', node'⟩ told ⟨_, top, after, restocks⟩
  exact ⟨after, restocks.settled settled, restocks.steady, top, restocks.coarser⟩

end CollectorMemory
