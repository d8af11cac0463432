import CollectorMemory.Proofs.Pool.PutBack

/-!
# Taking chunks from a stock

A free chunk that is taken becomes a block in use, and a row that was coalesced except at that block is
coalesced afterwards. Splitting a chunk for a smaller one leaves a row that is coalesced
except at the smaller chunk, which is then taken.
-/

namespace CollectorMemory

variable {excuse : Prop} {uses : Nat} {pool pool' rest : Pool} {node node' : Node}
  {loose pieces : List Chunk} {row front back : List Block} {chunk larger first : Chunk}
  {target : Kind}

/-- A list of chunks that are not empty has no more chunks than words. -/
theorem length_le_wordsOf {chunks : List Chunk} (positive : ∀ chunk ∈ chunks, 0 < chunk.size) :
    chunks.length ≤ wordsOf chunks := by
  induction chunks with
  | nil => exact Nat.le_refl _
  | cons head rest ih =>
    have headPositive := positive head List.mem_cons_self
    have later := ih fun chunk member => positive chunk (List.mem_cons_of_mem head member)
    rw [wordsOf_cons, List.length_cons]
    omega

/-- The stock after a free chunk was taken out of the pool and tagged in use in the node. If the row was
coalesced except at the chunk it is coalesced then. -/
theorem Stock.of_take {used : Chunk}
    (stock : Stock uses pool node loose (front ++ [chunk.block] ++ back))
    (without : pool.Without rest [chunk]) (container : chunk.container = node.id)
    (isUsed : used = chunk.withFree false) (alike : node.Alike node') (top : node'.top = node.top)
    (inUse : node'.chunksInUse = node.chunksInUse + 1)
    (carved : node'.Carved (front ++ [used.block] ++ back))
    (same : ∀ offset, offset < chunk.bottom ∨ chunk.stop ≤ offset → node.SameAt node' offset)
    (isPool : pool' = { rest with words := rest.words - chunk.size, count := rest.count - 1 }) :
    Stock uses pool' node' (used :: loose) (front ++ [used.block] ++ back) ∧
      Steady loose pool node pool' node' ∧
      (CoalescedExceptAt node.sizes (front ++ [chunk.block] ++ back) node.top chunk.bottom →
        Coalesced node'.sizes (front ++ [used.block] ++ back) node'.top) := by
  have isFree : chunk ∈ pool.chunks := without.perm.mem_iff.mpr List.mem_cons_self
  have holds := stock.poolSound.holds chunk isFree
  have chunkFree : chunk.isFree = true := holds.free
  have usedContainer : used.container = node.id := by rw [isUsed]; exact container
  have inRow : chunk.block ∈ front ++ [chunk.block] ++ back := by simp
  obtain ⟨frontTiles, chunkTiles, backTiles⟩ := stock.carved.tiles.around
  have poolSound : pool'.Sound uses := by
    rw [isPool]
    exact stock.poolSound.uncounted without
  have poolAlike : pool.Alike pool' := by
    rw [isPool]
    exact without.toAlike.trans ⟨rfl, rfl, rfl⟩
  have poolPerm : ([chunk] ++ pool'.chunks).Perm ([] ++ pool.chunks) := by
    rw [isPool]
    exact without.perm.symm
  have blockFree : ∀ block ∈ [chunk.block], block.isFree = true :=
    List.forall_mem_singleton.mpr chunkFree
  have chunkUnused := inUseCount_eq_zero blockFree
  have usedUsed : inUseCount [used.block] = 1 := by
    rw [isUsed]
    rfl
  have perm : ([chunk] ++ (pool'.chunks ++ (used :: loose))).Perm
      ([used] ++ (pool.chunks ++ loose)) := by
    have first : ([chunk] ++ (pool'.chunks ++ (used :: loose))).Perm
        ([chunk] ++ (used :: (pool'.chunks ++ loose))) := List.perm_middle.append_left [chunk]
    have second : ([chunk] ++ (used :: (pool'.chunks ++ loose))).Perm
        (used :: ([chunk] ++ (pool'.chunks ++ loose))) := List.perm_middle
    have third : ([chunk] ++ pool'.chunks ++ loose).Perm (pool.chunks ++ loose) :=
      poolPerm.append_right loose
    rw [List.append_assoc] at third
    exact (first.trans second).trans (third.cons used)
  have owned : node.Owns used := by
    have sound := holds.sound.withFree false
    rw [stock.sizes] at sound
    rw [isUsed]
    exact ⟨container, holds.isClass.trans stock.isClass, sound⟩
  have usedLoose : ∀ other ∈ used :: loose, other.container = node.id →
      node.Owns other ∧ other.isFree = false ∧ other.useCount ≤ uses := by
    intro other member otherContainer
    rcases List.mem_cons.mp member with isOther | inLoose
    · rw [isOther]
      exact ⟨owned, by rw [isUsed]; rfl, by rw [isUsed]; exact holds.uses_le⟩
    · exact stock.looseOwned other inLoose otherContainer
  have after := stock.replace alike carved (by rw [inUse, chunkUnused, usedUsed]) poolSound
    poolAlike perm
    (blocksIn_eq_map (List.forall_mem_singleton.mpr container))
    (blocksIn_eq_map (List.forall_mem_singleton.mpr usedContainer))
    usedLoose
  refine ⟨after, ?_, fun except => ?_⟩
  · apply stock.steady chunkTiles backTiles alike poolAlike poolPerm
      (List.forall_mem_singleton.mpr container)
      (fun other member => absurd member List.not_mem_nil) (List.Subset.refl loose) ?_ same
    exact stock.apart_of_free chunkTiles (List.forall_mem_singleton.mpr inRow) blockFree
  · rw [alike.sizes, top]
    have usedTiles : Tiles chunk.block.bottom [used.block] chunk.block.stop := by
      rw [isUsed]
      exact chunkTiles
    have nonempty := (chunkTiles.bounds List.mem_cons_self).2.1
    have exceptAfter := except.replace_single frontTiles chunkTiles backTiles usedTiles
      (Nat.le_refl _) nonempty
    have member : used.block ∈ front ++ [used.block] ++ back := by simp
    apply Coalesced.of_inUse exceptAfter member
    · rw [isUsed]
      rfl
    · rw [isUsed]
      exact Nat.le_refl _
    · rw [isUsed]
      exact nonempty

/-- A pool after chunks were put into its lists, with its numbers left as they were. -/
structure Pool.Placed (pool after : Pool) (put : List Chunk) : Prop extends pool.Alike after where
  /-- The lists hold chunks of their kinds. -/
  filed : after.Filed
  /-- The chunks are in the pool as well. -/
  perm : after.chunks.Perm (put ++ pool.chunks)
  /-- The number of words stays. -/
  words : after.words = pool.words
  /-- The number of chunks stays. -/
  count : after.count = pool.count

/-- Pieces at new places are put into the pool one after the other. -/
theorem pushAll_ensures (filed : pool.Filed)
    (audits : ∀ piece ∈ pieces, Ensures excuse (node.auditChunk piece) fun _ => True)
    (fresh : ∀ piece ∈ pieces, ∀ other ∈ pool.chunks, other.place ≠ piece.place)
    (distinct : (pieces.map Chunk.place).Nodup) :
    Ensures excuse (pool.pushPieces node pieces) fun after => pool.Placed after pieces := by
  induction pieces generalizing pool with
  | nil => exact ⟨Pool.Alike.refl pool, filed, List.Perm.refl _, rfl, rfl⟩
  | cons head rest ih =>
    obtain ⟨headNew, restDistinct⟩ := List.nodup_cons.mp distinct
    obtain ⟨pushed, pushedFiled⟩ := Pool.push_perm filed (fresh head List.mem_cons_self)
    have restFresh : ∀ piece ∈ rest, ∀ other ∈ (pool.push head).chunks,
        other.place ≠ piece.place := by
      intro piece inRest other member
      rcases List.mem_cons.mp (pushed.mem_iff.mp member) with isHead | inPool
      · rw [isHead]
        intro same
        rw [same] at headNew
        exact headNew (List.mem_map_of_mem inRest)
      · exact fresh piece (List.mem_cons_of_mem head inRest) other inPool
    unfold Pool.pushPieces
    apply Ensures.bind (ensures_checkIf fun _ => audits head List.mem_cons_self)
    intro _ _
    apply (ih pushedFiled (fun piece member => audits piece (List.mem_cons_of_mem head member))
      restFresh restDistinct).mono
    intro after placed
    refine ⟨Pool.alike_push.trans placed.toAlike, placed.filed, ?_,
      placed.words.trans Pool.words_withKind, placed.count.trans Pool.count_withKind⟩
    exact (placed.perm.trans (pushed.append_left rest)).trans List.perm_middle

/-- No free chunk of the node starts in the range of one that was taken out of the pool. -/
theorem Stock.rest_apart (stock : Stock uses pool node loose row)
    (without : pool.Without rest [larger]) (container : larger.container = node.id)
    {other : Chunk} (member : other ∈ rest.chunks) (otherContainer : other.container = node.id) :
    ¬(larger.bottom ≤ other.bottom ∧ other.bottom < larger.stop) := by
  rintro ⟨lower, upper⟩
  have inPool : other ∈ pool.chunks := without.perm.mem_iff.mpr (List.mem_cons_of_mem larger member)
  have largerInPool : larger ∈ pool.chunks := without.perm.mem_iff.mpr List.mem_cons_self
  have otherRow := stock.mem_row (List.mem_append_left loose inPool) otherContainer
  have largerRow := stock.mem_row (List.mem_append_left loose largerInPool) container
  have nonempty := (stock.carved.tiles.bounds otherRow).2.1
  have same := stock.carved.tiles.eq_of_meet largerRow otherRow
    (show larger.bottom < other.block.stop from Nat.lt_of_le_of_lt lower nonempty)
    (show other.bottom < larger.block.stop from upper)
  have sameBottom : larger.bottom = other.bottom := congrArg Block.bottom same
  apply stock.apart_of_without without larger List.mem_cons_self other member container
  unfold Chunk.place
  rw [otherContainer, container, sameBottom]

namespace Node.Divided

/-- The blocks of the parts are in the row. -/
theorem mem_row {part : Chunk} (member : part ∈ first :: pieces) :
    part.block ∈ front ++ (first :: pieces).map Chunk.block ++ back :=
  List.mem_append_left _ (List.mem_append_right _ (List.mem_map_of_mem member))

/-- The parts belong to the node, are free and empty and were never used. -/
theorem part_owned (divided : node.Divided node' front back larger first pieces)
    {part : Chunk} (member : part ∈ first :: pieces) :
    node.Owns part ∧ part.isFree = true ∧ part.top = part.payload ∧ part.useCount = 0 := by
  rcases List.mem_cons.mp member with isFirst | inPieces
  · rw [isFirst]
    exact ⟨divided.owned, divided.free, divided.empty, divided.unused⟩
  · have piece := divided.isPiece part inPieces
    exact ⟨piece.owned, piece.free, piece.empty, piece.unused⟩

/-- The parts pass their audits. -/
theorem audit_ensures (divided : node.Divided node' front back larger first pieces)
    {part : Chunk} (member : part ∈ first :: pieces) :
    Ensures excuse (node'.auditChunk part) fun _ => True := by
  have owned := (divided.part_owned member).1.of_alike divided.alike
  exact divided.carved.auditChunk_ensures owned.sound owned.container owned.isClass (mem_row member)

/-- The first part starts where the chunk does. -/
theorem first_bottom (divided : node.Divided node' front back larger first pieces) :
    first.bottom = larger.bottom := divided.tiles.1

/-- Pieces start behind the first part and in the chunk. -/
theorem piece_inside (divided : node.Divided node' front back larger first pieces)
    {piece : Chunk} (member : piece ∈ pieces) :
    larger.bottom < piece.bottom ∧ piece.bottom < larger.stop := by
  obtain ⟨_, positive, piecesTiles⟩ := divided.tiles
  have isBottom := divided.first_bottom
  have end_ : first.block.stop = first.bottom + first.block.size := rfl
  have inside : first.block.stop ≤ piece.bottom ∧ piece.bottom < piece.block.stop ∧
    piece.block.stop ≤ larger.stop := piecesTiles.bounds (List.mem_map_of_mem member)
  omega

/-- No two pieces are at the same place. -/
theorem distinct (divided : node.Divided node' front back larger first pieces) :
    (pieces.map Chunk.place).Nodup := by
  have bottoms := divided.tiles.2.2.nodup_bottom
  rw [List.map_map] at bottoms
  apply List.Nodup.of_map Location.offset
  rw [List.map_map]
  exact bottoms

end Node.Divided

/-- The pieces of a chunk can be counted in its place. -/
theorem Stock.pieces_counted (stock : Stock uses pool node loose row)
    (divided : node.Divided node' front back larger first pieces)
    (without : pool.Without rest [larger]) : rest.count + pieces.length < wordLimit := by
  have positive : ∀ part ∈ (first :: pieces) ++ rest.chunks, 0 < part.size := by
    intro part member
    rcases List.mem_append.mp member with inParts | inRest
    · have sound := divided.carved.sound part.block (Node.Divided.mem_row inParts)
      exact Nat.lt_of_le_of_lt (Nat.zero_le _) sound.suits.header_lt
    · have old := without.perm.mem_iff.mpr (List.mem_cons_of_mem larger inRest)
      have sound := (stock.poolSound.holds part old).sound.block
      exact Nat.lt_of_le_of_lt (Nat.zero_le _) sound.suits.header_lt
  have fewer := length_le_wordsOf positive
  have sums := wordsOf_perm without.perm
  have lengths := without.perm.length_eq
  rw [wordsOf_append, List.length_append, List.length_cons] at fewer
  rw [wordsOf_append, wordsOf_cons, wordsOf_nil] at sums
  rw [List.length_append, List.length_singleton] at lengths
  have partsWords := wordsOf_eq_of_blocks rfl divided.tiles
  have end_ : larger.stop = larger.bottom + larger.size := rfl
  have sameCount := without.count
  have poolCount := stock.poolSound.count
  have poolWords := stock.poolSound.words
  have counted := stock.poolSound.counted
  omega

/-- The pieces of a chunk that was taken out of the pool can be put into it. -/
theorem Stock.pushPieces_ensures {count : Nat} (stock : Stock uses pool node loose row)
    (divided : node.Divided node' front back larger first pieces)
    (without : pool.Without rest [larger]) (container : larger.container = node.id) :
    Ensures excuse (Pool.pushPieces { rest with count } node' pieces) fun placed =>
      Pool.Placed { rest with count } placed pieces := by
  have fresh : ∀ piece ∈ pieces, ∀ other ∈ rest.chunks, other.place ≠ piece.place := by
    intro piece member other inRest samePlace
    have sameContainer : other.container = piece.container := congrArg Location.node samePlace
    have sameBottom : other.bottom = piece.bottom := congrArg Location.offset samePlace
    have inside := divided.piece_inside member
    have pieceHere := (divided.isPiece piece member).owned.container
    apply stock.rest_apart without container inRest (sameContainer.trans pieceHere)
    omega
  exact pushAll_ensures (without.filed.withNumbers rest.words count)
    (fun piece member => divided.audit_ensures (List.mem_cons_of_mem first member)) fresh
    divided.distinct

/-- After its pieces were put into the pool, no chunk of it is where the first part is. -/
theorem Stock.first_fresh {count : Nat} {placed : Pool} (stock : Stock uses pool node loose row)
    (divided : node.Divided node' front back larger first pieces)
    (without : pool.Without rest [larger]) (container : larger.container = node.id)
    (isPlaced : Pool.Placed { rest with count } placed pieces) :
    ∀ other ∈ placed.chunks, other.place ≠ first.place := by
  intro other member samePlace
  have sameContainer : other.container = first.container := congrArg Location.node samePlace
  have sameBottom : other.bottom = first.bottom := congrArg Location.offset samePlace
  rw [divided.first_bottom] at sameBottom
  rcases List.mem_append.mp (isPlaced.perm.mem_iff.mp member) with inPieces | inRest
  · have inside := divided.piece_inside inPieces
    omega
  · apply stock.apart_of_without without larger List.mem_cons_self other inRest container
    unfold Chunk.place
    rw [sameContainer, divided.owned.container, sameBottom, container]

/-- Where the pool had no chunk of a kind, all that it has after a chunk was divided are pieces, and
the first part comes before them. -/
theorem Pool.Sound.first_lt {count : Nat} {placed : Pool} (poolSound : pool.Sound uses)
    (divided : node.Divided node' front back larger first pieces)
    (without : pool.Without rest [larger])
    (isPlaced : Pool.Placed { rest with count } placed pieces) (noneThere : pool.ofKind target = [])
    (fixed : target ≠ .humongous) :
    ∀ other ∈ placed.ofKind target, Chunk.freeOrder target first other = .lt := by
  intro other member
  have inPlaced : other ∈ placed.chunks := Pool.mem_chunks.mpr ⟨target, member⟩
  rcases List.mem_append.mp (isPlaced.perm.mem_iff.mp inPlaced) with inPieces | inRest
  · have inside := divided.piece_inside inPieces
    have isBottom := divided.first_bottom
    apply Chunk.freeOrder_eq_lt fixed
    · rw [divided.owned.container, (divided.isPiece other inPieces).owned.container]
    · omega
  · have inPool : other ∈ pool.chunks :=
      without.perm.mem_iff.mpr (List.mem_cons_of_mem larger inRest)
    have old := poolSound.filed.mem_ofKind inPool
    rw [isPlaced.filed.kind target other member, noneThere] at old
    exact absurd old List.not_mem_nil

/-- The stock after a free chunk was divided in the node and its parts were put into the pool. If the
row was coalesced it is coalesced except at the first part then. -/
theorem Stock.of_split {placed : Pool}
    (stock : Stock uses pool node loose (front ++ [larger.block] ++ back))
    (divided : node.Divided node' front back larger first pieces)
    (without : pool.Without rest [larger]) (container : larger.container = node.id)
    (notHumongous : larger.kind ≠ .humongous)
    (isPlaced : Pool.Placed { rest with count := rest.count + pieces.length } placed pieces) :
    Stock uses (placed.push first) node' loose (front ++ (first :: pieces).map Chunk.block ++ back) ∧
      Steady loose pool node (placed.push first) node' ∧
      (Coalesced node.sizes (front ++ [larger.block] ++ back) node.top →
        CoalescedExceptAt node'.sizes (front ++ (first :: pieces).map Chunk.block ++ back) node'.top
          first.bottom) := by
  have isFree : larger ∈ pool.chunks := without.perm.mem_iff.mpr List.mem_cons_self
  have holds := stock.poolSound.holds larger isFree
  have largerFree : larger.isFree = true := holds.free
  have inRow : larger.block ∈ front ++ [larger.block] ++ back := by simp
  have sound := stock.carved.sound _ inRow
  obtain ⟨frontTiles, largerTiles, backTiles⟩ := stock.carved.tiles.around
  have tiles := divided.tiles
  have fresh := stock.first_fresh divided without container isPlaced
  obtain ⟨pushed, pushedFiled⟩ := Pool.push_perm isPlaced.filed fresh
  have restAlike : rest.Alike placed :=
    ⟨isPlaced.isClass, isPlaced.sizes, isPlaced.audited⟩
  have poolAlike : pool.Alike (placed.push first) :=
    (without.toAlike.trans restAlike).trans Pool.alike_push
  have poolPerm : ([larger] ++ (placed.push first).chunks).Perm
      ((first :: pieces) ++ pool.chunks) := by
    have moved : ([larger] ++ (placed.push first).chunks).Perm
        ([larger] ++ (first :: (pieces ++ rest.chunks))) :=
      (pushed.trans (isPlaced.perm.cons first)).append_left [larger]
    have swapped : ([larger] ++ (first :: pieces ++ rest.chunks)).Perm
        ((first :: pieces) ++ ([larger] ++ rest.chunks)) := by
      rw [← List.append_assoc, ← List.append_assoc]
      exact List.perm_append_comm.append_right rest.chunks
    exact (moved.trans swapped).trans (without.perm.symm.append_left _)
  have partsHold : ∀ chunk ∈ first :: pieces, pool.Holds uses chunk := by
    intro chunk member
    obtain ⟨owned, free, empty, unused⟩ := divided.part_owned member
    exact ⟨by rw [stock.sizes]; exact owned.sound, owned.isClass.trans stock.isClass.symm, free,
      empty, by omega⟩
  have partsWords := wordsOf_eq_of_blocks rfl tiles
  have poolSound : (placed.push first).Sound uses := by
    have words : (placed.push first).words = pool.words :=
      (Pool.words_withKind.trans isPlaced.words).trans without.words
    have count : (placed.push first).count = pool.count + pieces.length := by
      rw [← without.count]
      exact Pool.count_withKind.trans isPlaced.count
    apply stock.poolSound.of_perm poolAlike pushedFiled poolPerm partsHold
    · rw [count, List.length_singleton, List.length_cons]
      omega
    · rw [words, wordsOf_cons, wordsOf_nil]
      have end_ : larger.stop = larger.bottom + larger.size := rfl
      omega
    · rw [words]
      exact stock.poolSound.counted
  have partsFree : ∀ block ∈ (first :: pieces).map Chunk.block, block.isFree = true := by
    intro block member
    obtain ⟨chunk, inParts, rfl⟩ := List.mem_map.mp member
    exact (divided.part_owned inParts).2.1
  obtain ⟨after, steady⟩ := stock.exchange largerTiles backTiles
    (List.forall_mem_singleton.mpr largerFree) partsFree divided.alike divided.carved divided.inUse
    poolSound poolAlike poolPerm (List.forall_mem_singleton.mpr container)
    (fun other member => (divided.part_owned member).1.container) rfl rfl divided.same
  refine ⟨after, steady, fun coalesced => ?_⟩
  rw [divided.alike.sizes, divided.top, divided.first_bottom]
  have fixed := sound.suits.fixedSize (show larger.block.kind ≠ .humongous from notHumongous)
  apply CoalescedExceptAt.split coalesced frontTiles largerTiles backTiles tiles fixed
    (sound.bottom_aligned notHumongous)
  intro piece member notFirst small isMedium
  obtain ⟨chunk, inParts, rfl⟩ := List.mem_map.mp member
  rcases List.mem_cons.mp inParts with isFirst | inPieces
  · rw [isFirst] at notFirst
    exact absurd divided.first_bottom notFirst
  · exact (divided.isPiece chunk inPieces).small small isMedium

end CollectorMemory
