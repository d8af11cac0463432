import CollectorMemory.Node.Carving
import CollectorMemory.Proofs.Pool.PutBack

/-!
# Carving from a stock

An aligned chunk is carved after padding that goes to the pool. What was coalesced stays so, since all
new blocks are in use, and each padding chunk is put back by itself. The padding returns to the pool in
order, and the chunk stands at the next offset that suits it.
-/

namespace CollectorMemory

variable {excuse : Prop} {uses : Nat} {pool : Pool} {node : Node} {loose : List Chunk}
  {row : List Block} {chunk : Chunk} {kind : Kind} {size : Nat}

/-- A row stays coalesced where blocks in use are added at its end. -/
theorem Coalesced.extendAll {sizes : ChunkSizes} {blocks : List Block} {top stop : Nat}
    (coalesced : Coalesced sizes row top) (tiles : Tiles top blocks stop)
    (used : ∀ block ∈ blocks, block.isFree = false) : Coalesced sizes (row ++ blocks) stop := by
  induction blocks generalizing row top with
  | nil =>
    have same : top = stop := tiles
    rw [List.append_nil, ← same]
    exact coalesced
  | cons head rest ih =>
    obtain ⟨bottom, positive, later⟩ := tiles
    have end_ : head.stop = head.bottom + head.size := rfl
    rw [List.append_cons]
    exact ih (coalesced.extend bottom (by omega) (used head List.mem_cons_self)) later
      fun block member => used block (List.mem_cons_of_mem head member)

/-- Carving chunks in use at the top of a node restocks it with them. -/
theorem Stock.of_carve {node' : Node} {put : List Chunk} (stock : Stock uses pool node loose row)
    (alike : node.Alike node') (carved : node'.Carved (row ++ put.map Chunk.block))
    (inUse : node'.chunksInUse = node.chunksInUse + put.length)
    (new : ∀ chunk ∈ put, node.Owns chunk ∧ chunk.isFree = false ∧ chunk.useCount ≤ uses)
    (same : ∀ offset < node.top, node.SameAt node' offset) :
    Restocks uses loose pool node row pool node' (put ++ loose) (row ++ put.map Chunk.block) := by
  have blocksUsed : ∀ block ∈ put.map Chunk.block, block.isFree = false := by
    intro block member
    obtain ⟨chunk, inPut, rfl⟩ := List.mem_map.mp member
    exact (new chunk inPut).2.1
  have count := inUseCount_eq_length blocksUsed
  rw [List.length_map] at count
  have newTiles : Tiles node.top (put.map Chunk.block) node'.top := by
    obtain ⟨middle, first, second⟩ := tiles_append.mp carved.tiles
    have isTop : middle = node.top := first.sum_size.symm.trans stock.carved.tiles.sum_size
    rw [← isTop]
    exact second
  have rowEq : row = row ++ [] ++ [] := by simp
  have freshEq : row ++ put.map Chunk.block = row ++ put.map Chunk.block ++ [] := by simp
  have perm : ([] ++ (pool.chunks ++ (put ++ loose))).Perm (put ++ (pool.chunks ++ loose)) := by
    rw [List.nil_append, ← List.append_assoc, ← List.append_assoc]
    exact List.perm_append_comm.append_right loose
  have after : Stock uses pool node' (put ++ loose) (row ++ put.map Chunk.block) := by
    rw [freshEq] at carved ⊢
    have padded := stock
    rw [rowEq] at padded
    apply padded.replace alike carved (by rw [inUse, count]; rfl) stock.poolSound
      (Pool.Alike.refl pool) perm rfl
    · exact blocksIn_eq_map fun chunk member => (new chunk member).1.container
    · intro chunk member container
      rcases List.mem_append.mp member with inPut | inLoose
      · exact new chunk inPut
      · exact stock.looseOwned chunk inLoose container
  refine {
    stock := after
    steady := ⟨alike, Pool.Alike.refl pool, List.Perm.refl _, ?_⟩
    top_le := newTiles.le
    coarser := Coarser.of_append fun block member => (newTiles.bounds member).1
    coalesced := ?_ }
  · intro chunk member container offset _ upper
    have inRow := stock.mem_row (List.mem_append_right _ member) container
    have inside := stock.carved.tiles.bounds inRow
    exact (same offset (show offset < node.top by
      change _ ∧ _ ∧ chunk.stop ≤ node.top at inside
      omega)).word
  · intro coalesced
    rw [alike.sizes]
    exact coalesced.extendAll newTiles blocksUsed

/-- Where the alignment is the specialized size, the next aligned offset from the top is the top. -/
theorem Node.Carved.next_eq_top {start : Nat} (carved : node.Carved row)
    (aligned : start % node.sizes.specialized = 0) (startLe : node.top ≤ start)
    (startLt : start < node.top + node.sizes.specialized) : start = node.top := by
  have le := Nat.le_of_lt_add_of_dvd startLt (Nat.dvd_of_mod_eq_zero aligned)
    (Nat.dvd_of_mod_eq_zero carved.top_whole)
  omega

/-- The next aligned offset from the top is the top or a multiple of the small size. -/
theorem Node.Carved.next_reached {start : Nat} (carved : node.Carved row)
    (suits : node.sizes.Suits kind size) (aligned : start % node.sizes.alignment kind size = 0)
    (startLe : node.top ≤ start) (startLt : start < node.top + node.sizes.alignment kind size) :
    start = node.top ∨ start % node.sizes.small = 0 := by
  cases kind with
  | specialized =>
    rw [show node.sizes.alignment .specialized size = node.sizes.specialized from suits]
      at aligned startLt
    exact Or.inl (carved.next_eq_top aligned startLe startLt)
  | small =>
    rw [show size = node.sizes.small from suits] at aligned
    exact Or.inr aligned
  | medium =>
    rw [show size = node.sizes.medium from suits] at aligned
    exact Or.inr (Nat.mod_eq_zero_of_dvd
      (Nat.dvd_trans node.sizes.small_dvd_medium (Nat.dvd_of_mod_eq_zero aligned)))
  | humongous => exact Or.inl (carved.next_eq_top aligned startLe startLt)

/-- Carve padding up to an offset and a chunk there, and leave the padding with the chunk. -/
def Node.carvePadded (node : Node) (kind : Kind) (size start : Nat) (origin : Origin) :
    Run (Node × List Chunk × Chunk) := do
  let (padded, padding) ← node.padFrom start node.top
  let (full, chunk) ← padded.carve kind size origin
  return (full, padding, chunk)

/-- Carving padding and a chunk returns nothing to the pool. -/
theorem Node.returned_carvePadded (node : Node) (kind : Kind) (size start : Nat) (origin : Origin) :
    (node.carvePadded kind size start origin).returned = [] := by
  unfold Node.carvePadded
  refine Run.returned_bind_eq_nil rfl fun (padded, padding) => ?_
  exact Run.returned_bind_eq_nil rfl fun (full, chunk) => rfl

/-- A chunk is carved with its padding, if there is room for both, before the padding is put back. -/
theorem Node.carveAligned_eq (node : Node) (size : Nat) (origin : Origin) (pool : Pool) :
    node.carveAligned size origin pool = (do
      let kind ← node.sizes.kindOfSize size
      let start ← Count.roundUp node.top (node.sizes.alignment kind size)
      let needed ← Count.add (start - node.top) size
      if node.uncarved < needed then return none
      Run.noteIf (node.top < start) (.padding node.id node.top start)
      let (full, padding, chunk) ← node.carvePadded kind size start origin
      let (pool, after) ← pool.putBackAll full padding
      Run.note (.carved chunk)
      checkIf after.audited do
        pool.audit
        after.audit
        after.auditChunk chunk
      return some (after, pool, chunk)) := by
  unfold Node.carveAligned Node.carvePadded
  simp only [bind_assoc, pure_bind]

/-- Carving padding and a chunk restocks the node with both. -/
theorem Stock.carvePadded_ensures {origin : Origin} {start : Nat}
    (stock : Stock uses pool node loose row) (suits : node.sizes.Suits kind size)
    (aligned : start % node.sizes.alignment kind size = 0) (startLe : node.top ≤ start)
    (startLt : start < node.top + node.sizes.alignment kind size) (short : size < Header.sizeLimit)
    (inside : start + size ≤ node.committed) :
    Ensures excuse (node.carvePadded kind size start origin).outcome fun (full, padding, chunk) =>
      chunk = node.chunkAt kind size start origin false ∧ full.top = start + size ∧
        (∀ other ∈ padding, other.container = node.id) ∧ Pads node.sizes padding node.top start ∧
        ∃ after, Restocks uses loose pool node row pool full (padding ++ chunk :: loose) after := by
  have carved := stock.carved
  have reached := carved.next_reached suits aligned startLe startLt
  unfold Node.carvePadded
  refine Ensures.bindRun (carved.padFrom_ensures rfl startLe reached (by omega)) ?_
  intro (padded, padding) ⟨padAlike, padTop, padCount, padCarved, padNew, pads, padSame⟩
  refine Ensures.bindRun (padCarved.carve_ensures (by rw [padAlike.sizes]; exact suits)
    (by rw [padAlike.sizes, padTop]; exact aligned) short
    (by rw [padTop, padAlike.committed]; exact inside)) ?_
  intro (full, chunk) ⟨isChunk, alike, top, count, fullCarved, same⟩
  have isNodeChunk : chunk = node.chunkAt kind size start origin false := by
    rw [isChunk]
    unfold Node.chunkAt
    rw [padAlike.id, padAlike.isClass, padTop]
  have new : ∀ other ∈ padding ++ [chunk],
      node.Owns other ∧ other.isFree = false ∧ other.useCount ≤ uses := by
    intro other member
    rcases List.mem_append.mp member with inPadding | isLast
    · obtain ⟨owned, used, unused⟩ := padNew other inPadding
      exact ⟨owned, used, by omega⟩
    · rw [List.mem_singleton.mp isLast, isNodeChunk]
      exact ⟨Node.chunkAt_owned origin false suits aligned short, rfl, Nat.zero_le _⟩
  have blocks : (padding ++ [chunk]).map Chunk.block = padding.map Chunk.block ++ [chunk.block] :=
    List.map_append
  have restocks := stock.of_carve (padAlike.trans alike)
    (by rw [blocks, ← List.append_assoc]; exact fullCarved)
    (by rw [count, padCount, List.length_append, List.length_singleton, Nat.add_assoc]) new
    fun offset below => (padSame offset below).trans padAlike (same offset (by omega))
  rw [List.append_assoc] at restocks
  refine ⟨isNodeChunk, by rw [top, padTop], ?_, pads, _, restocks⟩
  exact fun other member => (new other (List.mem_append_left _ member)).1.container

/-- Padding is padding still after it was put back. -/
theorem Pads.freed {sizes : ChunkSizes} {chunks : List Chunk} {start stop : Nat}
    (pads : Pads sizes chunks start stop) : Pads sizes (chunks.map Chunk.freed) start stop where
  tiles := by
    have tiles := pads.tiles
    clear pads
    induction chunks generalizing start with
    | nil => exact tiles
    | cons head rest ih => exact ⟨tiles.1, tiles.2.1, ih tiles.2.2⟩
  sound chunk member := by
    obtain ⟨old, inChunks, rfl⟩ := List.mem_map.mp member
    have sound := pads.sound old inChunks
    exact ⟨sound.suits, sound.aligned, sound.short⟩
  kind chunk member := by
    obtain ⟨old, inChunks, rfl⟩ := List.mem_map.mp member
    exact pads.kind old inChunks

/-- Carving an aligned chunk restocks the node with the chunk, which stands at the next offset that
suits it, and returns the padding in front of it. There is none exactly if there is no room for it. -/
theorem Stock.carveAligned_ensures {origin : Origin} (stock : Stock uses pool node loose row)
    (room : Room excuse pool node) (suits : node.sizes.Suits kind size)
    (short : size ≤ node.reserved → size < Header.sizeLimit)
    (fits : ¬excuse → size < wordLimit ∧
      node.reserved + 2 * node.sizes.alignment kind size < wordLimit) :
    Ensures excuse (node.carveAligned size origin pool).account fun (result, told) =>
      match result with
      | none => ¬node.sizes.Fits kind size node.top node.committed ∧ told = []
      | some (node', pool', chunk) =>
        node.sizes.Fits kind size node.top node.committed ∧
          ∃ start, start = Count.nextMultiple node.top (node.sizes.alignment kind size) ∧
            chunk = node.chunkAt kind size start origin false ∧ node'.top = start + size ∧
            Pads node.sizes told node.top start ∧
            ∃ after, Restocks uses loose pool node row pool' node' (chunk :: loose) after := by
  have carved := stock.carved
  have topLe := carved.top_le
  have committedLe := carved.committed_le
  have uncarved : node.uncarved = node.committed - node.top := rfl
  have alignmentPos := suits.alignment_pos
  have alignmentLe := suits.alignment_le
  rw [Node.carveAligned_eq]
  refine Ensures.bindSilent rfl (ensures_eq (ChunkSizes.kindOfSize_eq_ok_iff.mpr suits)) ?_
  intro found same
  subst found
  refine Ensures.bindSilent rfl (Count.roundUp_ensures (fun _ => alignmentPos) fun hard => by
    have := fits hard
    omega) ?_
  rintro start ⟨_, aligned, startLe, startLt, _, isStart⟩
  -- A size that is larger than its alignment needs no padding.
  have paddingLt : start = node.top ∨ node.sizes.alignment kind size = size := by
    by_cases humongous : kind = .humongous
    · subst humongous
      exact Or.inl (carved.next_eq_top aligned startLe startLt)
    · exact Or.inr (ChunkSizes.alignment_eq humongous)
  refine Ensures.bindSilent rfl (Count.add_ensures fun hard => by have := fits hard; omega) ?_
  rintro needed ⟨rfl, _⟩
  by_cases enough : node.uncarved < start - node.top + size
  · rw [if_pos enough]
    refine ⟨?_, rfl⟩
    intro fits
    unfold ChunkSizes.Fits at fits
    omega
  · rw [if_neg enough]
    refine Ensures.bindSilent (Run.returned_noteIf rfl)
      (ensures_eq (Run.outcome_noteIf _ _)) fun _ _ => ?_
    refine Ensures.bindSilent (node.returned_carvePadded kind size start origin)
      (stock.carvePadded_ensures suits aligned startLe startLt (short (by omega)) (by omega)) ?_
    rintro ⟨full, padding, chunk⟩ ⟨rfl, top, paddingHere, pads, fullRow, restocks⟩
    refine Ensures.bindAccount (restocks.stock.putBackAll_ensures (room.of_steady restocks.steady)
      fun other member => by
        rw [restocks.steady.nodeAlike.id]
        exact paddingHere other member) ?_
    rintro ⟨pool', node'⟩ _ ⟨rfl, topAfter, after, restocksAfter⟩
    have restocksAll := restocks.trans
      (restocksAfter.of_subset (List.subset_cons_of_subset _ (List.Subset.refl loose)))
    have stockAfter := restocksAll.stock
    refine Ensures.bindSilent rfl (ensures_eq (Run.outcome_note _)) fun _ _ => ?_
    refine Ensures.bindSilent rfl (ensures_checkIf fun _ => ?_) ?_
    · apply Ensures.bind stockAfter.poolSound.audit_ensures
      intro _ _
      apply Ensures.bind (stockAfter.carved.audit_ensures stockAfter.inUse)
      intro _ _
      exact stockAfter.auditChunk_ensures List.mem_cons_self restocksAll.steady.nodeAlike.id.symm
    · intro _ _
      refine ⟨?_, start, isStart, rfl, topAfter.trans top, ?_, after, restocksAll⟩
      · unfold ChunkSizes.Fits
        omega
      · change Pads node.sizes (padding.map Chunk.freed ++ []) node.top start
        rw [List.append_nil]
        exact pads.freed

/-- Carving padding and a chunk settles the stock with both. -/
theorem Settled.carvePadded_ensures {origin : Origin} {start : Nat}
    (settled : Settled uses pool node loose row) (suits : node.sizes.Suits kind size)
    (aligned : start % node.sizes.alignment kind size = 0) (startLe : node.top ≤ start)
    (startLt : start < node.top + node.sizes.alignment kind size) (short : size < Header.sizeLimit)
    (inside : start + size ≤ node.committed) :
    Ensures excuse (node.carvePadded kind size start origin).outcome fun (full, padding, chunk) =>
      chunk = node.chunkAt kind size start origin false ∧ full.top = start + size ∧
        Steady loose pool node pool full ∧ (∀ other ∈ padding, other.container = node.id) ∧
        ∃ after, Settled uses pool full (padding ++ chunk :: loose) after ∧
          Coarser row after node.top := by
  apply (settled.toStock.carvePadded_ensures suits aligned startLe startLt short inside).mono
  rintro ⟨full, padding, chunk⟩ ⟨isChunk, top, paddingHere, _, after, restocks⟩
  exact ⟨isChunk, top, restocks.steady, paddingHere, after, restocks.settled settled,
    restocks.coarser⟩

/-- Carving an aligned chunk settles the stock with the chunk; there is none exactly if there is no
room for it. -/
theorem Settled.carveAligned_ensures {origin : Origin} (settled : Settled uses pool node loose row)
    (room : Room excuse pool node) (suits : node.sizes.Suits kind size)
    (short : size ≤ node.reserved → size < Header.sizeLimit)
    (fits : ¬excuse → node.reserved + 2 * size < wordLimit) :
    Ensures excuse (node.carveAligned size origin pool).outcome fun result =>
      match result with
      | none => ¬node.sizes.Fits kind size node.top node.committed
      | some (node', pool', chunk) =>
        node.sizes.Fits kind size node.top node.committed ∧ Steady loose pool node pool' node' ∧
          node.top + size ≤ node'.top ∧ chunk.container = node.id ∧ chunk.Answers kind size ∧
          ∃ after, Settled uses pool' node' (chunk :: loose) after ∧ Coarser row after node.top := by
  have alignmentLe := suits.alignment_le
  apply (settled.toStock.carveAligned_ensures room suits short fun hard => by
    have := fits hard
    omega).outcome
  rintro (_ | ⟨node', pool', chunk⟩) told carved
  · exact carved.1
  · obtain ⟨room, start, isStart, rfl, top, _, after, restocks⟩ := carved
    have startLe := (Count.nextMultiple_bounds node.top suits.alignment_pos).1
    exact ⟨room, restocks.steady, by omega, rfl, ⟨rfl, Nat.le_refl size, rfl⟩, after,
      restocks.settled settled, restocks.coarser⟩

end CollectorMemory
