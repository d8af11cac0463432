import CollectorMemory.Node.Access
import CollectorMemory.Node.Carving
import CollectorMemory.Proofs.Node.Audit

/-!
# Steps on carved nodes

Carving adds a block in use at the top, padding adds small and specialized ones up to an alignment,
tagging a chunk changes the free flag of its block, and writing to a payload changes no block. Each
step leaves everything outside of the range it works on as it was.
-/

namespace CollectorMemory

/-- The kind of a padding chunk at an offset: small where the offset is aligned to that, and
specialized elsewhere. -/
def ChunkSizes.paddingKind (sizes : ChunkSizes) (offset : Nat) : Kind :=
  if offset % sizes.small = 0 then .small else .specialized

/-- Chunks that cover an area in order, each of the kind of a padding chunk there. -/
structure Pads (sizes : ChunkSizes) (chunks : List Chunk) (start stop : Nat) : Prop where
  /-- The chunks tile the area. -/
  tiles : Tiles start (chunks.map Chunk.block) stop
  /-- The chunks are sound. -/
  sound : ∀ chunk ∈ chunks, chunk.block.Sound sizes
  /-- The chunks are of the right kinds. -/
  kind : ∀ chunk ∈ chunks, chunk.kind = sizes.paddingKind chunk.bottom

namespace Node

variable {excuse : Prop} {node : Node} {row front back : List Block}

/-- A sound handle of a chunk of a node. -/
structure Owns (node : Node) (chunk : Chunk) : Prop where
  /-- The handle names the node. -/
  container : chunk.container = node.id
  /-- The handle names the space of the node. -/
  isClass : chunk.isClass = node.isClass
  /-- The handle is sound. -/
  sound : chunk.Sound node.sizes

/-- A node that stays alike owns the same chunks. -/
theorem Owns.of_alike {after : Node} {chunk : Chunk} (owned : node.Owns chunk)
    (alike : node.Alike after) : after.Owns chunk where
  container := by rw [alike.id]; exact owned.container
  isClass := by rw [alike.isClass]; exact owned.isClass
  sound := by rw [alike.sizes]; exact owned.sound

/-- The handle of an empty chunk that was never used. -/
def chunkAt (node : Node) (kind : Kind) (size bottom : Nat) (origin : Origin) (isFree : Bool) :
    Chunk where
  container := node.id
  bottom
  size
  top := bottom + Header.words
  kind
  isClass := node.isClass
  sentinel := Header.alive
  origin
  useCount := 0
  isFree

/-- The handle of an empty chunk at a suitable offset belongs to the node. -/
theorem chunkAt_owned {kind : Kind} {size bottom : Nat} (origin : Origin) (isFree : Bool)
    (suits : node.sizes.Suits kind size) (aligned : bottom % node.sizes.alignment kind size = 0)
    (short : size < Header.sizeLimit) : node.Owns (node.chunkAt kind size bottom origin isFree) := by
  have headerLt := suits.header_lt
  refine ⟨rfl, rfl, rfl, ⟨suits, aligned, short⟩, Nat.le_refl _, ?_⟩
  change bottom + Header.words ≤ bottom + size
  omega

/-- What a node consists of once a header stands at its top and the granules behind are marked. -/
theorem Carved.of_carve {kind : Kind} {size : Nat} {origin : Origin} {words : Words} {map : Occupancy}
    (carved : node.Carved row) (suits : node.sizes.Suits kind size)
    (aligned : node.top % node.sizes.alignment kind size = 0) (short : size < Header.sizeLimit)
    (room : node.top + size ≤ node.committed)
    (alike : node.Alike { node with
      words, top := node.top + size, map, chunksInUse := node.chunksInUse + 1 })
    (sentinel : words.word node.top = Header.alive)
    (packed : words.word (node.top + 1) =
      ((node.chunkAt kind size node.top origin false).block.header node.isClass).packed)
    (sameWords : ∀ offset, offset < node.top ∨ node.top + size ≤ offset →
      words.word offset = node.words.word offset)
    (starts : ∀ offset, offset % node.sizes.specialized = 0 → map.marksStart offset =
      if offset = node.top then true else node.map.marksStart offset)
    (inUse : ∀ offset, offset % node.sizes.specialized = 0 → map.marksInUse offset =
      if node.top ≤ offset ∧ offset < node.top + size then true else node.map.marksInUse offset) :
    Carved { node with words, top := node.top + size, map, chunksInUse := node.chunksInUse + 1 }
        (row ++ [(node.chunkAt kind size node.top origin false).block]) ∧
      ∀ offset < node.top, node.SameAt
        { node with words, top := node.top + size, map, chunksInUse := node.chunksInUse + 1 }
        offset := by
  have headerLt := suits.header_lt
  have same : ∀ offset, offset < node.top ∨ node.top + size ≤ offset → node.SameAt
      { node with words, top := node.top + size, map, chunksInUse := node.chunksInUse + 1 }
      offset := by
    intro offset outside
    refine ⟨sameWords offset outside, ?_, ?_⟩
    · intro whole
      exact (starts offset whole).trans (if_neg (by omega))
    · intro whole
      exact (inUse offset whole).trans (if_neg (by omega))
  refine ⟨?_, fun offset below => same offset (Or.inl below)⟩
  have owned := chunkAt_owned origin false suits aligned short
  refine carved.extend alike rfl rfl room owned.sound.block ⟨sentinel, packed, ?_, ?_⟩ same
  · intro offset whole lower upper
    change offset % node.sizes.specialized = 0 at whole
    change map.marksStart offset = true ↔ offset = node.top
    rw [starts offset whole]
    exact marked_iff fun _ => (carved.blank offset whole lower).1
  · intro offset whole lower upper
    change offset % node.sizes.specialized = 0 at whole
    change map.marksInUse offset = true
    rw [inUse offset whole]
    exact if_pos ⟨lower, upper⟩

/-- Carving a chunk that suits the top of a node and fits into what is committed. -/
theorem Carved.carve_ensures {kind : Kind} {size : Nat} {origin : Origin}
    (carved : node.Carved row) (suits : node.sizes.Suits kind size)
    (aligned : node.top % node.sizes.alignment kind size = 0) (short : size < Header.sizeLimit)
    (room : node.top + size ≤ node.committed) :
    Ensures excuse (node.carve kind size origin) fun (after, chunk) =>
      chunk = node.chunkAt kind size node.top origin false ∧ node.Alike after ∧
        after.top = node.top + size ∧ after.chunksInUse = node.chunksInUse + 1 ∧
        after.Carved (row ++ [chunk.block]) ∧
        ∀ offset < node.top, node.SameAt after offset := by
  have committedLe := carved.committed_le
  have counted := carved.reserved_lt
  have granule := carved.map_granule
  have words := carved.map_words
  have headerLt : 2 < size := suits.header_lt
  have committed : node.committed = node.words.size := rfl
  have headerWords : Header.words = 2 := rfl
  have topWhole : node.top % node.map.granule = 0 := by
    rw [granule]
    exact carved.top_whole
  have sizeWhole : size % node.map.granule = 0 := by
    rw [granule]
    exact suits.whole
  unfold carve
  apply Ensures.bind (Count.add_ensures fun _ => by omega)
  rintro top ⟨rfl, _⟩
  apply Ensures.bind (ensures_require fun _ => decide_eq_true room)
  intro _ _
  apply Ensures.bind (Chunk.fresh_ensures headerLt fun _ => by omega)
  rintro chunk rfl
  apply Ensures.bind (Occupancy.setStart_ensures carved.map topWhole
    (show node.top < node.map.words by omega))
  rintro marked ⟨markedAlike, markedStarts, markedInUse⟩
  apply Ensures.bind (Occupancy.setInUse_ensures markedAlike.regular
    (by rw [markedAlike.granule]; exact topWhole) (by rw [markedAlike.granule]; exact sizeWhole)
    (by rw [markedAlike.words]; omega)
    (show node.top + size ≤ marked.words by rw [markedAlike.words]; omega))
  rintro map ⟨mapAlike, mapInUse, mapStarts⟩
  apply Ensures.bind (Words.writeHeader_ensures
    (show node.top + Header.words ≤ node.words.size by omega))
  rintro headed ⟨headedSize, sentinel, packed, headedSame⟩
  apply Ensures.bind (Words.fillIf_ensures
    (show node.top + Header.words + (size - Header.words) ≤ headed.size by omega))
  rintro filled ⟨filledSize, filledSame⟩
  have bottomKept : ∀ offset, offset < node.top + 2 → filled.word offset = headed.word offset :=
    fun offset below => filledSame offset (by change ¬(node.top + 2 ≤ _ ∧ _); omega)
  have alike : node.Alike { node with
      words := filled, top := node.top + size, map, chunksInUse := node.chunksInUse + 1 } :=
    ⟨rfl, rfl, rfl, rfl, by change filled.size = node.words.size; omega,
      markedAlike.trans mapAlike⟩
  have sameWords : ∀ offset, offset < node.top ∨ node.top + size ≤ offset →
      filled.word offset = node.words.word offset := by
    intro offset outside
    rw [filledSame offset (by change ¬(node.top + 2 ≤ _ ∧ _ < node.top + 2 + _); omega)]
    exact headedSame offset (by change ¬(node.top ≤ _ ∧ _ < node.top + 2); omega)
  have starts : ∀ offset, offset % node.sizes.specialized = 0 → map.marksStart offset =
      if offset = node.top then true else node.map.marksStart offset := by
    intro offset whole
    rw [← granule] at whole
    exact (mapStarts offset).trans (markedStarts offset whole)
  have inUse : ∀ offset, offset % node.sizes.specialized = 0 → map.marksInUse offset =
      if node.top ≤ offset ∧ offset < node.top + size then true
      else node.map.marksInUse offset := by
    intro offset whole
    rw [← granule, ← markedAlike.granule] at whole
    rw [mapInUse offset whole, markedInUse offset]
  have sentinelKept : filled.word node.top = Header.alive := by
    rw [bottomKept _ (by omega)]
    exact sentinel
  have packedKept : filled.word (node.top + 1) =
      ((node.chunkAt kind size node.top origin false).block.header node.isClass).packed := by
    rw [bottomKept _ (by omega)]
    exact packed
  obtain ⟨after, same⟩ := carved.of_carve suits aligned short room alike sentinelKept packedKept
    sameWords starts inUse
  exact ⟨rfl, alike, rfl, rfl, after, same⟩

/-- The padding chunk at an offset is of the kind for that. It suits its offset and ends no later than
the next multiple of the small size. -/
theorem paddingSize_ensures {here : Nat} (whole : here % node.sizes.specialized = 0) :
    Ensures excuse (node.paddingSize here) fun size =>
      node.sizes.Suits (node.sizes.paddingKind here) size.val ∧
      here % node.sizes.alignment (node.sizes.paddingKind here) size.val = 0 ∧
      size.val ≤ node.sizes.medium ∧
      ∀ stop, stop % node.sizes.small = 0 → here < stop → here + size.val ≤ stop := by
  have specializedLt := node.sizes.specialized_lt
  have smallLt := node.sizes.small_lt
  unfold ChunkSizes.paddingKind
  unfold paddingSize
  apply Ensures.bind (Count.isMultiple_ensures node.sizes.small_pos)
  rintro isSmall rfl
  by_cases small : here % node.sizes.small = 0
  · rw [if_pos (beq_iff_eq.mpr small)]
    simp only [if_pos small]
    refine ⟨rfl, small, by change node.sizes.small ≤ _; omega, ?_⟩
    intro stop stopSmall below
    have gap := (Nat.dvd_sub (Nat.dvd_of_mod_eq_zero stopSmall) (Nat.dvd_of_mod_eq_zero small))
    have least := Nat.le_of_dvd (by omega) gap
    change here + node.sizes.small ≤ stop
    omega
  · rw [if_neg (by simpa using small)]
    apply Ensures.bind (Count.isMultiple_ensures node.sizes.specialized_pos)
    rintro isWhole rfl
    apply Ensures.bind (ensures_require fun _ => beq_iff_eq.mpr whole)
    intro _ _
    simp only [if_neg small]
    refine ⟨rfl, whole, by change node.sizes.specialized ≤ _; omega, ?_⟩
    intro stop stopSmall below
    have stopWhole := Nat.dvd_trans node.sizes.specialized_dvd_small
      (Nat.dvd_of_mod_eq_zero stopSmall)
    have gap := (Nat.dvd_sub stopWhole (Nat.dvd_of_mod_eq_zero whole))
    have least := Nat.le_of_dvd (by omega) gap
    change here + node.sizes.specialized ≤ stop
    omega

/-- Carving padding from the top up to an offset that is aligned to the small size. -/
theorem Carved.padFrom_ensures {stop here : Nat} (carved : node.Carved row)
    (isTop : here = node.top) (ordered : here ≤ stop)
    (reached : stop = here ∨ stop % node.sizes.small = 0) (room : stop ≤ node.committed) :
    Ensures excuse (node.padFrom stop here) fun (after, padding) =>
      node.Alike after ∧ after.top = stop ∧
        after.chunksInUse = node.chunksInUse + padding.length ∧
        after.Carved (row ++ padding.map Chunk.block) ∧
        (∀ chunk ∈ padding, node.Owns chunk ∧ chunk.isFree = false ∧ chunk.useCount = 0) ∧
        Pads node.sizes padding here stop ∧ ∀ offset < node.top, node.SameAt after offset := by
  induction left : stop - here using Nat.strong_induction_on generalizing node row here with
  | _ left ih =>
    rw [padFrom]
    by_cases more : here < stop
    · have stopSmall := reached.resolve_left (by omega)
      have short := carved.short
      rw [if_pos more]
      have hereWhole : here % node.sizes.specialized = 0 := by
        rw [isTop]
        exact carved.top_whole
      apply Ensures.bind (paddingSize_ensures hereWhole)
      rintro ⟨size, positive⟩ ⟨suits, aligned, small, within⟩
      have inside := within stop stopSmall more
      change node.sizes.Suits (node.sizes.paddingKind here) size at suits
      change here % node.sizes.alignment (node.sizes.paddingKind here) size = 0 at aligned
      change size ≤ node.sizes.medium at small
      change here + size ≤ stop at inside
      apply Ensures.bind (ensures_require fun _ => decide_eq_true inside)
      intro _ _
      rw [ChunkSizes.kindOfSize_eq_ok_iff.mpr suits]
      apply Ensures.bind (carved.carve_ensures suits (by rw [← isTop]; exact aligned)
        (by omega) (by omega))
      rintro ⟨padded, chunk⟩ ⟨rfl, alike, top, count, paddedCarved, same⟩
      apply Ensures.bind (ih (stop - (here + size)) (by omega) paddedCarved (by omega) inside
        (Or.inr (by rw [alike.sizes]; exact stopSmall)) (by rw [alike.committed]; exact room) rfl)
      rintro ⟨after, rest⟩ ⟨restAlike, restTop, restCount, restCarved, restOwned, restPads, restSame⟩
      have chunkOwned : node.Owns (node.chunkAt (node.sizes.paddingKind here) size node.top .pad
          false) :=
        chunkAt_owned .pad false suits (by rw [← isTop]; exact aligned)
          (Nat.lt_of_le_of_lt small short)
      rw [alike.sizes] at restPads
      refine ⟨alike.trans restAlike, restTop, ?_, ?_, ?_, ⟨⟨isTop.symm, positive, ?_⟩, ?_, ?_⟩, ?_⟩
      · rw [restCount, count, List.length_cons]
        omega
      · rw [List.map_cons, List.append_cons]
        exact restCarved
      · intro other member
        rcases List.mem_cons.mp member with rfl | inRest
        · exact ⟨chunkOwned, rfl, rfl⟩
        · obtain ⟨owned, used, uses⟩ := restOwned other inRest
          exact ⟨⟨owned.container.trans alike.id, owned.isClass.trans alike.isClass,
            alike.sizes ▸ owned.sound⟩, used, uses⟩
      · rw [isTop] at restPads
        exact restPads.tiles
      · exact List.forall_mem_cons.mpr ⟨chunkOwned.sound.block, restPads.sound⟩
      · refine List.forall_mem_cons.mpr ⟨?_, restPads.kind⟩
        rw [isTop]
        rfl
      · intro offset below
        exact (same offset below).trans alike (restSame offset (by omega))
    · rw [if_neg more]
      refine ⟨Alike.refl carved.toRegular, by omega, rfl, ?_, List.forall_mem_nil _,
        ⟨show here = stop by omega, List.forall_mem_nil _, List.forall_mem_nil _⟩,
        fun offset _ => SameAt.refl node offset⟩
      rw [List.map_nil, List.append_nil]
      exact carved

/-- Tagging a chunk changes the free flag of its block and nothing outside of its range. -/
theorem Carved.setInUse_ensures {chunk : Chunk} {inUse : Bool}
    (carved : node.Carved (front ++ [chunk.block] ++ back)) (owned : node.Owns chunk) :
    Ensures excuse (node.setInUse chunk inUse) fun (after, tagged) =>
      tagged = chunk.withFree (!inUse) ∧ node.Alike after ∧ after.top = node.top ∧
        after.chunksInUse = node.chunksInUse ∧
        after.Carved (front ++ [tagged.block] ++ back) ∧
        (∀ offset, offset < chunk.bottom ∨ chunk.stop ≤ offset → node.SameAt after offset) ∧
        ∀ offset, chunk.payload ≤ offset →
          after.words.word offset = node.words.word offset := by
  have member : chunk.block ∈ front ++ [chunk.block] ++ back := by simp
  have sound := carved.sound _ member
  have shown := carved.shown _ member
  have inside := carved.tiles.bounds member
  have granule := carved.map_granule
  have words := carved.map_words
  have topLe := carved.top_le
  have committedLe := carved.committed_le
  have headerLt : 2 < chunk.size := sound.suits.header_lt
  have blockStop : chunk.block.stop = chunk.bottom + chunk.size := rfl
  have chunkStop : chunk.stop = chunk.bottom + chunk.size := rfl
  have payload : chunk.payload = chunk.bottom + 2 := rfl
  have headerWords : Header.words = 2 := rfl
  have committed : node.committed = node.words.size := rfl
  have bottomWhole : chunk.bottom % node.map.granule = 0 := by
    rw [granule]
    exact sound.bottom_whole
  have sizeWhole : chunk.size % node.map.granule = 0 := by
    rw [granule]
    exact sound.suits.whole
  unfold setInUse
  apply Ensures.bind (ensures_require fun _ => beq_iff_eq.mpr owned.container)
  intro _ _
  have headerRoom : (chunk.withFree (!inUse)).bottom + Header.words ≤ node.words.size := by
    change chunk.bottom + 2 ≤ node.words.size
    omega
  refine Ensures.bind (Words.writeHeader_ensures headerRoom) ?_
  rintro headed ⟨headedSize, sentinel, packed, headedSame⟩
  apply Ensures.bind (Occupancy.setInUse_ensures carved.map bottomWhole sizeWhole
    (show chunk.bottom < node.map.words by omega)
    (show chunk.bottom + chunk.size ≤ node.map.words by omega))
  rintro map ⟨mapAlike, mapInUse, mapStarts⟩
  have alike : node.Alike { node with words := headed, map } :=
    ⟨rfl, rfl, rfl, rfl, headedSize, mapAlike⟩
  have same : ∀ offset, offset < chunk.bottom ∨ chunk.stop ≤ offset →
      node.SameAt { node with words := headed, map } offset := by
    intro offset outside
    refine ⟨?_, fun _ => mapStarts offset, ?_⟩
    · exact headedSame offset (by change ¬(chunk.bottom ≤ _ ∧ _ < chunk.bottom + 2); omega)
    · intro whole
      rw [← granule] at whole
      exact (mapInUse offset whole).trans
        (if_neg (by omega))
  refine ⟨rfl, alike, rfl, rfl, ?_, same, ?_⟩
  · obtain ⟨frontTiles, chunkTiles, backTiles⟩ := carved.tiles.around
    have retagged : Tiles chunk.bottom [(chunk.withFree (!inUse)).block] chunk.block.stop :=
      chunkTiles
    apply carved.replace frontTiles backTiles alike rfl retagged
    · rw [List.forall_mem_singleton]
      exact ⟨sound.suits, sound.aligned, sound.short⟩
    · rw [List.forall_mem_singleton]
      refine ⟨?_, ?_, ?_, ?_⟩
      · exact sentinel.trans owned.sound.alive
      · change headed.word (chunk.bottom + 1) = _
        refine packed.trans ?_
        rw [Chunk.header_eq (show (chunk.withFree (!inUse)).sentinel = _ from owned.sound.alive)]
        exact congrArg (fun flag => (Block.header flag _).packed) owned.isClass
      · intro offset whole lower upper
        exact (mapStarts offset) ▸ shown.starts offset whole lower upper
      · intro offset whole lower upper
        change offset % node.sizes.specialized = 0 at whole
        rw [← granule] at whole
        change map.marksInUse offset = !(!inUse)
        rw [mapInUse offset whole, Bool.not_not]
        exact if_pos ⟨lower, upper⟩
    · exact same
  · intro offset above
    exact headedSame offset (by change ¬(chunk.bottom ≤ _ ∧ _ < chunk.bottom + 2); omega)

/-- A node whose memory changes in payloads alone consists of the same blocks. -/
theorem Carved.of_payload {words : Words} (carved : node.Carved row)
    (size : words.size = node.words.size) (same : ∀ block ∈ row,
      words.word block.bottom = node.words.word block.bottom ∧
        words.word (block.bottom + 1) = node.words.word (block.bottom + 1)) :
    { node with words }.Carved row := by
  have alike : node.Alike { node with words } :=
    ⟨rfl, rfl, rfl, rfl, size, Occupancy.Alike.refl carved.map⟩
  refine { carved.toRegular.of_alike alike carved.top_le with
    tiles := carved.tiles, sound := carved.sound, shown := ?_, blank := carved.blank }
  intro block member
  have shown := carved.shown block member
  obtain ⟨first, second⟩ := same block member
  exact ⟨first.trans shown.sentinel, second.trans shown.packed, shown.starts, shown.inUse⟩

/-- Writing in the payload of a block keeps the headers of all blocks. -/
theorem Carved.headers_same {block : Block} {words : Words} {low high : Nat}
    (carved : node.Carved row) (member : block ∈ row) (lower : block.bottom + Header.words ≤ low)
    (upper : high ≤ block.stop)
    (kept : ∀ offset, ¬(low ≤ offset ∧ offset < high) →
      words.word offset = node.words.word offset) :
    ∀ other ∈ row, words.word other.bottom = node.words.word other.bottom ∧
      words.word (other.bottom + 1) = node.words.word (other.bottom + 1) := by
  have headerWords : Header.words = 2 := rfl
  intro other inRow
  have headerLt : 2 < other.size := (carved.sound other inRow).suits.header_lt
  have otherStop : other.stop = other.bottom + other.size := rfl
  by_cases same : other = block
  · subst same
    exact ⟨kept _ (by omega), kept _ (by omega)⟩
  · have apart : other.stop ≤ block.bottom ∨ block.stop ≤ other.bottom := by
      rcases Nat.lt_or_ge other.bottom block.stop with first | after
      · rcases Nat.lt_or_ge block.bottom other.stop with second | before
        · exact absurd (carved.tiles.eq_of_meet inRow member first second) same
        · exact Or.inl before
      · exact Or.inr after
    exact ⟨kept _ (by omega), kept _ (by omega)⟩

/-- Words below the top of a node can be accessed. -/
theorem Carved.checkAccess_ensures {length : Nat} (carved : node.Carved row) (place : Location)
    (container : place.node = node.id) (inside : place.offset + length ≤ node.top) :
    Ensures excuse (node.checkAccess place length) fun _ => True := by
  have topLe := carved.top_le
  have committedLe := carved.committed_le
  have counted := carved.reserved_lt
  unfold checkAccess
  apply Ensures.bind (ensures_require fun _ => beq_iff_eq.mpr container)
  intro _ _
  apply Ensures.bind (Count.add_ensures fun _ => by omega)
  rintro stop ⟨rfl, _⟩
  exact (ensures_require fun _ => decide_eq_true inside).mono fun _ _ => trivial

/-- Overwriting the payload of a chunk, where this is asked for, changes no block and no word outside
of the payload. -/
theorem Carved.fillPayloadIf_ensures {asked : Bool} {chunk : Chunk} {value : UInt64}
    (carved : node.Carved row) (container : chunk.container = node.id)
    (member : chunk.block ∈ row) :
    Ensures excuse (node.fillPayloadIf asked chunk value) fun after =>
      ∃ words, after = { node with words } ∧ after.Carved row ∧ words.size = node.words.size ∧
        ∀ offset, offset < chunk.bottom ∨ chunk.stop ≤ offset →
          words.word offset = node.words.word offset := by
  have inside := carved.tiles.bounds member
  have headerLt : 2 < chunk.size := (carved.sound _ member).suits.header_lt
  have topLe := carved.top_le
  have committedLe := carved.committed_le
  have counted := carved.reserved_lt
  have blockStop : chunk.block.stop = chunk.bottom + chunk.size := rfl
  have chunkStop : chunk.stop = chunk.bottom + chunk.size := rfl
  have headerWords : Header.words = 2 := rfl
  have payload : chunk.payload = chunk.bottom + 2 := rfl
  have committed : node.committed = node.words.size := rfl
  unfold fillPayloadIf
  cases asked with
  | false => exact ⟨node.words, rfl, carved, rfl, fun _ _ => rfl⟩
  | true =>
    rw [if_pos rfl]
    unfold fillPayload fillWords
    apply Ensures.bind (carved.checkAccess_ensures chunk.payloadPlace container
      (show chunk.payload + (chunk.size - Header.words) ≤ node.top by omega))
    intro _ _
    apply Ensures.bind (Words.fill_ensures
      (show chunk.payload + (chunk.size - Header.words) ≤ node.words.size by omega))
    rintro words ⟨size, kept⟩
    have headers := carved.headers_same member (Nat.le_refl _)
      (show chunk.payload + (chunk.size - Header.words) ≤ chunk.block.stop by omega) kept
    refine ⟨words, rfl, carved.of_payload size headers, size, ?_⟩
    intro offset outside
    exact kept offset (by omega)

/-- Counting one chunk in use less. -/
theorem dropInUse_ensures (positive : 0 < node.chunksInUse) :
    Ensures excuse node.dropInUse fun after =>
      after = { node with chunksInUse := node.chunksInUse - 1 } := by
  unfold dropInUse
  apply Ensures.bind (ensures_require fun _ => decide_eq_true positive)
  intro _ _
  rfl

/-- The number of chunks in use does not matter for what a node consists of. -/
theorem Carved.with_chunksInUse (carved : node.Carved row) (chunksInUse : Nat) :
    { node with chunksInUse }.Carved row :=
  { carved.toRegular with
    tiles := carved.tiles, sound := carved.sound, blank := carved.blank
    shown := fun block member =>
      let shown := carved.shown block member
      ⟨shown.sentinel, shown.packed, shown.starts, shown.inUse⟩ }

end Node

end CollectorMemory
