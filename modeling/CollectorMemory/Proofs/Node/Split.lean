import CollectorMemory.Proofs.Node.Merge

/-!
# Splitting on carved nodes

Splitting replaces a free block by a smaller one at its start and by pieces that cover the rest, each
of the largest kind below that of the block that its offset is aligned to. Until the last piece is
placed the node is not carved, so each piece is shown by itself.
-/

namespace CollectorMemory

/-- The smaller kinds have lower codes. -/
theorem Kind.code_le_of_mem_below {kind larger : Kind} (below : kind ∈ larger.below) :
    kind.code ≤ larger.code := by
  cases larger <;> cases kind <;> simp_all [Kind.below, Kind.code]

/-- The smaller kinds are of fixed size. -/
theorem Kind.ne_humongous_of_mem_below {kind larger : Kind} (below : kind ∈ larger.below) :
    kind ≠ .humongous := by
  cases larger <;> cases kind <;> simp_all [Kind.below]

namespace Node

variable {excuse : Prop} {node : Node} {front back : List Block} {larger target : Kind}
  {offset size stop : Nat}

/-- The fitting kind is the largest candidate that an offset is aligned to. -/
theorem fittingKind_ensures {candidates : List Kind} (member : target ∈ candidates)
    (descending : candidates.Pairwise fun left right => right.code < left.code)
    (fixed : ∀ kind ∈ candidates, ∃ size, node.sizes.fixedSize kind = .ok size)
    (aligned : ∀ size, node.sizes.fixedSize target = .ok size → offset % size = 0) :
    Ensures excuse (node.fittingKind offset target candidates) fun kind =>
      kind ∈ candidates ∧ target.code ≤ kind.code ∧
        (∀ size, node.sizes.fixedSize kind = .ok size → offset % size = 0) ∧
        ∀ other ∈ candidates, (∀ size, node.sizes.fixedSize other = .ok size → offset % size = 0) →
          other.code ≤ kind.code := by
  induction candidates with
  | nil => exact absurd member List.not_mem_nil
  | cons head rest ih =>
    obtain ⟨headAbove, restDescending⟩ := List.pairwise_cons.mp descending
    obtain ⟨size, headFixed⟩ := fixed head List.mem_cons_self
    have ordered : target.code ≤ head.code := by
      rcases List.mem_cons.mp member with isHead | inRest
      · rw [isHead]
        exact UInt8.le_refl _
      · exact UInt8.le_of_lt (headAbove target inRest)
    unfold fittingKind
    apply Ensures.bind (ensures_require fun _ => decide_eq_true ordered)
    intro _ _
    apply Ensures.bind (ensures_eq headFixed)
    intro headSize same
    subst headSize
    apply Ensures.bind (Count.isMultiple_ensures (node.sizes.pos_of_fixedSize headFixed))
    rintro multiple rfl
    by_cases fits : offset % size = 0
    · rw [if_pos (beq_iff_eq.mpr fits)]
      refine ⟨List.mem_cons_self, ordered, ?_, ?_⟩
      · intro other otherFixed
        rw [headFixed] at otherFixed
        cases otherFixed
        exact fits
      · intro other inCandidates _
        rcases List.mem_cons.mp inCandidates with isHead | inRest
        · rw [isHead]
          exact UInt8.le_refl _
        · exact UInt8.le_of_lt (headAbove other inRest)
    · rw [if_neg (by simpa using fits)]
      have inRest : target ∈ rest := by
        rcases List.mem_cons.mp member with isHead | inRest
        · rw [← isHead] at headFixed
          exact absurd (aligned size headFixed) fits
        · exact inRest
      apply (ih inRest restDescending fun kind inTail =>
        fixed kind (List.mem_cons_of_mem head inTail)).mono
      rintro kind ⟨found, above, kindAligned, largest⟩
      refine ⟨List.mem_cons_of_mem head found, above, kindAligned, ?_⟩
      intro other inCandidates otherAligned
      rcases List.mem_cons.mp inCandidates with isHead | inTail
      · rw [isHead] at otherAligned
        exact absurd (otherAligned size headFixed) fits
      · exact largest other inTail otherAligned

/-- The kind of the piece at an offset is the largest below that of the split chunk that the offset is
aligned to. -/
theorem pieceKind_ensures (notHumongous : larger ≠ .humongous) (below : target.code < larger.code)
    (fixed : node.sizes.fixedSize target = .ok size) (aligned : offset % size = 0) :
    Ensures excuse (node.fittingKind offset target larger.below) fun kind =>
      ∃ pieceSize, node.sizes.fixedSize kind = .ok pieceSize ∧ offset % pieceSize = 0 ∧
        target.code ≤ kind.code ∧ kind ∈ larger.below ∧
        ∀ other size, other ∈ larger.below → node.sizes.fixedSize other = .ok size →
          offset % size = 0 → other.code ≤ kind.code := by
  have targetAligned : ∀ other, node.sizes.fixedSize target = .ok other → offset % other = 0 := by
    intro other otherFixed
    rw [fixed] at otherFixed
    cases otherFixed
    exact aligned
  have member : target ∈ larger.below := by
    cases larger <;> cases target <;> simp_all [Kind.below, Kind.code]
  have descending : larger.below.Pairwise fun left right => right.code < left.code := by
    cases larger <;> simp [Kind.below, Kind.code]
  have candidatesFixed : ∀ kind ∈ larger.below, ∃ size, node.sizes.fixedSize kind = .ok size := by
    cases larger <;> simp_all [Kind.below, ChunkSizes.fixedSize]
  apply (fittingKind_ensures member descending candidatesFixed targetAligned).mono
  rintro kind ⟨inBelow, above, kindAligned, largest⟩
  obtain ⟨pieceSize, pieceFixed⟩ := candidatesFixed kind inBelow
  refine ⟨pieceSize, pieceFixed, kindAligned pieceSize pieceFixed, above, inBelow, ?_⟩
  intro other otherSize otherBelow otherFixed otherAligned
  apply largest other otherBelow
  intro found isFound
  rw [otherFixed] at isFound
  cases isFound
  exact otherAligned

/-- Placing a piece where nothing is marked shows it and changes nothing outside of its range. -/
theorem placePiece_ensures {kind : Kind} (regular : node.Regular)
    (suits : node.sizes.Suits kind size) (whole : offset % node.sizes.specialized = 0)
    (inside : offset + size ≤ node.top)
    (blank : ∀ other, other % node.sizes.specialized = 0 → offset ≤ other → other < offset + size →
      node.map.marksStart other = false ∧ node.map.marksInUse other = false) :
    Ensures excuse (node.placePiece kind size offset) fun (after, piece) =>
      piece = node.chunkAt kind size offset .split true ∧ node.Alike after ∧
        after.top = node.top ∧ after.chunksInUse = node.chunksInUse ∧ after.Shows piece.block ∧
        ∀ other, other < offset ∨ offset + size ≤ other → node.SameAt after other := by
  have granule := regular.map_granule
  have mapWords := regular.map_words
  have topLe := regular.top_le
  have committedLe := regular.committed_le
  have counted := regular.reserved_lt
  have committed : node.committed = node.words.size := rfl
  have headerLt : 2 < size := suits.header_lt
  have headerWords : Header.words = 2 := rfl
  unfold placePiece
  apply Ensures.bind (Chunk.fresh_ensures headerLt fun _ => by omega)
  rintro chunk rfl
  apply Ensures.bind (Occupancy.setStart_ensures regular.map (by rw [granule]; exact whole)
    (by omega))
  rintro map ⟨mapAlike, mapStarts, mapInUse⟩
  have headerRoom : offset + Header.words ≤ node.words.size := by omega
  refine Ensures.bind (Words.writeHeader_ensures headerRoom) ?_
  rintro words ⟨wordsSize, sentinel, packed, wordsSame⟩
  have alike : node.Alike { node with words, map } := ⟨rfl, rfl, rfl, rfl, wordsSize, mapAlike⟩
  refine ⟨rfl, alike, rfl, rfl, ⟨sentinel, packed, ?_, ?_⟩, ?_⟩
  · intro other otherWhole lower upper
    change other % node.sizes.specialized = 0 at otherWhole
    change map.marksStart other = true ↔ other = offset
    rw [mapStarts other (by rw [granule]; exact otherWhole)]
    exact marked_iff fun _ => (blank other otherWhole lower upper).1
  · intro other otherWhole lower upper
    exact (mapInUse other).trans (blank other otherWhole lower upper).2
  · intro other outside
    refine ⟨?_, ?_, fun _ => mapInUse other⟩
    · exact wordsSame other (by change ¬(offset ≤ other ∧ other < offset + 2); omega)
    · intro otherWhole
      exact (mapStarts other (by rw [granule]; exact otherWhole)).trans (if_neg (by omega))

/-- A piece of a split chunk: a free, empty chunk of the node that was never used, of the largest kind
below that of the split chunk that its bottom is aligned to. -/
structure Piece (node : Node) (larger : Kind) (chunk : Chunk) : Prop where
  /-- The piece belongs to the node. -/
  owned : node.Owns chunk
  /-- The piece is free. -/
  free : chunk.isFree = true
  /-- No word of the piece is handed out. -/
  empty : chunk.top = chunk.payload
  /-- The piece was never used. -/
  unused : chunk.useCount = 0
  /-- The piece is of a lower kind than the split chunk. -/
  below : chunk.kind ∈ larger.below
  /-- No larger kind could stand there. -/
  largest : ∀ other size, other ∈ larger.below → node.sizes.fixedSize other = .ok size →
    chunk.bottom % size = 0 → other.code ≤ chunk.kind.code

/-- A chunk that is a piece stays one where the node stays alike. -/
theorem Piece.of_alike {after : Node} {chunk : Chunk} (piece : after.Piece larger chunk)
    (alike : node.Alike after) : node.Piece larger chunk where
  owned := {
    container := piece.owned.container.trans alike.id
    isClass := piece.owned.isClass.trans alike.isClass
    sound := alike.sizes ▸ piece.owned.sound }
  free := piece.free
  empty := piece.empty
  unused := piece.unused
  below := piece.below
  largest := by rw [← alike.sizes]; exact piece.largest

/-- Of a medium chunk a piece is small wherever a small one can stand. -/
theorem Piece.small {chunk : Chunk} (piece : node.Piece larger chunk)
    (aligned : chunk.bottom % node.sizes.small = 0) (isMedium : larger = .medium) :
    chunk.kind = .small := by
  subst isMedium
  have below := piece.below
  have largest := piece.largest .small node.sizes.small List.mem_cons_self rfl aligned
  cases isKind : chunk.kind <;> simp_all [Kind.below, Kind.code]

/-- The pieces tile what they cover, the node shows them, and nothing else changes. -/
theorem coverRest_ensures {largerSize : Nat} (regular : node.Regular)
    (largerFixed : node.sizes.fixedSize larger = .ok largerSize)
    (fixed : node.sizes.fixedSize target = .ok size) (below : target.code < larger.code)
    (stopAligned : stop % largerSize = 0) (aligned : offset % size = 0) (ordered : offset ≤ stop)
    (inside : stop ≤ node.top)
    (blank : ∀ other, other % node.sizes.specialized = 0 → offset ≤ other → other < stop →
      node.map.marksStart other = false ∧ node.map.marksInUse other = false) :
    Ensures excuse (node.coverRest larger target stop offset) fun (after, pieces) =>
      node.Alike after ∧ after.top = node.top ∧ after.chunksInUse = node.chunksInUse ∧
        Tiles offset (pieces.map Chunk.block) stop ∧
        (∀ piece ∈ pieces, node.Piece larger piece ∧ after.Shows piece.block) ∧
        ∀ other, other < offset ∨ stop ≤ other → node.SameAt after other := by
  have notHumongous := ChunkSizes.ne_humongous_of_fixedSize largerFixed
  induction left : stop - offset using Nat.strong_induction_on generalizing node offset with
  | _ left ih =>
    rw [coverRest]
    by_cases more : offset < stop
    · rw [if_pos more]
      apply Ensures.bind (pieceKind_ensures notHumongous below fixed aligned)
      rintro kind ⟨pieceSize, pieceFixed, pieceAligned, above, inBelow, largest⟩
      have within := Kind.code_le_of_mem_below inBelow
      have suits := ChunkSizes.suits_of_fixedSize pieceFixed
      have positive := node.sizes.pos_of_fixedSize pieceFixed
      have short : pieceSize < Header.sizeLimit :=
        Nat.lt_of_le_of_lt (ChunkSizes.le_medium_of_fixedSize pieceFixed) regular.short
      have alignment : offset % node.sizes.alignment kind pieceSize = 0 := by
        rw [ChunkSizes.alignment_of_fixedSize pieceFixed]
        exact pieceAligned
      have fits : offset + pieceSize ≤ stop :=
        ChunkSizes.fits_of_aligned pieceFixed largerFixed within pieceAligned stopAligned more
      split
      · next fault failed => rw [pieceFixed] at failed; cases failed
      · next found isFixed =>
        have same : found = pieceSize := by
          rw [pieceFixed] at isFixed
          exact (Except.ok.inj isFixed).symm
        subst found
        apply Ensures.bind (ensures_require fun _ => decide_eq_true fits)
        intro _ _
        apply Ensures.bind (placePiece_ensures regular suits (suits.offset_whole alignment)
          (by omega) fun other whole lower upper => blank other whole lower (by omega))
        rintro ⟨placed, piece⟩ ⟨rfl, alike, top, count, shown, same⟩
        have owned := chunkAt_owned .split true suits alignment short
        have placedRegular := regular.of_alike alike (by rw [top]; exact regular.top_le)
        have targetStep : (offset + pieceSize) % size = 0 := by
          have nested := ChunkSizes.dvd_of_code_le fixed pieceFixed above
          exact Nat.mod_eq_zero_of_dvd (Nat.dvd_add (Nat.dvd_of_mod_eq_zero aligned) nested)
        have placedBlank : ∀ other, other % placed.sizes.specialized = 0 →
            offset + pieceSize ≤ other → other < stop →
            placed.map.marksStart other = false ∧ placed.map.marksInUse other = false := by
          intro other whole lower upper
          rw [alike.sizes] at whole
          have unchanged := same other (Or.inr lower)
          rw [unchanged.starts whole, unchanged.inUse whole]
          exact blank other whole (by omega) upper
        apply Ensures.bind (ih (stop - (offset + pieceSize)) (by omega) placedRegular
          (by rw [alike.sizes]; exact largerFixed) (by rw [alike.sizes]; exact fixed) targetStep
          fits (by rw [top]; exact inside) placedBlank rfl)
        rintro ⟨after, rest⟩ ⟨restAlike, restTop, restCount, tiles, pieces, restSame⟩
        refine ⟨alike.trans restAlike, restTop.trans top, restCount.trans count,
          ⟨rfl, positive, tiles⟩, ?_, ?_⟩
        · intro other member
          rcases List.mem_cons.mp member with isPiece | inRest
          · subst isPiece
            refine ⟨⟨owned, rfl, rfl, rfl, inBelow, largest⟩, ?_⟩
            apply shown.frame (by rw [alike.sizes]; exact owned.sound.block) restAlike
            intro place _ upper
            exact restSame place (Or.inl upper)
          · obtain ⟨isPiece, isShown⟩ := pieces other inRest
            exact ⟨isPiece.of_alike alike, isShown⟩
        · intro other outside
          exact (same other (by omega)).trans alike (restSame other (by omega))
    · rw [if_neg more]
      exact ⟨Alike.refl regular, rfl, rfl, by change offset = stop; omega,
        fun piece member => absurd member List.not_mem_nil, fun other _ => SameAt.refl node other⟩

/-- A node after a free chunk of it was divided into a first part and pieces. -/
structure Divided (node after : Node) (front back : List Block) (larger first : Chunk)
    (pieces : List Chunk) : Prop where
  /-- The node stays alike. -/
  alike : node.Alike after
  /-- The top stays. -/
  top : after.top = node.top
  /-- The number of chunks in use stays. -/
  inUse : after.chunksInUse = node.chunksInUse
  /-- The blocks of the parts take the place of that of the chunk. -/
  carved : after.Carved (front ++ (first :: pieces).map Chunk.block ++ back)
  /-- The parts tile the chunk. -/
  tiles : Tiles larger.bottom ((first :: pieces).map Chunk.block) larger.stop
  /-- The pieces are as they should be. -/
  isPiece : ∀ piece ∈ pieces, node.Piece larger.kind piece
  /-- The first part belongs to the node. -/
  owned : node.Owns first
  /-- The first part is free. -/
  free : first.isFree = true
  /-- No word of the first part is handed out. -/
  empty : first.top = first.payload
  /-- The first part was never used. -/
  unused : first.useCount = 0
  /-- Outside of the chunk the node stays the same. -/
  same : ∀ offset, offset < larger.bottom ∨ larger.stop ≤ offset → node.SameAt after offset

/-- Behind its bottom a free block has no marks. -/
theorem Shows.unmarked (shown : node.Shows block) (free : block.isFree = true) {offset : Nat}
    (whole : offset % node.sizes.specialized = 0) (lower : block.bottom < offset)
    (upper : offset < block.stop) :
    node.map.marksStart offset = false ∧ node.map.marksInUse offset = false := by
  have otherLower : block.bottom ≤ offset := by omega
  constructor
  · rw [← Bool.not_eq_true, shown.starts offset whole otherLower upper]
    omega
  · rw [shown.inUse offset whole otherLower upper, free]
    rfl

/-- A shorter free block at the bottom of a free block is shown once its header is written, since the
start mark is there already. -/
theorem Shows.of_start {after : Node} {part : Block} (shown : node.Shows block)
    (alike : node.Alike after) (sameMap : after.map = node.map) (free : block.isFree = true)
    (partFree : part.isFree = true) (bottom : part.bottom = block.bottom)
    (shorter : part.stop ≤ block.stop) (sentinel : after.words.word part.bottom = Header.alive)
    (packed : after.words.word (part.bottom + 1) = (part.header after.isClass).packed) :
    after.Shows part where
  sentinel := sentinel
  packed := packed
  starts offset whole lower upper := by
    rw [alike.sizes] at whole
    rw [sameMap, bottom]
    exact shown.starts offset whole (by omega) (by omega)
  inUse offset whole lower upper := by
    rw [alike.sizes] at whole
    rw [sameMap, partFree, ← free]
    exact shown.inUse offset whole (by omega) (by omega)

/-- A node is divided once the header of a smaller chunk stands at the start of a free chunk and pieces
cover the rest. -/
theorem Carved.divided {larger : Chunk} {words : Words} {after : Node} {pieces : List Chunk}
    (carved : node.Carved (front ++ [larger.block] ++ back)) (free : larger.isFree = true)
    (owned : node.Owns (node.chunkAt target size larger.bottom .split true)) (positive : 0 < size)
    (shorter : larger.bottom + size ≤ larger.stop) (headed : node.Alike { node with words })
    (sentinel : words.word larger.bottom = Header.alive)
    (packed : words.word (larger.bottom + 1) = ((node.chunkAt target size larger.bottom .split
      true).block.header node.isClass).packed)
    (sameWords : ∀ offset, offset < larger.bottom ∨ larger.bottom + size ≤ offset →
      words.word offset = node.words.word offset)
    (alike : Alike { node with words } after) (top : after.top = node.top)
    (inUse : after.chunksInUse = node.chunksInUse)
    (tiles : Tiles (larger.bottom + size) (pieces.map Chunk.block) larger.stop)
    (isPiece : ∀ piece ∈ pieces, Piece { node with words } larger.kind piece ∧
      after.Shows piece.block)
    (same : ∀ offset, offset < larger.bottom + size ∨ larger.stop ≤ offset →
      SameAt { node with words } after offset) :
    node.Divided after front back larger (node.chunkAt target size larger.bottom .split true)
      pieces := by
  have member : larger.block ∈ front ++ [larger.block] ++ back := by simp
  have sameOutside : ∀ offset, offset < larger.bottom ∨ larger.stop ≤ offset →
      node.SameAt after offset := by
    intro offset outside
    have first : node.SameAt { node with words } offset :=
      ⟨sameWords offset (by omega), fun _ => rfl, fun _ => rfl⟩
    exact first.trans headed (same offset (by omega))
  have allTiles : Tiles larger.bottom
      ((node.chunkAt target size larger.bottom .split true :: pieces).map Chunk.block)
      larger.stop := ⟨rfl, positive, tiles⟩
  have allCarved : after.Carved (front ++
      (node.chunkAt target size larger.bottom .split true :: pieces).map Chunk.block ++ back) := by
    obtain ⟨frontTiles, _, backTiles⟩ := carved.tiles.around
    apply carved.replace frontTiles backTiles (headed.trans alike) top allTiles
    · intro block inFresh
      rcases List.mem_cons.mp inFresh with isFirst | inRest
      · rw [isFirst]
        exact owned.sound.block
      · obtain ⟨piece, inPieces, rfl⟩ := List.mem_map.mp inRest
        exact (isPiece piece inPieces).1.owned.sound.block
    · intro block inFresh
      rcases List.mem_cons.mp inFresh with isFirst | inRest
      · rw [isFirst]
        have headedShows : Shows { node with words }
            (node.chunkAt target size larger.bottom .split true).block :=
          (carved.shown _ member).of_start headed rfl free rfl rfl shorter sentinel packed
        apply headedShows.frame owned.sound.block alike
        intro offset _ upper
        exact same offset (Or.inl upper)
      · obtain ⟨piece, inPieces, rfl⟩ := List.mem_map.mp inRest
        exact (isPiece piece inPieces).2
    · exact sameOutside
  exact {
    alike := headed.trans alike
    top := top
    inUse := inUse
    carved := allCarved
    tiles := allTiles
    isPiece := fun piece inPieces => (isPiece piece inPieces).1.of_alike headed
    owned := owned
    free := rfl
    empty := rfl
    unused := rfl
    same := sameOutside }

/-- Splitting a free chunk replaces its block by that of a smaller chunk at its start and by those of
the pieces that cover the rest. -/
theorem Carved.split_ensures {larger : Chunk}
    (carved : node.Carved (front ++ [larger.block] ++ back)) (free : larger.isFree = true)
    (notHumongous : larger.kind ≠ .humongous) (below : target.code < larger.kind.code)
    (fixed : node.sizes.fixedSize target = .ok size) :
    Ensures excuse (node.split larger target) fun (after, first, pieces) =>
      first.kind = target ∧ node.Divided after front back larger first pieces := by
  have member : larger.block ∈ front ++ [larger.block] ++ back := by simp
  have sound := carved.sound _ member
  have shown := carved.shown _ member
  have inside := carved.tiles.bounds member
  have topLe := carved.top_le
  have committedLe := carved.committed_le
  have counted := carved.reserved_lt
  have blockStop : larger.block.stop = larger.stop := rfl
  have chunkStop : larger.stop = larger.bottom + larger.size := rfl
  have committed : node.committed = node.words.size := rfl
  have headerWords : Header.words = 2 := rfl
  have largerFixed := sound.suits.fixedSize notHumongous
  have suits := ChunkSizes.suits_of_fixedSize fixed
  have headerLt : 2 < size := suits.header_lt
  have nested := ChunkSizes.dvd_of_code_le fixed largerFixed (UInt8.le_of_lt below)
  have sizeLe : size ≤ larger.size :=
    Nat.le_of_dvd (by have := sound.suits.header_lt; change 0 < larger.block.size; omega) nested
  have aligned : larger.bottom % larger.size = 0 := sound.bottom_aligned notHumongous
  have targetAligned : larger.bottom % size = 0 :=
    Nat.mod_eq_zero_of_dvd (Nat.dvd_trans nested (Nat.dvd_of_mod_eq_zero aligned))
  have alignment : larger.bottom % node.sizes.alignment target size = 0 := by
    rw [ChunkSizes.alignment_of_fixedSize fixed]
    exact targetAligned
  have owned := chunkAt_owned .split true suits alignment (Nat.lt_of_le_of_lt sizeLe sound.short)
  unfold split
  apply Ensures.bind (ensures_require fun _ => by
    simp [free, below, Kind.isHumongous, notHumongous])
  intro _ _
  apply Ensures.bind (ensures_eq fixed)
  intro targetSize same
  subst targetSize
  apply Ensures.bind (Count.isMultiple_ensures (node.sizes.pos_of_fixedSize fixed))
  rintro multiple rfl
  apply Ensures.bind (ensures_require fun _ => beq_iff_eq.mpr targetAligned)
  intro _ _
  apply Ensures.bind (Words.absorbHeader_ensures (show larger.bottom < node.words.size by omega))
  rintro emptied ⟨emptiedSize, emptiedSame⟩
  apply Ensures.bind (Chunk.fresh_ensures headerLt fun _ => by omega)
  rintro chunk rfl
  have headerRoom : larger.bottom + Header.words ≤ emptied.size := by omega
  refine Ensures.bind (Words.writeHeader_ensures headerRoom) ?_
  rintro words ⟨wordsSize, sentinel, packed, wordsSame⟩
  apply Ensures.bind (Count.add_ensures fun _ => by omega)
  rintro second ⟨rfl, _⟩
  have headed : node.Alike { node with words } :=
    ⟨rfl, rfl, rfl, rfl, wordsSize.trans emptiedSize, Occupancy.Alike.refl carved.map⟩
  have headedRegular := carved.toRegular.of_alike headed carved.top_le
  have sameWords : ∀ offset, offset < larger.bottom ∨ larger.bottom + size ≤ offset →
      words.word offset = node.words.word offset := by
    intro offset outside
    rw [← emptiedSame offset (by omega)]
    exact wordsSame offset (by change ¬(larger.bottom ≤ offset ∧ _ < larger.bottom + 2); omega)
  have blank : ∀ other, other % node.sizes.specialized = 0 → larger.bottom + size ≤ other →
      other < larger.stop → node.map.marksStart other = false ∧ node.map.marksInUse other = false :=
    fun other whole lower upper =>
      shown.unmarked free whole (show larger.bottom < other by omega) upper
  have stopAligned : larger.stop % larger.size = 0 :=
    Nat.mod_eq_zero_of_dvd
      (Nat.dvd_add (Nat.dvd_of_mod_eq_zero aligned) (Nat.dvd_refl larger.size))
  have secondAligned : (larger.bottom + size) % size = 0 :=
    Nat.mod_eq_zero_of_dvd
      (Nat.dvd_add (Nat.dvd_of_mod_eq_zero targetAligned) (Nat.dvd_refl size))
  apply Ensures.bind (coverRest_ensures headedRegular largerFixed fixed below stopAligned
    secondAligned (by omega) inside.2.2 blank)
  rintro ⟨after, pieces⟩ ⟨alike, top, count, tiles, isPiece, same⟩
  have positive : 0 < size := by omega
  have divided := carved.divided free owned positive (by omega) headed sentinel packed sameWords
    alike top count tiles isPiece same
  exact ⟨rfl, divided⟩

end Node

end CollectorMemory
