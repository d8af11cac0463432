import CollectorMemory.Node.Merge
import CollectorMemory.Proofs.Coalesced
import CollectorMemory.Proofs.Node.Carving

/-!
# Merging on carved nodes

Whether an area can be merged is read off the map alone, and says of a carved node that the area is
`Mergeable` in its row. The walk over the headers of an area finds its blocks, and merging replaces
them by a single free block.
-/

namespace CollectorMemory

namespace Node

variable {excuse : Prop} {node : Node} {row front area back : List Block} {start size : Nat}

/-- An area that begins at a bound is free exactly if no granule of it is marked in use. -/
theorem Carved.free_iff (carved : node.Carved row) (startBound : IsBound row node.top start) :
    (¬∃ offset, offset % node.sizes.specialized = 0 ∧ start ≤ offset ∧ offset < start + size ∧
        node.map.marksInUse offset = true) ↔
      ∀ block ∈ row, block.bottom < start + size → start < block.stop → block.isFree = true := by
  constructor
  · intro unmarked block member blockFirst startFirst
    have lower := carved.tiles.bound_apart startBound member
    have nonempty := (carved.tiles.bounds member).2.1
    by_contra used
    apply unmarked
    have bottomWhole := (carved.sound block member).bottom_whole
    refine ⟨block.bottom, bottomWhole, by omega, blockFirst, ?_⟩
    exact (carved.marksInUse_iff bottomWhole).mpr
      ⟨block, member, by simpa using used, Nat.le_refl _, nonempty⟩
  · rintro free ⟨offset, whole, lower, upper, marked⟩
    obtain ⟨block, member, used, blockLower, blockUpper⟩ := (carved.marksInUse_iff whole).mp marked
    have isFree := free block member (by omega) (by omega)
    rw [used] at isFree
    exact Bool.false_ne_true isFree

/-- An offset below the top is a bound exactly if a chunk start is marked there. -/
theorem Carved.isBound_iff (carved : node.Carved row) {offset : Nat}
    (whole : offset % node.sizes.specialized = 0) (below : offset < node.top) :
    IsBound row node.top offset ↔ node.map.marksStart offset = true := by
  rw [carved.marksStart_iff whole]
  constructor
  · rintro (atTop | isBottom)
    · omega
    · exact isBottom
  · exact Or.inr

/-- An area can be merged exactly if the row of the node says so. -/
theorem Carved.canMerge_ensures (carved : node.Carved row)
    (startWhole : start % node.sizes.specialized = 0)
    (sizeWhole : size % node.sizes.specialized = 0) (positive : 0 < size)
    (counted : ¬excuse → start + size < wordLimit) :
    Ensures excuse (node.canMerge start size) fun result =>
      result = true ↔ Mergeable row node.top start size := by
  have granule := carved.map_granule
  have words := carved.map_words
  have topLe := carved.top_le
  have committedLe := carved.committed_le
  have stopWhole := Occupancy.add_whole startWhole sizeWhole
  have refuse : ¬Mergeable row node.top start size →
      (false = true ↔ Mergeable row node.top start size) := fun impossible =>
    ⟨fun absurd_ => absurd absurd_ Bool.false_ne_true, fun mergeable => absurd mergeable impossible⟩
  unfold canMerge
  apply Ensures.bind (Count.add_ensures counted)
  rintro stop ⟨rfl, _⟩
  by_cases outside : node.top < start + size
  · rw [if_pos outside]
    apply refuse
    intro mergeable
    have inside := mergeable.inside
    omega
  · rw [if_neg outside]
    have startIff := carved.isBound_iff startWhole (show start < node.top by omega)
    apply Ensures.bind (Occupancy.startsAt_ensures carved.map
      (by rw [granule]; exact startWhole) (by omega))
    rintro starts rfl
    by_cases marked : node.map.marksStart start = true
    · have startBound := startIff.mpr marked
      have lastStep : IsBound row node.top (start + size) →
          Ensures excuse (do return !(← node.map.anyInUse start size)) fun result =>
            result = true ↔ Mergeable row node.top start size := by
        intro stopBound
        apply Ensures.bind (Occupancy.anyInUse_ensures carved.map
          (by rw [granule]; exact startWhole) (by rw [granule]; exact sizeWhole) (by omega)
          (by omega))
        intro found exists_
        rw [granule] at exists_
        change (!found) = true ↔ _
        rw [Bool.not_eq_true', ← Bool.not_eq_true, exists_, carved.free_iff startBound]
        exact ⟨fun free => ⟨by omega, startBound, stopBound, free⟩, fun mergeable => mergeable.free⟩
      rw [if_neg (by simp [marked])]
      by_cases below : start + size < node.top
      · rw [if_pos below]
        have stopIff := carved.isBound_iff stopWhole below
        apply Ensures.bind (Occupancy.startsAt_ensures carved.map
          (by rw [granule]; exact stopWhole) (by omega))
        rintro starts rfl
        by_cases stopMarked : node.map.marksStart (start + size) = true
        · rw [if_neg (by simp [stopMarked])]
          exact lastStep (stopIff.mpr stopMarked)
        · rw [if_pos (by simpa using stopMarked)]
          exact refuse fun mergeable => stopMarked (stopIff.mp mergeable.stop_bound)
      · rw [if_neg below]
        exact lastStep (Or.inl (by omega))
    · rw [if_pos (by simpa using marked)]
      exact refuse fun mergeable => marked (startIff.mp mergeable.start_bound)

/-- The headers that belong to a row of blocks, with the offsets where they start. -/
def headersOf (node : Node) (blocks : List Block) : List (Nat × Header) :=
  blocks.map fun block => (block.bottom, block.header node.isClass)

/-- The walk over the headers of an area finds the blocks that tile it. -/
theorem headersFrom_ensures {stop offset : Nat} (front back : List Block)
    (carved : node.Carved (front ++ area ++ back)) (tiles : Tiles offset area stop) :
    Ensures excuse (node.headersFrom stop offset) fun result =>
      result = (node.headersOf area, stop) := by
  induction area generalizing front offset with
  | nil =>
    have done : offset = stop := tiles
    rw [headersFrom, if_neg (by omega), done]
    rfl
  | cons head rest ih =>
    obtain ⟨bottom, positive, later⟩ := tiles
    have more := later.le
    have member : head ∈ front ++ head :: rest ++ back := by simp
    have sound := carved.sound head member
    have size := sound.toNat_size_header node.isClass
    have whole : node.Carved (front ++ [head] ++ rest ++ back) := by
      simpa using carved
    have end_ : head.stop = head.bottom + head.size := rfl
    rw [← bottom, headersFrom, if_pos (by omega)]
    apply Ensures.bind (carved.headerAt_ensures member)
    rintro header rfl
    rw [if_pos (by rw [size, Block.isAlive_header]; simpa using positive), size, ← end_]
    apply Ensures.bind (ih (front ++ [head]) whole later)
    rintro result rfl
    rfl

/-- The headers of an area between two bounds are those of the blocks that tile it. -/
theorem Carved.headersIn_ensures (carved : node.Carved (front ++ area ++ back))
    (tiles : Tiles start area (start + size)) (inside : start + size ≤ node.top) :
    Ensures excuse (node.headersIn start size) fun headers => headers = node.headersOf area := by
  have topLe := carved.top_le
  have committedLe := carved.committed_le
  have counted := carved.reserved_lt
  unfold headersIn
  apply Ensures.bind (Count.add_ensures fun _ => by omega)
  rintro stop ⟨rfl, _⟩
  apply Ensures.bind (ensures_require fun _ => decide_eq_true inside)
  intro _ _
  apply Ensures.bind (headersFrom_ensures front back carved tiles)
  rintro result rfl
  apply Ensures.bind (ensures_require fun _ => beq_self_eq_true _)
  intro _ _
  rfl

/-- Overwriting the sentinels of free chunks changes these words alone. -/
theorem absorb_ensures {words : Words} {chunks : List Chunk}
    (free : ∀ chunk ∈ chunks, chunk.isFree = true)
    (inside : ∀ chunk ∈ chunks, chunk.bottom < words.size) :
    Ensures excuse (absorb words chunks) fun after => after.size = words.size ∧
      ∀ offset, (∀ chunk ∈ chunks, chunk.bottom ≠ offset) →
        after.word offset = words.word offset := by
  induction chunks generalizing words with
  | nil => exact ⟨rfl, fun _ _ => rfl⟩
  | cons head rest ih =>
    unfold absorb
    apply Ensures.bind (ensures_require fun _ => free head List.mem_cons_self)
    intro _ _
    apply Ensures.bind (Words.absorbHeader_ensures (inside head List.mem_cons_self))
    rintro first ⟨firstSize, firstSame⟩
    apply (ih (fun chunk member => free chunk (List.mem_cons_of_mem head member))
      (fun chunk member => by
        rw [firstSize]
        exact inside chunk (List.mem_cons_of_mem head member))).mono
    rintro after ⟨size, same⟩
    refine ⟨size.trans firstSize, ?_⟩
    intro offset apart
    rw [same offset fun chunk member => apart chunk (List.mem_cons_of_mem head member)]
    exact firstSame offset (apart head List.mem_cons_self).symm

/-- No granule of an area that free blocks tile is marked in use. -/
theorem Carved.unmarked_of_free (carved : node.Carved (front ++ area ++ back))
    (frontTiles : Tiles 0 front start) (areaTiles : Tiles start area (start + size))
    (backTiles : Tiles (start + size) back node.top) (positive : 0 < size)
    (free : ∀ block ∈ area, block.isFree = true) :
    ¬∃ offset, offset % node.sizes.specialized = 0 ∧ start ≤ offset ∧ offset < start + size ∧
      node.map.marksInUse offset = true := by
  have startBound : IsBound (front ++ area ++ back) node.top start := by
    rcases areaTiles.isBound_start with atStop | ⟨first, member, bottom⟩
    · omega
    · exact Or.inr ⟨first, List.mem_append_left _ (List.mem_append_right _ member), bottom⟩
  apply (carved.free_iff startBound).mpr
  intro block member blockFirst startFirst
  rcases List.mem_append.mp member with inMost | inBack
  · rcases List.mem_append.mp inMost with inFront | inArea
    · have inside := frontTiles.bounds inFront
      omega
    · exact free block inArea
  · have inside := backTiles.bounds inBack
    omega

/-- What a node consists of once the free blocks of an area are merged: there is one header at the start
of the area, and one start mark. -/
theorem Carved.of_merge {target : Kind} {words : Words} {map : Occupancy}
    (carved : node.Carved (front ++ area ++ back)) (frontTiles : Tiles 0 front start)
    (areaTiles : Tiles start area (start + size)) (backTiles : Tiles (start + size) back node.top)
    (isArea : Area node.sizes target start size) (free : ∀ block ∈ area, block.isFree = true)
    (alike : node.Alike { node with words, map }) (sentinel : words.word start = Header.alive)
    (packed : words.word (start + 1) =
      ((node.chunkAt target size start .merge true).block.header node.isClass).packed)
    (sameWords : ∀ offset, offset < start ∨ start + size ≤ offset →
      words.word offset = node.words.word offset)
    (starts : ∀ offset, offset % node.sizes.specialized = 0 → map.marksStart offset =
      if offset = start then true
      else if start ≤ offset ∧ offset < start + size then false
      else node.map.marksStart offset)
    (inUse : ∀ offset, map.marksInUse offset = node.map.marksInUse offset) :
    Carved { node with words, map }
        (front ++ [(node.chunkAt target size start .merge true).block] ++ back) ∧
      ∀ offset, offset < start ∨ start + size ≤ offset →
        node.SameAt { node with words, map } offset := by
  have positive := isArea.positive
  have unmarked := carved.unmarked_of_free frontTiles areaTiles backTiles positive free
  have same : ∀ offset, offset < start ∨ start + size ≤ offset →
      node.SameAt { node with words, map } offset := by
    intro offset outside
    refine ⟨sameWords offset outside, ?_, fun _ => inUse offset⟩
    intro whole
    exact (starts offset whole).trans (by rw [if_neg (by omega), if_neg (by omega)])
  have owned := chunkAt_owned .merge true isArea.suits isArea.alignment
    (Nat.lt_of_le_of_lt isArea.le_medium carved.short)
  have mergedTiles : Tiles start [(node.chunkAt target size start .merge true).block]
      (start + size) := tiles_singleton rfl positive rfl
  refine ⟨?_, same⟩
  apply carved.replace frontTiles backTiles alike rfl mergedTiles
  · exact List.forall_mem_singleton.mpr owned.sound.block
  · rw [List.forall_mem_singleton]
    refine ⟨sentinel, packed, ?_, ?_⟩
    · intro offset whole lower upper
      change map.marksStart offset = true ↔ offset = start
      rw [starts offset whole]
      exact marked_iff fun _ => if_pos ⟨lower, upper⟩
    · intro offset whole lower upper
      change offset % node.sizes.specialized = 0 at whole
      change map.marksInUse offset = false
      rw [inUse offset, ← Bool.not_eq_true]
      exact fun marked => unmarked ⟨offset, whole, lower, upper, marked⟩
  · exact same

/-- Merging the free blocks that tile an area replaces them by a free block and changes nothing
outside of the area. -/
theorem Carved.merge_ensures {target : Kind} {absorbed : List Chunk}
    (carved : node.Carved (front ++ area ++ back)) (frontTiles : Tiles 0 front start)
    (areaTiles : Tiles start area (start + size)) (backTiles : Tiles (start + size) back node.top)
    (isArea : Area node.sizes target start size) (free : ∀ block ∈ area, block.isFree = true)
    (chunksFree : ∀ chunk ∈ absorbed, chunk.isFree = true)
    (chunksInside : ∀ chunk ∈ absorbed, start ≤ chunk.bottom ∧ chunk.bottom < start + size) :
    Ensures excuse (node.merge start target absorbed) fun (after, merged) =>
      merged = node.chunkAt target size start .merge true ∧ node.Alike after ∧
        after.top = node.top ∧ after.chunksInUse = node.chunksInUse ∧
        after.Carved (front ++ [merged.block] ++ back) ∧
        ∀ offset, offset < start ∨ start + size ≤ offset → node.SameAt after offset := by
  have granule := carved.map_granule
  have mapWords := carved.map_words
  have topLe := carved.top_le
  have committedLe := carved.committed_le
  have counted := carved.reserved_lt
  have stopLe := backTiles.le
  have committed : node.committed = node.words.size := rfl
  have suits := isArea.suits
  have headerLt : 2 < size := suits.header_lt
  have headerWords : Header.words = 2 := rfl
  have startWhole : start % node.map.granule = 0 := by
    rw [granule]
    exact suits.offset_whole isArea.alignment
  have sizeWhole : size % node.map.granule = 0 := by
    rw [granule]
    exact suits.whole
  unfold merge
  apply Ensures.bind (ensures_eq isArea.fixed)
  intro targetSize same
  subst targetSize
  apply Ensures.bind (Occupancy.anyInUse_ensures carved.map startWhole sizeWhole (by omega)
    (by omega))
  intro found exists_
  apply Ensures.bind (ensures_require fun _ => by
    rw [Bool.not_eq_true', ← Bool.not_eq_true, exists_, granule]
    exact carved.unmarked_of_free frontTiles areaTiles backTiles (by omega) free)
  intro _ _
  apply Ensures.bind (absorb_ensures chunksFree fun chunk member => by
    have inside := chunksInside chunk member
    omega)
  rintro emptied ⟨emptiedSize, emptiedSame⟩
  apply Ensures.bind (Chunk.fresh_ensures headerLt fun _ => by omega)
  rintro chunk rfl
  apply Ensures.bind (Occupancy.clearStarts_ensures carved.map startWhole sizeWhole (by omega)
    (by omega))
  rintro cleared ⟨clearedAlike, clearedStarts, clearedInUse⟩
  apply Ensures.bind (Occupancy.setStart_ensures clearedAlike.regular
    (by rw [clearedAlike.granule]; exact startWhole) (by rw [clearedAlike.words]; omega))
  rintro map ⟨mapAlike, mapStarts, mapInUse⟩
  have headerRoom : start + Header.words ≤ emptied.size := by omega
  refine Ensures.bind (Words.writeHeader_ensures headerRoom) ?_
  rintro words ⟨wordsSize, sentinel, packed, wordsSame⟩
  have alike : node.Alike { node with words, map } :=
    ⟨rfl, rfl, rfl, rfl, wordsSize.trans emptiedSize, clearedAlike.trans mapAlike⟩
  have sameWords : ∀ offset, offset < start ∨ start + size ≤ offset →
      words.word offset = node.words.word offset := by
    intro offset outside
    rw [← emptiedSame offset fun chunk member => by
      have inside := chunksInside chunk member
      omega]
    exact wordsSame offset (by change ¬(start ≤ offset ∧ offset < start + 2); omega)
  have starts : ∀ offset, offset % node.sizes.specialized = 0 → map.marksStart offset =
      if offset = start then true
      else if start ≤ offset ∧ offset < start + size then false
      else node.map.marksStart offset := by
    intro offset whole
    rw [← granule] at whole
    rw [mapStarts offset (by rw [clearedAlike.granule]; exact whole), clearedStarts offset whole]
  have inUse : ∀ offset, map.marksInUse offset = node.map.marksInUse offset :=
    fun offset => (mapInUse offset).trans (clearedInUse offset)
  obtain ⟨after, same⟩ := carved.of_merge frontTiles areaTiles backTiles isArea free alike sentinel
    packed sameWords starts inUse
  exact ⟨rfl, alike, rfl, rfl, after, same⟩

end Node

end CollectorMemory
