import CollectorMemory.Proofs.Session.Sound

/-!
# Free memory is merged as far as possible

Where an aligned area of the size of a small or a medium chunk is free as a whole, and chunks start and
end at its ends, it is a single free chunk of that kind. So when everything was put back, no free chunks
are left that could form a larger one. This holds in every session that a run reaches.
-/

namespace CollectorMemory

variable {uses : Nat} {pool : Pool} {node : Node} {loose : List Chunk} {row : List Block} {kind : Kind}
  {start size : Nat} {chunk other : Chunk}

/-- An aligned area of a node that its map shows as free, from one bound of chunks to another. -/
structure Node.FreeArea (node : Node) (kind : Kind) (start size : Nat) : Prop where
  /-- The area is aligned and has the size of a small or a medium chunk. -/
  area : Area node.sizes kind start size
  /-- The area is carved. -/
  inside : start + size ≤ node.top
  /-- No granule of the area is marked in use. -/
  unused : ∀ offset, offset % node.map.granule = 0 → start ≤ offset → offset < start + size →
    node.map.marksInUse offset = false
  /-- A chunk starts where the area does. -/
  starts : node.map.marksStart start = true
  /-- The area ends at the top or where a chunk starts. -/
  ends : start + size = node.top ∨ node.map.marksStart (start + size) = true

/-- What a map shows as a free area can be merged. -/
theorem Node.Carved.mergeable_of_freeArea (carved : node.Carved row)
    (free : node.FreeArea kind start size) : Mergeable row node.top start size := by
  have positive := free.area.positive
  have inside := free.inside
  have sizeWhole := free.area.suits.whole
  have startWhole : start % node.sizes.specialized = 0 :=
    free.area.suits.offset_whole free.area.alignment
  have startBound : IsBound row node.top start :=
    (carved.isBound_iff startWhole (by omega)).mpr free.starts
  refine ⟨inside, startBound, ?_, ?_⟩
  · rcases free.ends with atTop | marked
    · exact Or.inl atTop
    · exact Or.inr ((carved.marksStart_iff (Occupancy.add_whole startWhole sizeWhole)).mp marked)
  · apply (carved.free_iff startBound).mp
    rintro ⟨offset, whole, lower, upper, marked⟩
    rw [← carved.map_granule] at whole
    rw [free.unused offset whole lower upper] at marked
    exact Bool.false_ne_true marked

/-- Chunks of a node that share a word are the same. -/
theorem Stock.eq_of_meet (stock : Stock uses pool node loose row)
    (isThere : chunk ∈ pool.chunks ++ loose) (container : chunk.container = node.id)
    (otherThere : other ∈ pool.chunks ++ loose) (otherContainer : other.container = node.id)
    (chunkFirst : chunk.bottom < other.stop) (otherFirst : other.bottom < chunk.stop) :
    chunk = other := by
  have same : chunk.block = other.block := stock.carved.tiles.eq_of_meet
    (stock.mem_row isThere container) (stock.mem_row otherThere otherContainer) chunkFirst otherFirst
  apply List.inj_on_of_nodup_map stock.nodup_bottom
  · exact mem_within.mpr ⟨isThere, container⟩
  · exact mem_within.mpr ⟨otherThere, otherContainer⟩
  · exact congrArg Block.bottom same

/-- In a settled node, what the map shows as a free area is one free chunk, and no other chunk meets
it. -/
theorem Settled.exists_free (settled : Settled uses pool node loose row)
    (free : node.FreeArea kind start size) :
    ∃ chunk ∈ pool.chunks, chunk.container = node.id ∧ chunk.kind = kind ∧ chunk.bottom = start ∧
      chunk.size = size ∧ ∀ other ∈ pool.chunks ++ loose, other.container = node.id →
        other.bottom < start + size → start < other.stop → other = chunk := by
  have mergeable := settled.carved.mergeable_of_freeArea free
  obtain ⟨block, inRow, rfl, rfl⟩ := settled.coalesced kind start size free.area mergeable
  have positive := free.area.positive
  have nonempty := (settled.carved.tiles.bounds inRow).2.1
  have isFree := mergeable.free block inRow (by omega) nonempty
  obtain ⟨chunk, inPool, container, rfl⟩ := settled.toStock.exists_free inRow isFree
  have suits : node.sizes.Suits chunk.kind chunk.size := (settled.carved.sound _ inRow).suits
  have sameSize : chunk.size = size := free.area.eq_size suits
  refine ⟨chunk, inPool, container, rfl, rfl, sameSize, ?_⟩
  intro other isThere otherContainer otherFirst chunkFirst
  rw [← sameSize] at otherFirst
  exact settled.toStock.eq_of_meet isThere otherContainer (List.mem_append_left _ inPool) container
    otherFirst chunkFirst

namespace Session

variable {options : Options} {opened reached : Session} {operations : List Operation}

/-- In every session that a run reaches, what the map of a node shows as a free area is one free chunk
of the kind of the area, and no other chunk meets it. -/
theorem reached_coalesced (words : options.WordsBelow (2 ^ 55))
    (made : ofOptions options = .ok opened) (done : opened.run operations = .ok reached)
    (space : Space) : ∀ node ∈ (reached.allocator.arena space).list.nodes.toList,
      ∀ kind start size, node.FreeArea kind start size →
        ∃ chunk ∈ (reached.allocator.arena space).pool.chunks, chunk.container = node.id ∧
          chunk.kind = kind ∧ chunk.bottom = start ∧ chunk.size = size ∧
            ∀ other ∈ (reached.allocator.arena space).pool.chunks ++ reached.chunks,
              other.container = node.id → other.bottom < start + size → start < other.stop →
                other = chunk := by
  have chunkWords : options.ChunkWordsBelow Header.sizeLimit := words.chunkWords (by decide)
  obtain ⟨sound, _⟩ := reached_sound made done chunkWords (Or.inr words)
  intro node member kind start size free
  have arenaSound := sound.allocator.arena space
  have isSpace : node.id.space = space :=
    (arenaSound.ordered.space node member).trans (sound.allocator.space space)
  obtain ⟨row, settled⟩ := arenaSound.settled node member
  obtain ⟨chunk, inPool, container, isKind, isBottom, isSize, only⟩ := settled.exists_free free
  refine ⟨chunk, inPool, container, isKind, isBottom, isSize, ?_⟩
  intro other isThere otherContainer otherFirst startFirst
  apply only other ?_ otherContainer otherFirst startFirst
  rcases List.mem_append.mp isThere with otherFree | otherHeld
  · exact List.mem_append_left _ otherFree
  · exact List.mem_append_right _ (mem_inSpace.mpr ⟨otherHeld, by rw [otherContainer, isSpace]⟩)

/-- What is put back in the short run is merged with the free chunk after it. -/
theorem sample_coalesced : ∃ opened reached : Session, ofOptions Options.smallest = .ok opened ∧
    opened.run sample = .ok reached ∧
    ∃ node ∈ (reached.allocator.arena .nonClass).list.nodes.toList, node.FreeArea .small 0 6 ∧
      ∃ chunk ∈ (reached.allocator.arena .nonClass).pool.chunks, chunk.container = node.id ∧
        chunk.kind = .small ∧ chunk.bottom = 0 ∧ chunk.size = 6 ∧
          ∀ other ∈ (reached.allocator.arena .nonClass).pool.chunks ++ reached.chunks,
            other.container = node.id → other.bottom < 0 + 6 → 0 < other.stop → other = chunk := by
  have evaluated : (ofOptions Options.smallest >>= fun session => session.run sample).toOption.map
      (fun reached => (reached.allocator.arena .nonClass).list.nodes.toList.head?.map fun node =>
        (node.top, node.sizes.small, node.map.marksStart 0, node.map.marksStart 6,
          (List.range 6).any node.map.marksInUse)) =
      some (some (12, 6, true, true, false)) := by decide +kernel
  obtain ⟨opened, reached, made, done, view⟩ := exists_reached evaluated
  obtain ⟨node, first, shown⟩ := Option.map_eq_some_iff.mp view
  simp only [Prod.mk.injEq] at shown
  obtain ⟨top, small, starts, ends, unused⟩ := shown
  have member : node ∈ (reached.allocator.arena .nonClass).list.nodes.toList :=
    List.mem_of_head? first
  have free : node.FreeArea .small 0 6 := by
    refine ⟨⟨Or.inl rfl, congrArg Except.ok small, rfl⟩, by omega, ?_, starts, Or.inr ends⟩
    intro offset _ _ below
    exact Bool.eq_false_iff.mpr (List.any_eq_false.mp unused offset (List.mem_range.mpr below))
  exact ⟨opened, reached, made, done, node, member, free,
    reached_coalesced Options.smallest_wordsBelow made done .nonClass node member .small 0 6 free⟩

end Session

end CollectorMemory
