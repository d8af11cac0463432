import CollectorMemory.Proofs.Allocator.Sound
import CollectorMemory.Proofs.Chunk.Handle

/-!
# Access to the words of a chunk that is held

Reading and writing go through the allocated part of a chunk that a user holds. Reading gives the words
of the node of the chunk. Writing changes the words of the range and no others, so it spares all other
chunks that are held and all headers.
-/

namespace CollectorMemory

variable {excuse : Prop} {uses length : Nat} {allocator : Allocator} {held loose : List Chunk}
  {chunk : Chunk} {place : Location} {data : List UInt64} {pool : Pool} {node : Node}
  {row : List Block}

/-- The access to a range passes if and only if the range is allotted. -/
theorem Allocator.checkAccess_ensures (counted : chunk.top < wordLimit)
    (allots : ¬excuse → chunk.Allots place length) :
    Ensures excuse (Allocator.checkAccess chunk place length) fun _ => chunk.Allots place length := by
  unfold Allocator.checkAccess
  apply Ensures.bind (ensures_require fun hard => by
    obtain ⟨node, payloadLe, _⟩ := allots hard
    simp [node, payloadLe])
  intro _ first
  rw [Bool.and_eq_true, beq_iff_eq, decide_eq_true_eq] at first
  apply Ensures.bind (Count.add_ensures fun hard =>
    Nat.lt_of_le_of_lt (allots hard).le_top counted)
  rintro stop ⟨rfl, _⟩
  apply (ensures_require fun hard => decide_eq_true (allots hard).le_top).mono
  intro _ second
  exact ⟨first.1, first.2, of_decide_eq_true second⟩

/-- Writing below the top of a node changes the words of the range alone. -/
theorem Node.Carved.writeWords_ensures (carved : node.Carved row) (container : place.node = node.id)
    (inside : place.offset + data.length ≤ node.top) :
    Ensures excuse (node.writeWords place data) fun after =>
      ∃ words, after = { node with words } ∧ words.size = node.words.size ∧
        ∀ offset, words.word offset =
          if place.offset ≤ offset ∧ offset < place.offset + data.length then
            data.getD (offset - place.offset) 0
          else node.words.word offset := by
  have topLe := carved.top_le
  unfold Node.writeWords
  apply Ensures.bind (carved.checkAccess_ensures place container inside)
  intro _ _
  apply Ensures.bind (Words.write_ensures (Nat.le_trans inside topLe))
  rintro words ⟨size, written⟩
  exact ⟨words, rfl, size, written⟩

/-- A carved node stays so where words change in the payload of a block. -/
theorem Node.Carved.written {block : Block} {words : Words} {low high : Nat}
    (carved : node.Carved row) (member : block ∈ row) (lower : block.bottom + Header.words ≤ low)
    (upper : high ≤ block.stop) (size : words.size = node.words.size)
    (kept : ∀ offset, ¬(low ≤ offset ∧ offset < high) →
      words.word offset = node.words.word offset) :
    Node.Carved { node with words } row ∧ node.Alike { node with words } :=
  ⟨carved.of_payload size (carved.headers_same member lower upper kept), rfl, rfl, rfl, rfl, size,
    Occupancy.Alike.refl carved.map⟩

/-- The stock of a node after words were written in the payload of a loose chunk. -/
theorem Settled.of_write {words : Words} {low high : Nat}
    (settled : Settled uses pool node (chunk :: loose) row) (container : chunk.container = node.id)
    (size : words.size = node.words.size) (lower : chunk.payload ≤ low) (upper : high ≤ chunk.stop)
    (kept : ∀ offset, ¬(low ≤ offset ∧ offset < high) →
      words.word offset = node.words.word offset) :
    Settled uses pool { node with words } (chunk :: loose) row ∧
      Steady loose pool node pool { node with words } := by
  have payload : chunk.payload = chunk.bottom + Header.words := rfl
  have inRow := settled.toStock.mem_row (List.mem_append_right _ List.mem_cons_self) container
  obtain ⟨carved, alike⟩ := settled.carved.written inRow lower upper size kept
  constructor
  · exact { settled with
      carved := carved
      looseOwned := fun other member otherContainer =>
        let ⟨owned, used, usesLe⟩ := settled.looseOwned other member otherContainer
        ⟨⟨owned.container, owned.isClass, owned.sound⟩, used, usesLe⟩ }
  · obtain ⟨front, back, rfl⟩ := exists_around inRow
    have stock := settled.toStock
    obtain ⟨_, chunkTiles, backTiles⟩ := stock.carved.tiles.around
    have nothing : ∀ other ∈ ([] : List Chunk), other.container = node.id :=
      fun other member => absurd member List.not_mem_nil
    apply stock.steady chunkTiles backTiles alike (Pool.Alike.refl pool)
      (List.Perm.refl ([] ++ pool.chunks)) nothing nothing (List.subset_cons_self chunk loose)
    · exact fun other member otherContainer => stock.loose_apart container member otherContainer
    · intro offset outside
      refine ⟨kept offset ?_, fun _ => rfl, fun _ => rfl⟩
      change offset < chunk.bottom ∨ chunk.stop ≤ offset at outside
      omega

namespace Allocator

/-- Chunks that are held end at counts. -/
theorem Sound.stop_lt (sound : allocator.Sound uses held) (member : chunk ∈ held) :
    chunk.stop < wordLimit := by
  obtain ⟨node, row, _, _, _, _, _, settled, inRow⟩ := sound.exists_node member
  have inside := settled.carved.tiles.bounds inRow
  have topLe := settled.carved.top_le
  have committedLe := settled.carved.committed_le
  have counted := settled.carved.reserved_lt
  change _ ∧ _ ∧ chunk.stop ≤ node.top at inside
  omega

/-- Reading in the allocated part of a chunk that is held gives the words of its node. -/
theorem Sound.readWords_ensures (sound : allocator.Sound uses held) (member : chunk ∈ held)
    (allots : ¬excuse → chunk.Allots place length) :
    Ensures excuse (allocator.readWords chunk place length) fun words =>
      ∃ node, allocator.node? chunk.container = some node ∧ words.length = length ∧
        ∀ index < length, words[index]? = some (node.words.word (place.offset + index)) := by
  obtain ⟨node, row, found, _, owned, _, _, settled, inRow⟩ := sound.exists_node member
  have inside := settled.carved.tiles.bounds inRow
  have topLe := settled.carved.top_le
  have chunkTopLe := owned.sound.top_le
  have counted := sound.stop_lt member
  have committed : node.committed = node.words.size := rfl
  change _ ∧ _ ∧ chunk.stop ≤ node.top at inside
  unfold readWords
  apply Ensures.bind (checkAccess_ensures (by omega) allots)
  rintro _ ⟨sameNode, _, leTop⟩
  rw [nodeOf_eq_ok_iff.mpr found]
  change Ensures excuse (node.readWords place length) _
  unfold Node.readWords
  apply Ensures.bind (settled.carved.checkAccess_ensures place (sameNode.trans owned.container)
    (by omega))
  intro _ _
  apply (Words.slice_ensures (show place.offset + length ≤ node.words.size by omega)).mono
  rintro words ⟨sameLength, read⟩
  exact ⟨node, found, sameLength, read⟩

/-- Writing in the allocated part of a chunk that is held keeps the allocator sound, spares all other
chunks that are held, and changes the words of the range alone. -/
theorem Sound.writeWords_ensures (sound : allocator.Sound uses (chunk :: held))
    (allots : ¬excuse → chunk.Allots place data.length) :
    Ensures excuse (allocator.writeWords chunk place data) fun after =>
      after.Sound uses (chunk :: held) ∧ Spares held allocator after ∧
        chunk.Allots place data.length ∧ ∃ node node', allocator.node? chunk.container = some node ∧
          after.node? chunk.container = some node' ∧ ∀ offset, node'.words.word offset =
            if place.offset ≤ offset ∧ offset < place.offset + data.length then
              data.getD (offset - place.offset) 0
            else node.words.word offset := by
  have isHeld : chunk ∈ chunk :: held := List.mem_cons_self
  obtain ⟨node, row, found, inList, owned, _, _, settled, inRow⟩ := sound.exists_node isHeld
  have arenaSound := sound.arena chunk.container.space
  rw [inSpace_cons_self] at settled arenaSound
  have inside := settled.carved.tiles.bounds inRow
  have topLe := settled.carved.top_le
  have chunkTopLe := owned.sound.top_le
  have counted := sound.stop_lt isHeld
  have committed : node.committed = node.words.size := rfl
  change _ ∧ _ ∧ chunk.stop ≤ node.top at inside
  unfold writeWords
  apply Ensures.bind (checkAccess_ensures (by omega) allots)
  rintro _ ⟨sameNode, payloadLe, leTop⟩
  rw [nodeOf_eq_ok_iff.mpr found]
  change Ensures excuse (node.writeWords place data >>= _) _
  apply Ensures.bind (settled.carved.writeWords_ensures (sameNode.trans owned.container)
    (show place.offset + data.length ≤ node.top by omega))
  rintro node' ⟨words, isAfter, size, written⟩
  obtain ⟨settledAfter, steady⟩ := settled.of_write owned.container size payloadLe
    (show place.offset + data.length ≤ chunk.stop by omega)
    (fun offset outside => (written offset).trans (if_neg outside))
  rw [← isAfter] at settledAfter steady
  have follows := arenaSound.withNode inList steady settledAfter (List.Perm.refl _)
  have sameId : node'.id = chunk.container := steady.nodeAlike.id.trans owned.container.symm
  change Allocator.Sound uses (allocator.withNode node') _ ∧ Spares held allocator
    (allocator.withNode node') ∧ _ ∧ ∃ before after, _ ∧ (allocator.withNode node').node? _ = _ ∧ _
  unfold withNode
  rw [sameId]
  dsimp only
  refine ⟨?_, Spares.withArena follows.spares, ⟨sameNode, payloadLe, leTop⟩, node, node', found, ?_, ?_⟩
  · rw [← inSpace_cons_self] at follows
    exact sound.withArena (Nat.le_refl uses) follows fun _ _ => rfl
  · unfold node?
    rw [arena_withArena_self]
    obtain ⟨front, back, split⟩ := List.append_of_mem inList
    have ordered := arenaSound.ordered
    have foundAfter := (ordered.replace split steady.nodeAlike.id).node?_eq
      (show _ = front ++ node' :: back from rfl)
    change (NodeList.withNode _ node').node? chunk.container = some node'
    rw [ordered.withNode_eq split steady.nodeAlike.id]
    rw [sameId] at foundAfter
    exact foundAfter
  · intro offset
    rw [isAfter]
    exact written offset

end Allocator

end CollectorMemory
