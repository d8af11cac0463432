import CollectorMemory.Proofs.Arena.Sound

/-!
# Chunks that users hold

Users may hold their chunks in any order, hand out words of them and count their uses, and the arena
stays sound. Each of these chunks belongs to a node and is a block in use of its row.
-/

namespace CollectorMemory

variable {uses : Nat} {arena : Arena} {held held' : List Chunk} {chunk : Chunk}

/-- The order of the chunks that are held does not matter. -/
theorem Arena.Sound.of_perm (sound : Arena.Sound uses arena held) (perm : held.Perm held') :
    Arena.Sound uses arena held' :=
  { sound with
    live := fun chunk member => sound.live chunk ((perm.append_left _).mem_iff.mpr member)
    settled := fun node member => by
      obtain ⟨row, settled⟩ := sound.settled node member
      exact ⟨row, settled.of_perm perm⟩ }

/-- A chunk that is held belongs to a node, which has it as a block in use. -/
theorem Arena.Sound.exists_node (sound : Arena.Sound uses arena held) (member : chunk ∈ held) :
    ∃ front node back row, arena.list.nodes.toList = front ++ node :: back ∧ node.Owns chunk ∧
      chunk.isFree = false ∧ chunk.useCount ≤ uses ∧ Settled uses arena.pool node held row ∧
        chunk.block ∈ row := by
  obtain ⟨node, inList, isNode⟩ := sound.live chunk (List.mem_append_right _ member)
  obtain ⟨row, settled⟩ := sound.settled node inList
  obtain ⟨front, back, split⟩ := List.append_of_mem inList
  obtain ⟨owned, used, usesLe⟩ := settled.looseOwned chunk member isNode.symm
  exact ⟨front, node, back, row, split, owned, used, usesLe, settled,
    settled.toStock.mem_row (List.mem_append_right _ member) isNode.symm⟩

/-- A chunk that is held can have another top in it and another use count. -/
theorem Arena.Sound.rehold (sound : Arena.Sound uses arena (chunk :: held)) {top useCount : Nat}
    (payloadLe : chunk.payload ≤ top) (topLe : top ≤ chunk.stop) (usesLe : useCount ≤ uses) :
    Arena.Sound uses arena ({ chunk with top, useCount } :: held) := by
  have sameBlocks : ∀ id, blocksIn id ({ chunk with top, useCount } :: held) =
      blocksIn id (chunk :: held) := by
    intro id
    unfold blocksIn within
    rw [List.filter_cons, List.filter_cons]
    change List.map _ (if (chunk.container == id) = true then _ else _) = _
    split
    · rfl
    · rfl
  exact { sound with
    live := by
      intro other member
      rcases List.mem_append.mp member with inPool | inHeld
      · exact sound.live other (List.mem_append_left _ inPool)
      · rcases List.mem_cons.mp inHeld with isChunk | inRest
        · rw [isChunk]
          exact sound.live chunk (List.mem_append_right _ List.mem_cons_self)
        · exact sound.live other (List.mem_append_right _ (List.mem_cons_of_mem chunk inRest))
    settled := by
      intro node inList
      obtain ⟨row, settled⟩ := sound.settled node inList
      refine ⟨row, { settled with perm := ?_, looseOwned := ?_ }⟩
      · have before := settled.perm
        rw [blocksIn_append] at before ⊢
        rw [sameBlocks]
        exact before
      · intro other member container
        rcases List.mem_cons.mp member with isChunk | inRest
        · rw [isChunk] at container ⊢
          obtain ⟨owned, used, _⟩ := settled.looseOwned chunk List.mem_cons_self container
          have same := owned.sound
          exact ⟨⟨container, owned.isClass, same.alive, same.block, payloadLe, topLe⟩, used, usesLe⟩
        · exact settled.looseOwned other (List.mem_cons_of_mem chunk inRest) container }

end CollectorMemory
