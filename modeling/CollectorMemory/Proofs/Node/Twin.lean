import CollectorMemory.Proofs.Node.Carved

/-!
# Twin nodes

Two nodes are twins if they have the same chunks, bounds and marks. Their words may differ, and one of
them may be audited where the other is not.
-/

namespace CollectorMemory.Node

variable {node twin base : Node} {row row' : List Block}

/-- Two nodes that are the same but for their words and for whether they are audited. -/
def Twin (node twin : Node) : Prop :=
  ∃ audited words, twin = { node with audited, words } ∧ words.size = node.words.size

/-- Two nodes that stay alike to a node are twins if they are carved and marked alike. -/
theorem Twin.of_alike (first : base.Alike node) (second : base.Alike twin)
    (top : twin.top = node.top) (inUse : twin.chunksInUse = node.chunksInUse)
    (map : twin.map = node.map) : node.Twin twin := by
  have sameId := second.id.trans first.id.symm
  have sameSizes := second.sizes.trans first.sizes.symm
  have sameReserved := second.reserved.trans first.reserved.symm
  refine ⟨twin.audited, twin.words, ?_, second.committed.trans first.committed.symm⟩
  cases node
  cases twin
  simp_all

/-- Carved nodes of the same shape have the same marks if blocks of their rows start at the same
offsets and the blocks in use are the same. -/
theorem Carved.map_eq (carved : node.Carved row) (carved' : twin.Carved row')
    (first : base.Alike node) (second : base.Alike twin)
    (sameStarts : ∀ offset,
      (∃ block ∈ row', block.bottom = offset) ↔ ∃ block ∈ row, block.bottom = offset)
    (sameUse : ∀ block : Block, block.isFree = false → (block ∈ row' ↔ block ∈ row)) :
    twin.map = node.map := by
  have granule : node.map.granule = node.sizes.specialized := carved.map_granule
  have sizes : twin.sizes = node.sizes := second.sizes.trans first.sizes.symm
  have baseGranule := first.map.granule
  apply second.map.eq_of_marks first.map
  · intro offset whole
    rw [← baseGranule, granule] at whole
    rw [Bool.eq_iff_iff, carved.marksStart_iff whole, carved'.marksStart_iff (by rwa [sizes])]
    exact sameStarts offset
  · intro offset whole
    rw [← baseGranule, granule] at whole
    rw [Bool.eq_iff_iff, carved.marksInUse_iff whole, carved'.marksInUse_iff (by rwa [sizes])]
    constructor
    · intro ⟨block, member, used, range⟩
      exact ⟨block, (sameUse block used).mp member, used, range⟩
    · intro ⟨block, member, used, range⟩
      exact ⟨block, (sameUse block used).mpr member, used, range⟩

end CollectorMemory.Node
