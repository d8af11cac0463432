import CollectorMemory.Proofs.Node.Carved
import CollectorMemory.Proofs.Node.Genuine

/-!
# Audits of carved nodes pass

A carved node consists of the blocks of its row, so its audit passes if its count is that of the blocks in
use, and so does the audit of a sound handle whose block is one of the row.
-/

namespace CollectorMemory.Node

variable {excuse : Prop} {node : Node} {row : List Block} {chunk : Chunk}

/-- The map of a carved node covers it. -/
theorem Carved.dimensioned (carved : node.Carved row) : node.Dimensioned :=
  ⟨carved.map, carved.map_words, carved.map_granule⟩

/-- A carved node consists of the blocks of its row. -/
theorem Carved.consists (carved : node.Carved row) : node.Consists row where
  tiles := carved.tiles
  sound := carved.sound
  headers _ member := (carved.headerAt_ensures member).eq_ok fun _ same => same
  top_le := carved.top_le
  committed_le := carved.committed_le
  starts _ whole _ := carved.marksStart_iff whole
  inUse block member := (carved.shown block member).inUse

/-- The audit of a carved node passes if its count is that of the blocks in use. -/
theorem Carved.audit_ensures (carved : node.Carved row)
    (count : node.chunksInUse = inUseCount row) : Ensures excuse node.audit fun _ => True :=
  ensures_of_eq_ok ((audit_eq_ok_iff carved.dimensioned).mpr ⟨row, carved.consists, count⟩) trivial

/-- The audit of a sound handle passes if its block is in the row of its node. -/
theorem Carved.auditChunk_ensures (carved : node.Carved row) (sound : chunk.Sound node.sizes)
    (container : chunk.container = node.id) (isClass : chunk.isClass = node.isClass)
    (member : chunk.block ∈ row) : Ensures excuse (node.auditChunk chunk) fun _ => True := by
  have header : chunk.block.header node.isClass = chunk.header := by
    rw [Chunk.header_eq sound.alive, isClass]
  have genuine : node.Genuine row chunk :=
    ⟨container, ⟨chunk.block, member, rfl, rfl, header⟩, sound.payload_le, sound.top_le⟩
  exact genuine.auditChunk_ensures carved.consists carved.dimensioned

end CollectorMemory.Node
