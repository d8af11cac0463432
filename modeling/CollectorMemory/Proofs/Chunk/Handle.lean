import CollectorMemory.Proofs.Chunk.Block

/-!
# What holders do with chunk handles

Counting a use changes the use count alone. Words are handed out from the top of the handle, if there
are enough of them left, and no others. The words that were handed out are the allocated part of the
chunk.
-/

namespace CollectorMemory.Chunk

variable {excuse : Prop} {sizes : ChunkSizes} {chunk : Chunk} {words : Nat}

/-- A range in the allocated part of a chunk. -/
structure Allots (chunk : Chunk) (place : Location) (length : Nat) : Prop where
  /-- The range lies in the node of the chunk. -/
  node : place.node = chunk.container
  /-- The range begins after the header. -/
  payload_le : chunk.payload ≤ place.offset
  /-- The range ends before the top. -/
  le_top : place.offset + length ≤ chunk.top

/-- Whether a range lies in the allocated part of a chunk can be decided. -/
instance (chunk : Chunk) (place : Location) (length : Nat) : Decidable (chunk.Allots place length) :=
  decidable_of_iff (place.node = chunk.container ∧ chunk.payload ≤ place.offset ∧
      place.offset + length ≤ chunk.top)
    ⟨fun ⟨node, payloadLe, leTop⟩ => ⟨node, payloadLe, leTop⟩,
      fun ⟨node, payloadLe, leTop⟩ => ⟨node, payloadLe, leTop⟩⟩

/-- Counting a use changes the use count alone. -/
theorem addUse_ensures (few : ¬excuse → chunk.useCount + 1 < 2 ^ 32) :
    Ensures excuse chunk.addUse fun after =>
      after = { chunk with useCount := chunk.useCount + 1 } := by
  unfold addUse
  apply Ensures.bind (Count.addHalf_ensures few)
  rintro useCount ⟨rfl, _⟩
  rfl

/-- Words are handed out at the top, which moves over them and stays in the chunk. -/
theorem Sound.allocate_ensures (sound : chunk.Sound sizes) (counted : chunk.stop < wordLimit) :
    Ensures excuse (chunk.allocate words) fun result =>
      match result with
      | none => chunk.stop < chunk.top + words
      | some (place, after) => place = chunk.topPlace ∧
          after = { chunk with top := chunk.top + words } ∧ chunk.top + words ≤ chunk.stop := by
  have topLe := sound.top_le
  unfold allocate freeWords
  apply Ensures.bind (Count.sub_ensures fun _ => topLe)
  rintro free ⟨rfl, _⟩
  split
  · next few =>
    change chunk.stop < chunk.top + words
    omega
  · next enough =>
    apply Ensures.bind (Count.add_ensures fun _ => by omega)
    rintro top ⟨rfl, _⟩
    exact ⟨rfl, rfl, by omega⟩

end CollectorMemory.Chunk
