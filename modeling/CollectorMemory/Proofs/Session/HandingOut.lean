import CollectorMemory.Proofs.Session.Isolation

/-!
# What is handed out

A chunk that is handed out is what was asked for, whichever way it came about: it was free before, or
the first part of a larger free chunk, or carved from the last node after padding or after growth. It
is of the size of the request, or at least as large if the request is humongous, aligned, in use and
empty, in a node of its space, and shares no word with any other chunk, held or free. The chunks that
are held keep their handles, words and marks.
-/

namespace CollectorMemory

variable {uses more size : Nat} {held kept : List Chunk} {allocator after : Allocator} {space : Space}
  {chunk : Chunk}

/-- What is known of a chunk that was handed out for a request of some words in a space, of the chunks
that were held then, and of the allocator before and after. -/
structure Allocator.HandsOut (held : List Chunk) (space : Space) (size : Nat) (allocator : Allocator)
    (chunk : Chunk) (after : Allocator) : Prop where
  /-- A request that is not humongous is answered with exactly as many words. -/
  size_eq : (allocator.sizes space).isHumongousSize size = false → chunk.size = size
  /-- A humongous request is answered with as many words at least. -/
  size_le : size ≤ chunk.size
  /-- The chunk is of the kind of its size. -/
  kind : (allocator.sizes space).kindOfSize chunk.size = .ok chunk.kind
  /-- The chunk is aligned. -/
  aligned : chunk.bottom % (allocator.sizes space).alignment chunk.kind chunk.size = 0
  /-- The chunk lies in the carved part of a node of the space, with its header in memory and its
  marks. -/
  home : ∃ node ∈ (after.arena space).list.nodes.toList, after.node? chunk.container = some node ∧
    node.id.space = space ∧ chunk.stop ≤ node.top ∧ node.Shows chunk.block
  /-- The chunk is in use. -/
  used : chunk.isFree = false
  /-- No word of the chunk is handed out. -/
  empty : chunk.top = chunk.payload
  /-- The use is counted. -/
  counted : 1 ≤ chunk.useCount
  /-- The chunk is apart from all others that are held. -/
  apart : ∀ other ∈ held, chunk.Apart other
  /-- The chunk is apart from all free ones. -/
  apartFree : ∀ other, ∀ free ∈ (after.arena other).pool.chunks, chunk.Apart free
  /-- The words of every other chunk that is held, its header among them, and its marks stay. -/
  kept : ∀ other ∈ held, ∀ node, allocator.node? other.container = some node →
    ∃ node', after.node? other.container = some node' ∧
      ∀ offset, other.bottom ≤ offset → offset < other.stop → node.SameAt node' offset

namespace Allocator

/-- A chunk that is held before and after an operation that spares it keeps its words and marks. -/
theorem Sound.sameAt_of_spares (sound : allocator.Sound uses held) (soundAfter : after.Sound more kept)
    (spares : Spares held allocator after) (isHeld : chunk ∈ held) (isKept : chunk ∈ kept)
    {node : Node} (found : allocator.node? chunk.container = some node) :
    ∃ node', after.node? chunk.container = some node' ∧
      ∀ offset, chunk.bottom ≤ offset → offset < chunk.stop → node.SameAt node' offset := by
  obtain ⟨before, row, foundBefore, inList, _, _, _, settled, inRow⟩ := sound.exists_node isHeld
  obtain ⟨node', rowAfter, foundAfter, inListAfter, _, _, _, settledAfter, inRowAfter⟩ :=
    soundAfter.exists_node isKept
  obtain ⟨other, foundOther, words⟩ := spares.spared chunk isHeld node found
  cases found.symm.trans foundBefore
  cases foundAfter.symm.trans foundOther
  have sizes : node'.sizes = node.sizes := by
    rw [(soundAfter.arena _).nodeSizes node' inListAfter, (sound.arena _).nodeSizes node inList]
    exact (spares.lists _).sizes
  refine ⟨node', foundAfter, fun offset lower upper => ?_⟩
  exact (settled.carved.shown _ inRow).sameAt (settledAfter.carved.shown _ inRowAfter) sizes lower
    upper (words offset lower upper)

/-- A chunk that answers a request, of a sound allocator that holds it and spared all others, is handed
out. -/
theorem Sound.handsOut {kind : Kind} (sound : allocator.Sound uses held)
    (soundAfter : after.Sound more (chunk :: held)) (spares : Spares held allocator after)
    (suits : (allocator.sizes space).Suits kind size) (answers : chunk.Answers kind size)
    (isSpace : chunk.container.space = space) (counted : 1 ≤ chunk.useCount) :
    allocator.HandsOut held space size chunk after := by
  subst isSpace
  have isHeld : chunk ∈ chunk :: held := List.mem_cons_self
  obtain ⟨node, row, found, inList, owned, used, _, settled, inRow⟩ := soundAfter.exists_node isHeld
  have sizes : node.sizes = allocator.sizes chunk.container.space := by
    rw [(soundAfter.arena _).nodeSizes node inList]
    exact (spares.lists _).sizes
  have blockSound := owned.sound.block
  rw [sizes] at blockSound
  have chunkSuits : (allocator.sizes chunk.container.space).Suits kind chunk.size := by
    rw [← answers.kind]
    exact blockSound.suits
  refine {
    size_eq := ?_
    size_le := answers.size_le
    kind := ChunkSizes.kindOfSize_eq_ok_iff.mpr blockSound.suits
    aligned := blockSound.aligned
    home := ⟨node, inList, found, by rw [← owned.container],
      (settled.carved.tiles.bounds inRow).2.2, settled.carved.shown _ inRow⟩
    used := used
    empty := answers.empty
    counted := counted
    apart := fun other member => soundAfter.apart member
    apartFree := fun other free isFree => soundAfter.apart_free isHeld isFree
    kept := fun other member node found =>
      sound.sameAt_of_spares soundAfter spares member (List.mem_cons_of_mem chunk member) found }
  intro notHumongous
  apply chunkSuits.size_eq suits
  rintro rfl
  obtain ⟨larger, whole⟩ := suits
  simp [ChunkSizes.isHumongousSize, larger, whole] at notHumongous

end Allocator

namespace Session

variable {options : Options} {opened reached session : Session} {operations : List Operation}

/-- The chunk that a request is answered with, and what it leaves of the allocator, if it is. -/
def answer? (session : Session) (space : Space) (size : Nat) : Option (Chunk × Allocator) :=
  match (session.allocator.allocate space size).outcome with
  | .ok (.ok chunk, after) => some (chunk, after)
  | _ => none

/-- A request with an answer hands a chunk out. -/
theorem answer?_eq_some (answered : session.answer? space size = some (chunk, after)) :
    (session.allocator.allocate space size).outcome = .ok (.ok chunk, after) := by
  unfold answer? at answered
  split at answered
  · next found rest isOutcome =>
    cases answered
    exact isOutcome
  · cases answered

/-- In every session that a run reaches, a chunk that is handed out is what was asked for, and users
hold it besides all that they held before. -/
theorem reached_handsOut (words : options.WordsBelow (2 ^ 55)) (made : ofOptions options = .ok opened)
    (done : opened.run operations = .ok reached)
    (answered : (reached.allocator.allocate space size).outcome = .ok (.ok chunk, after)) :
    reached.perform (.allocate space size) =
        .ok { allocator := after, held := reached.held ++ [Holding.fresh chunk] } ∧
      reached.allocator.HandsOut reached.chunks space size chunk after := by
  have chunkWords : options.ChunkWordsBelow Header.sizeLimit := words.chunkWords (by decide)
  obtain ⟨sound, _, within⟩ := reached_sound made done chunkWords (Or.inr words)
  obtain ⟨spares, kind, suits, soundAfter, answers, isSpace, counted, _⟩ :=
    (sound.allocator.allocate_ensures (absurd trivial) (absurd trivial) (absurd trivial)
      (absurd trivial) (fun sizeLe => Nat.lt_of_le_of_lt sizeLe (within _ words space).limit)
      (absurd trivial)).of_ok answered
  refine ⟨?_, sound.allocator.handsOut soundAfter spares suits answers isSpace counted⟩
  change (reached.allocator.allocate space size).outcome >>= _ = _
  rw [answered]
  rfl

/-- A specialized chunk is handed out from the start of a medium one that was put back, before the one
that is held; the rest of it is free. -/
theorem sample_handsOut : ∃ (opened reached : Session) (chunk : Chunk) (after : Allocator),
    ofOptions Options.smallest = .ok opened ∧
    opened.run [.allocate .nonClass 12, .allocate .nonClass 12, .putBack 0] = .ok reached ∧
    (reached.allocator.allocate .nonClass 3).outcome = .ok (.ok chunk, after) ∧
    chunk.bottom = 0 ∧ after.nonClass.pool.words = 9 ∧
    reached.perform (.allocate .nonClass 3) =
      .ok { allocator := after, held := reached.held ++ [Holding.fresh chunk] } ∧
    reached.allocator.HandsOut reached.chunks .nonClass 3 chunk after := by
  have evaluated : (ofOptions Options.smallest >>= fun session =>
      session.run [.allocate .nonClass 12, .allocate .nonClass 12, .putBack 0]).toOption.map
        (fun reached => (reached.answer? .nonClass 3).map fun (chunk, after) =>
          (chunk.bottom, after.nonClass.pool.words)) = some (some (0, 9)) := by decide +kernel
  obtain ⟨opened, reached, made, done, view⟩ := exists_reached evaluated
  obtain ⟨⟨chunk, after⟩, isAnswer, seen⟩ := Option.map_eq_some_iff.mp view
  obtain ⟨bottom, free⟩ := Prod.mk.inj seen
  have answered := answer?_eq_some isAnswer
  exact ⟨opened, reached, chunk, after, made, done, answered, bottom, free,
    reached_handsOut Options.smallest_wordsBelow made done answered⟩

end Session

end CollectorMemory
