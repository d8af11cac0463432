import CollectorMemory.Node.Access
import CollectorMemory.Node.Merge
import CollectorMemory.Proofs.Chunk.Block
import CollectorMemory.Proofs.Node.Commit
import CollectorMemory.Proofs.Node.Lockstep
import CollectorMemory.Proofs.Node.Words

/-!
# Nodes that keep to a limit

Whatever the options are, and whatever memory and the map of a node say, a node never carves more than it
commits nor commits more than it reserves, and so no chunk that comes about in it is larger than the
limit on what the nodes of its space reserve, and none of its words is handed out. These facts do not
depend on headers, so they hold without a bound on the sizes that headers can store.
-/

namespace CollectorMemory

/-- What the nodes and chunks of a space are confined to. -/
structure Confines where
  /-- The space that they belong to. -/
  space : Space
  /-- The chunk sizes of the space. -/
  sizes : ChunkSizes
  /-- The number of words that the nodes of the space may reserve. -/
  limit : Nat
  /-- The nodes of the space commit multiples of this many words. -/
  granule : Nat

variable {confines : Confines} {node after : Node} {chunk : Chunk} {words : Words}

/-- A chunk of the space that has a size of its kind, which is within the limit, and ends at a count. -/
structure Chunk.Confined (confines : Confines) (chunk : Chunk) : Prop where
  /-- The chunk belongs to the space. -/
  space : chunk.container.space = confines.space
  /-- The size suits the kind. -/
  suits : confines.sizes.Suits chunk.kind chunk.size
  /-- The size is within the limit. -/
  size_le : chunk.size ≤ confines.limit
  /-- The end of the chunk is a count. -/
  stop_lt : chunk.stop < wordLimit

/-- A confined chunk of which no word is handed out. -/
structure Chunk.Unused (confines : Confines) (chunk : Chunk) : Prop
    extends chunk.Confined confines where
  /-- The top is where the payload starts. -/
  empty : chunk.top = chunk.payload

/-- A node of the space that carves what it commits, commits what it reserves, and reserves no more than
the limit. -/
structure Node.Confined (confines : Confines) (node : Node) : Prop where
  /-- The node belongs to the space. -/
  space : node.id.space = confines.space
  /-- The node has the sizes of the space. -/
  sizes : node.sizes = confines.sizes
  /-- What is carved is a multiple of the specialized size. -/
  top_whole : node.top % confines.sizes.specialized = 0
  /-- What is carved is committed. -/
  top_le : node.top ≤ node.committed
  /-- What is committed is reserved. -/
  committed_le : node.committed ≤ node.reserved
  /-- What is reserved is within the limit. -/
  reserved_le : node.reserved ≤ confines.limit

/-- Another state of a node, which is confined as well. -/
structure Node.Keeps (confines : Confines) (node after : Node) : Prop
    extends after.Confined confines where
  /-- The handle stays. -/
  id : after.id = node.id
  /-- What is reserved stays. -/
  reserved : after.reserved = node.reserved

/-- The tag, the top and the origin of a chunk do not matter. -/
theorem Chunk.Confined.congr {other : Chunk} (confined : chunk.Confined confines)
    (container : other.container = chunk.container) (bottom : other.bottom = chunk.bottom)
    (kind : other.kind = chunk.kind) (size : other.size = chunk.size) : other.Confined confines where
  space := by rw [container]; exact confined.space
  suits := by rw [kind, size]; exact confined.suits
  size_le := by rw [size]; exact confined.size_le
  stop_lt := by rw [Chunk.stop, bottom, size]; exact confined.stop_lt

/-- A chunk is unused whatever its origin is. -/
theorem Chunk.Unused.withOrigin (unused : chunk.Unused confines) (origin : Origin) :
    (chunk.withOrigin origin).Unused confines :=
  ⟨unused.toConfined.congr rfl rfl rfl rfl, unused.empty⟩

/-- A chunk is unused whether it is tagged free or not. -/
theorem Chunk.Unused.withFree (unused : chunk.Unused confines) (isFree : Bool) :
    (chunk.withFree isFree).Unused confines :=
  ⟨unused.toConfined.congr rfl rfl rfl rfl, unused.empty⟩

/-- Counting a use of a chunk hands none of its words out. -/
theorem Chunk.Unused.addUse (unused : chunk.Unused confines) :
    Ensures True chunk.addUse fun after => after.Unused confines ∧ after.size = chunk.size := by
  unfold Chunk.addUse
  refine Ensures.bind (ensures_excused _) ?_
  intro useCount _
  exact ⟨⟨unused.toConfined.congr rfl rfl rfl rfl, unused.empty⟩, rfl⟩

/-- Handing out words of a chunk does not matter. -/
theorem Chunk.Confined.allocate (confined : chunk.Confined confines) (length : Nat) :
    Ensures True (chunk.allocate length) fun result =>
      match result with
      | none => True
      | some (_, after) => after.Confined confines := by
  unfold Chunk.allocate
  refine Ensures.bind (ensures_excused _) ?_
  intro left _
  split
  · trivial
  refine Ensures.bind (ensures_excused _) ?_
  intro top _
  exact confined.congr rfl rfl rfl rfl

/-- A fresh chunk of a space is unused, and confined if its size and its end are. -/
theorem Chunk.fresh_unused {kind : Kind} {isClass : Bool} {size bottom : Nat} {container : NodeId}
    (space : container.space = confines.space) (suits : confines.sizes.Suits kind size)
    (le : size ≤ confines.limit) (counted : bottom + size < wordLimit) :
    Ensures True (Chunk.fresh kind isClass size bottom container) fun chunk =>
      chunk.Unused confines ∧ chunk.size = size := by
  unfold Chunk.fresh
  refine Ensures.bind (ensures_excused _) ?_
  intro _ _
  refine Ensures.bind (Count.add_ensures (absurd trivial)) ?_
  rintro top ⟨rfl, _⟩
  exact ⟨⟨⟨space, suits, le, counted⟩, rfl⟩, rfl⟩

namespace Words

/-- Writing words keeps the size of the memory. -/
theorem size_write (words : Words) (offset : Nat) (data : List UInt64) :
    Ensures True (words.write offset data) fun written => written.size = words.size := by
  unfold write
  refine Ensures.bind (ensures_excused _) ?_
  intro _ _
  exact size_store offset data

/-- Writing over words where this is asked for keeps the size of the memory. -/
theorem size_fillIf (words : Words) (asked : Bool) (offset length : Nat) (word : UInt64) :
    Ensures True (words.fillIf asked offset length word) fun written =>
      written.size = words.size := by
  cases asked with
  | true => exact size_write words offset _
  | false => rfl

end Words

namespace Node

/-- A confined node is a state of itself. -/
theorem Confined.refl (confined : node.Confined confines) : node.Keeps confines node :=
  ⟨confined, rfl, rfl⟩

/-- States that are kept in two steps are kept. -/
theorem Keeps.trans {middle : Node} (first : node.Keeps confines middle)
    (second : middle.Keeps confines after) : node.Keeps confines after :=
  ⟨second.toConfined, second.id.trans first.id, second.reserved.trans first.reserved⟩

/-- A node with other contents, another map and another number of chunks in use is confined as before. -/
theorem Confined.withContents (confined : node.Confined confines) (size : words.size = node.words.size)
    (map : Occupancy) (chunksInUse : Nat) :
    node.Keeps confines { node with words, map, chunksInUse } where
  space := confined.space
  sizes := confined.sizes
  top_whole := confined.top_whole
  top_le := Nat.le_trans confined.top_le (Nat.le_of_eq size.symm)
  committed_le := Nat.le_trans (Nat.le_of_eq size) confined.committed_le
  reserved_le := confined.reserved_le
  id := rfl
  reserved := rfl

/-- What is carved is within the limit. -/
theorem Confined.top_le_limit (confined : node.Confined confines) : node.top ≤ confines.limit :=
  Nat.le_trans confined.top_le (Nat.le_trans confined.committed_le confined.reserved_le)

/-- A node that is reserved within the limit is confined. -/
theorem reserve_confined {id : NodeId} {reserved : Nat} {sizes : ChunkSizes} {audited : Bool}
    (le : reserved ≤ confines.limit) (space : id.space = confines.space)
    (same : sizes = confines.sizes) :
    Ensures True (Node.reserve id reserved sizes audited).outcome fun node =>
      node.Confined confines ∧ node.id = id ∧ node.reserved = reserved := by
  unfold Node.reserve
  refine Ensures.bindRun (ensures_excused _) ?_
  intro _ _
  refine ensures_note ?_
  refine Ensures.bindRun (ensures_excused _) ?_
  intro _ _
  exact ⟨⟨space, same, Nat.zero_mod _, Nat.le_refl 0, Nat.zero_le _, le⟩, rfl, rfl⟩

/-- Committing words stays within what is reserved. -/
theorem Confined.expand (confined : node.Confined confines) (least preferred : Nat) :
    Ensures True (node.expand least preferred).outcome fun result =>
      ∀ after ∈ result, node.Keeps confines after := by
  have inside := confined.committed_le
  have topLe := confined.top_le
  rw [expand_outcome]
  split
  · exact fun _ isSome => nomatch isSome
  dsimp only
  split
  · rintro _ ⟨⟩
    have committed := (commits_withZeros node (min (Count.nextMultiple (max preferred least)
      node.sizes.specialized) (node.reserved - node.committed))).committed
    refine ⟨⟨confined.space, confined.sizes, confined.top_whole, ?_, ?_, confined.reserved_le⟩, rfl,
      rfl⟩
    · change node.top ≤ _
      omega
    · change _ ≤ node.reserved
      omega
  · trivial

/-- A chunk that is carved is unused and confined, since its words are committed. -/
theorem Confined.carve (confined : node.Confined confines) {kind : Kind} {size : Nat} {origin : Origin}
    (suits : confines.sizes.Suits kind size) :
    Ensures True (node.carve kind size origin) fun (after, chunk) =>
      node.Keeps confines after ∧ chunk.Unused confines ∧ chunk.size = size := by
  have inside := confined.committed_le
  have reservedLe := confined.reserved_le
  unfold Node.carve
  refine Ensures.bind (Count.add_ensures (absurd trivial)) ?_
  rintro top ⟨rfl, counted⟩
  refine Ensures.bind (ensures_require (absurd trivial)) ?_
  intro _ checked
  have topLe : node.top + size ≤ node.committed := of_decide_eq_true checked
  refine Ensures.bind (Chunk.fresh_unused confined.space suits (by omega) counted) ?_
  intro fresh ⟨unused, isSize⟩
  dsimp only
  refine Ensures.bind (ensures_excused _) ?_
  intro _ _
  refine Ensures.bind (ensures_excused _) ?_
  intro map _
  refine Ensures.bind (Words.size_write _ _ _) ?_
  intro headed sameSize
  refine Ensures.bind (Words.size_fillIf _ _ _ _ _) ?_
  intro filled sameFilled
  have size_eq : filled.size = node.committed := sameFilled.trans sameSize
  refine ⟨⟨⟨confined.space, confined.sizes, ?_, ?_, ?_, reservedLe⟩, rfl, rfl⟩,
    unused.withOrigin origin, isSize⟩
  · change (node.top + size) % _ = 0
    rw [Nat.add_mod, confined.top_whole, suits.whole]
    exact Nat.zero_mod _
  · exact Nat.le_trans topLe (Nat.le_of_eq size_eq.symm)
  · exact Nat.le_trans (Nat.le_of_eq size_eq) inside

/-- Tagging a chunk changes the node and the handle in nothing else that matters. -/
theorem Confined.setInUse (confined : node.Confined confines) (chunk : Chunk) (inUse : Bool) :
    Ensures True (node.setInUse chunk inUse) fun (after, tagged) =>
      node.Keeps confines after ∧ tagged = chunk.withFree (!inUse) := by
  unfold Node.setInUse
  refine Ensures.bind (ensures_excused _) ?_
  intro _ _
  refine Ensures.bind (Words.size_write _ _ _) ?_
  intro written sameSize
  refine Ensures.bind (ensures_excused _) ?_
  intro map _
  exact ⟨confined.withContents sameSize map node.chunksInUse, rfl⟩

/-- A chunk in use less changes nothing else. -/
theorem Confined.dropInUse (confined : node.Confined confines) :
    Ensures True node.dropInUse (node.Keeps confines) := by
  unfold Node.dropInUse
  refine Ensures.bind (ensures_excused _) ?_
  intro _ _
  exact confined.withContents rfl node.map (node.chunksInUse - 1)

/-- Writing words changes nothing else. -/
theorem Confined.writeWords (confined : node.Confined confines) (place : Location)
    (data : List UInt64) : Ensures True (node.writeWords place data) (node.Keeps confines) := by
  unfold Node.writeWords
  refine Ensures.bind (ensures_excused _) ?_
  intro _ _
  refine Ensures.bind (Words.size_write _ _ _) ?_
  intro written sameSize
  exact confined.withContents sameSize node.map node.chunksInUse

/-- Writing over a payload where this is asked for changes nothing else. -/
theorem Confined.fillPayloadIf (confined : node.Confined confines) (asked : Bool) (chunk : Chunk)
    (word : UInt64) : Ensures True (node.fillPayloadIf asked chunk word) (node.Keeps confines) := by
  cases asked with
  | false => exact confined.refl
  | true =>
    change Ensures True (node.fillWords _ _ _) _
    unfold Node.fillWords
    refine Ensures.bind (ensures_excused _) ?_
    intro _ _
    refine Ensures.bind (Words.size_write _ _ _) ?_
    intro written sameSize
    exact confined.withContents sameSize node.map node.chunksInUse

/-- Overwriting sentinels keeps the size of the memory. -/
theorem size_absorb (words : Words) (chunks : List Chunk) :
    Ensures True (absorb words chunks) fun written => written.size = words.size := by
  induction chunks generalizing words with
  | nil => rfl
  | cons chunk chunks ih =>
    unfold absorb
    refine Ensures.bind (ensures_excused _) ?_
    intro _ _
    refine Ensures.bind (Words.size_write _ _ _) ?_
    intro written sameSize
    exact (ih written).mono fun _ same => same.trans sameSize

/-- An area whose headers can be read is carved, and ends at a count. -/
theorem headersIn_inside (node : Node) {start size : Nat} :
    Ensures True (node.headersIn start size) fun _ =>
      start + size ≤ node.top ∧ start + size < wordLimit := by
  unfold headersIn
  refine Ensures.bind (Count.add_ensures (absurd trivial)) ?_
  rintro stop ⟨rfl, counted⟩
  refine Ensures.bind (ensures_require (absurd trivial)) ?_
  intro _ checked
  have inside : start + size ≤ node.top := of_decide_eq_true checked
  refine Ensures.bind (ensures_excused _) ?_
  intro (headers, last) _
  refine Ensures.bind (ensures_excused _) ?_
  intro _ _
  exact ⟨inside, counted⟩

/-- A merged chunk is unused and has the size of its kind, and is confined if its area is within the
limit. -/
theorem Confined.merge (confined : node.Confined confines) {start size : Nat} {target : Kind}
    {absorbed : List Chunk} (fixed : confines.sizes.fixedSize target = .ok size)
    (le : size ≤ confines.limit) (counted : start + size < wordLimit) :
    Ensures True (node.merge start target absorbed) fun (after, chunk) =>
      node.Keeps confines after ∧ chunk.Unused confines := by
  have fixedHere : node.sizes.fixedSize target = .ok size := by
    rw [confined.sizes]
    exact fixed
  unfold Node.merge
  refine Ensures.bind (ensures_eq fixedHere) ?_
  rintro _ rfl
  refine Ensures.bind (ensures_excused _) ?_
  intro _ _
  refine Ensures.bind (ensures_excused _) ?_
  intro _ _
  refine Ensures.bind (size_absorb node.words absorbed) ?_
  intro cleared sameCleared
  refine Ensures.bind
    (Chunk.fresh_unused confined.space (ChunkSizes.suits_of_fixedSize fixed) le counted) ?_
  intro fresh ⟨unused, _⟩
  dsimp only
  refine Ensures.bind (ensures_excused _) ?_
  intro _ _
  refine Ensures.bind (ensures_excused _) ?_
  intro map _
  refine Ensures.bind (Words.size_write _ _ _) ?_
  intro written sameSize
  exact ⟨confined.withContents (sameSize.trans sameCleared) map node.chunksInUse,
    (unused.withOrigin .merge).withFree true⟩

/-- A piece of a split chunk is unused and confined. -/
theorem Confined.placePiece (confined : node.Confined confines) {kind : Kind} {size offset : Nat}
    (suits : confines.sizes.Suits kind size) (le : size ≤ confines.limit)
    (counted : offset + size < wordLimit) :
    Ensures True (node.placePiece kind size offset) fun (after, piece) =>
      node.Keeps confines after ∧ piece.Unused confines := by
  unfold Node.placePiece
  refine Ensures.bind (Chunk.fresh_unused confined.space suits le counted) ?_
  intro fresh ⟨unused, _⟩
  dsimp only
  refine Ensures.bind (ensures_excused _) ?_
  intro map _
  refine Ensures.bind (Words.size_write _ _ _) ?_
  intro written sameSize
  exact ⟨confined.withContents sameSize map node.chunksInUse, (unused.withOrigin .split).withFree true⟩

/-- The pieces that cover a range within the limit are unused and confined. -/
theorem Confined.coverRest (confined : node.Confined confines) {larger target : Kind}
    {stop offset : Nat} (short : stop - offset ≤ confines.limit) (counted : stop < wordLimit) :
    Ensures True (node.coverRest larger target stop offset) fun (after, pieces) =>
      node.Keeps confines after ∧ ∀ piece ∈ pieces, piece.Unused confines := by
  induction left : stop - offset using Nat.strong_induction_on generalizing node offset with
  | _ left ih =>
    rw [coverRest_eq]
    by_cases more : offset < stop
    · rw [if_pos more]
      refine Ensures.bind (ensures_excused _) ?_
      intro kind _
      refine Ensures.bind (ensures_returned _) ?_
      intro size fixed
      have positive := node.sizes.pos_of_fixedSize fixed
      rw [confined.sizes] at fixed
      refine Ensures.bind (ensures_require (absurd trivial)) ?_
      intro _ checked
      have fits : offset + size ≤ stop := of_decide_eq_true checked
      refine Ensures.bind
        (confined.placePiece (ChunkSizes.suits_of_fixedSize fixed) (by omega) (by omega)) ?_
      intro (placed, piece) ⟨kept, pieceUnused⟩
      refine Ensures.bind (ih (stop - (offset + size)) (by omega) kept.toConfined (by omega) rfl) ?_
      intro (after, rest) ⟨keptRest, restUnused⟩
      exact ⟨kept.trans keptRest, List.forall_mem_cons.mpr ⟨pieceUnused, restUnused⟩⟩
    · rw [if_neg more]
      exact ⟨confined.refl, List.forall_mem_nil _⟩

/-- The chunks that a confined chunk is split into are unused and confined. -/
theorem Confined.split (confined : node.Confined confines) {larger : Chunk} {target : Kind}
    (isConfined : larger.Confined confines) :
    Ensures True (node.split larger target) fun (after, first, pieces) =>
      node.Keeps confines after ∧ first.Unused confines ∧
        ∀ piece ∈ pieces, piece.Unused confines := by
  have largerLe := isConfined.size_le
  have counted := isConfined.stop_lt
  unfold Chunk.stop at counted
  unfold Node.split
  refine Ensures.bind (ensures_require (absurd trivial)) ?_
  intro _ checked
  refine Ensures.bind (ensures_returned _) ?_
  intro size fixed
  rw [confined.sizes] at fixed
  have suits := ChunkSizes.suits_of_fixedSize fixed
  -- All pieces lie in the larger chunk, and the first one is smaller, being of a smaller kind.
  have less : size < larger.size := by
    simp only [Bool.and_eq_true, decide_eq_true_eq] at checked
    exact suits.lt_of_code_lt isConfined.suits checked.2
  refine Ensures.bind (ensures_excused _) ?_
  intro _ _
  refine Ensures.bind (ensures_excused _) ?_
  intro _ _
  refine Ensures.bind (Words.size_write _ _ _) ?_
  intro emptied sameEmptied
  refine Ensures.bind (Chunk.fresh_unused confined.space suits (by omega) (by omega)) ?_
  intro fresh ⟨unused, _⟩
  dsimp only
  refine Ensures.bind (Words.size_write _ _ _) ?_
  intro headed sameHeaded
  refine Ensures.bind (Count.add_ensures (absurd trivial)) ?_
  rintro second ⟨rfl, _⟩
  have kept := confined.withContents (sameHeaded.trans sameEmptied) node.map node.chunksInUse
  refine Ensures.bind (kept.toConfined.coverRest (by unfold Chunk.stop; omega) isConfined.stop_lt) ?_
  intro (after, pieces) ⟨keptRest, piecesUnused⟩
  exact ⟨kept.trans keptRest, (unused.withOrigin .split).withFree true, piecesUnused⟩

end Node

end CollectorMemory
