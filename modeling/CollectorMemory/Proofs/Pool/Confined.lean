import CollectorMemory.Node.Carving
import CollectorMemory.Pool.Take
import CollectorMemory.Proofs.Node.Confined
import CollectorMemory.Proofs.Pool.Contents

/-!
# Pools of confined chunks

Free chunks come from nodes that keep to a limit, and merging them stays in such a node, so that the
chunks of a pool are confined and unused after every operation. A pool may hold a chunk that is not in
its node, or two chunks at one place: what is known here is only what the chunks say of themselves.
-/

namespace CollectorMemory

variable {confines : Confines} {pool : Pool} {node : Node} {chunk : Chunk} {kind : Kind}
  {chunks rest : List Chunk}

/-- A pool of confined chunks that are not used, each in the list of its kind. -/
structure Pool.Confined (confines : Confines) (pool : Pool) : Prop where
  /-- The pool has the sizes of the space. -/
  sizes : pool.sizes = confines.sizes
  /-- The chunks are unused and confined, and in the lists of their kinds. -/
  chunks : ∀ kind, ∀ chunk ∈ pool.ofKind kind, chunk.kind = kind ∧ chunk.Unused confines

namespace Pool

/-- An empty pool holds no other chunks. -/
theorem confined_empty {isClass : Bool} {audited : Bool} :
    (Pool.empty isClass confines.sizes audited).Confined confines where
  sizes := rfl
  chunks kind := by
    cases kind <;> exact List.forall_mem_nil _

/-- A pool is confined whatever its numbers are. -/
theorem Confined.withNumbers (confined : pool.Confined confines) (words count : Nat) :
    Pool.Confined confines { pool with words, count } where
  sizes := confined.sizes
  chunks kind := by
    have chunks := confined.chunks kind
    cases kind <;> exact chunks

/-- A list of unused chunks can replace the list of their kind. -/
theorem Confined.withKind (confined : pool.Confined confines)
    (all : ∀ chunk ∈ chunks, chunk.kind = kind ∧ chunk.Unused confines) :
    (pool.withKind kind chunks).Confined confines where
  sizes := alike_withKind.sizes.trans confined.sizes
  chunks other chunk member := by
    rw [ofKind_withKind] at member
    split at member
    · next same =>
      rw [same]
      exact all chunk member
    · exact confined.chunks other chunk member

/-- An unused chunk can be put in. -/
theorem Confined.push (confined : pool.Confined confines) (unused : chunk.Unused confines) :
    (pool.push chunk).Confined confines := by
  apply confined.withKind
  intro other member
  rcases mem_insertOrdered member with isChunk | inList
  · rw [isChunk]
    exact ⟨rfl, unused⟩
  · exact confined.chunks chunk.kind other inList

/-- What is taken out of a confined pool passes the test and is unused, and what is left is confined. -/
theorem Confined.taken {test : Chunk → Bool} (confined : pool.Confined confines)
    (taken : takeFirst? test (pool.ofKind kind) = some (chunk, rest)) :
    test chunk = true ∧ chunk.Unused confines ∧ (pool.withKind kind rest).Confined confines := by
  obtain ⟨passes, perm⟩ := takeFirst?_eq_some taken
  refine ⟨passes, (confined.chunks kind chunk (perm.mem_iff.mpr List.mem_cons_self)).2, ?_⟩
  exact confined.withKind fun other inRest =>
    confined.chunks kind other (perm.mem_iff.mpr (List.mem_cons_of_mem chunk inRest))

/-- A pool is confined after the numbers of a chunk are added. -/
theorem Confined.countAdded (confined : pool.Confined confines) (chunk : Chunk) :
    Ensures True (pool.countAdded chunk) (Pool.Confined confines) := by
  unfold Pool.countAdded
  refine Ensures.bind (ensures_excused _) ?_
  intro words _
  exact confined.withNumbers words _

/-- A pool is confined after the numbers of a chunk are taken off. -/
theorem Confined.countRemoved (confined : pool.Confined confines) (chunk : Chunk) :
    Ensures True (pool.countRemoved chunk) (Pool.Confined confines) := by
  unfold Pool.countRemoved
  refine Ensures.bind (ensures_excused _) ?_
  intro _ _
  refine Ensures.bind (ensures_excused _) ?_
  intro _ _
  exact confined.withNumbers _ _

/-- A pool is confined after the numbers of chunks are taken off. -/
theorem Confined.countAllRemoved (confined : pool.Confined confines) (chunks : List Chunk) :
    Ensures True (pool.countAllRemoved chunks) (Pool.Confined confines) := by
  induction chunks generalizing pool with
  | nil => exact confined
  | cons chunk chunks ih =>
    unfold Pool.countAllRemoved
    rw [List.foldlM_cons]
    refine Ensures.bind (confined.countRemoved chunk) ?_
    intro after confinedAfter
    exact ih confinedAfter

/-- A pool is confined without the chunks of a node. -/
theorem Confined.dropNode (confined : pool.Confined confines) (id : NodeId) :
    Ensures True (pool.dropNode id) fun (after, _) => after.Confined confines := by
  unfold Pool.dropNode
  dsimp only
  refine Ensures.bind ?_ fun after (confinedAfter : after.Confined confines) => confinedAfter
  apply Confined.countAllRemoved
  refine ⟨confined.sizes, fun kind chunk member => confined.chunks kind chunk ?_⟩
  cases kind <;> exact List.mem_of_mem_filter member

/-- A pool is confined without the chunk of a header. -/
theorem Confined.unlink (confined : pool.Confined confines) (id : NodeId) (offset : Nat)
    (header : Header) :
    Ensures True (pool.unlink id offset header) fun (after, _) => after.Confined confines := by
  unfold Pool.unlink
  dsimp only
  split
  · next result found =>
    obtain ⟨kind, _, taken⟩ := Option.bind_eq_some_iff.mp found
    obtain ⟨⟨chunk, rest⟩, isFirst, rfl⟩ := Option.map_eq_some_iff.mp taken
    exact (confined.taken isFirst).2.2
  · trivial

/-- A pool is confined without the chunks of headers. -/
theorem Confined.unlinkAll (confined : pool.Confined confines) (id : NodeId)
    (headers : List (Nat × Header)) :
    Ensures True (pool.unlinkAll id headers) fun (after, _) => after.Confined confines := by
  induction headers generalizing pool with
  | nil => exact confined
  | cons header headers ih =>
    unfold Pool.unlinkAll
    refine Ensures.bind (confined.unlink id _ _) ?_
    rintro ⟨middle, _⟩ confinedMiddle
    refine Ensures.bind (ih confinedMiddle) ?_
    rintro ⟨after, _⟩ confinedAfter
    exact confinedAfter

/-- Merging stays in what is carved of the node, and so within the limit. -/
theorem Confined.mergeAround (confined : pool.Confined confines) (isNode : node.Confined confines)
    {offset : Nat} {target : Kind} :
    Ensures True (pool.mergeAround node offset kind target).outcome fun (_, pool', node') =>
      pool'.Confined confines ∧ node.Keeps confines node' := by
  have topLe := isNode.top_le_limit
  unfold Pool.mergeAround
  refine Ensures.bindRun (ensures_excused _) ?_
  intro _ _
  refine Ensures.bindRun (ensures_returned _) ?_
  intro size fixed
  rw [confined.sizes] at fixed
  refine Ensures.bindRun (ensures_excused _) ?_
  intro start _
  refine Ensures.bindRun (ensures_excused _) ?_
  intro mergeable _
  split
  · exact ⟨confined, isNode.refl⟩
  refine ensures_note ?_
  -- The headers are read in the carved part alone, so the merged chunk is no larger than it.
  refine Ensures.bindRun node.headersIn_inside ?_
  intro headers ⟨inside, counted⟩
  refine Ensures.bindRun (confined.unlinkAll _ _) ?_
  intro (without, absorbed) confinedWithout
  refine Ensures.bindRun (ensures_excused _) ?_
  intro _ _
  refine Ensures.bindRun (ensures_excused _) ?_
  intro _ _
  refine Ensures.bindRun (isNode.merge fixed (by omega) counted) ?_
  intro (after, merged) ⟨kept, mergedUnused⟩
  refine ensures_note ?_
  refine Ensures.bindRun (ensures_excused _) ?_
  intro count _
  refine Ensures.bindRun (ensures_excused _) ?_
  intro _ _
  exact ⟨(confinedWithout.push mergedUnused).withNumbers _ count, kept⟩

/-- Merging the neighbours of a chunk keeps everything confined. -/
theorem Confined.mergeNeighbours (confined : pool.Confined confines)
    (isNode : node.Confined confines) (chunk : Chunk) :
    Ensures True (pool.mergeNeighbours node chunk).outcome fun (pool', node') =>
      pool'.Confined confines ∧ node.Keeps confines node' := by
  unfold Pool.mergeNeighbours
  split
  · exact ⟨confined, isNode.refl⟩
  · exact ⟨confined, isNode.refl⟩
  · refine Ensures.bindRun (confined.mergeAround isNode) ?_
    intro (_, after) merged
    exact merged
  · refine Ensures.bindRun (confined.mergeAround isNode) ?_
    intro (isMerged, middle, between) ⟨confinedMiddle, kept⟩
    dsimp only
    split
    · exact ⟨confinedMiddle, kept⟩
    · refine Ensures.bindRun (confinedMiddle.mergeAround kept.toConfined) ?_
      intro (_, after, last) ⟨confinedAfter, keptLast⟩
      exact ⟨confinedAfter, kept.trans keptLast⟩

/-- Putting a confined chunk back keeps everything confined. -/
theorem Confined.putBack (confined : pool.Confined confines) (isNode : node.Confined confines)
    (isConfined : chunk.Confined confines) :
    Ensures True (pool.putBack node chunk).outcome fun (pool', node') =>
      pool'.Confined confines ∧ node.Keeps confines node' := by
  unfold Pool.putBack
  refine Ensures.bindRun (ensures_excused _) ?_
  intro _ _
  refine Ensures.bindRun (ensures_excused _) ?_
  intro _ _
  refine Ensures.bindRun (ensures_excused _) ?_
  intro _ _
  refine Ensures.bindRun (ensures_excused _) ?_
  intro _ _
  refine Ensures.bindRun (isNode.fillPayloadIf _ _ _) ?_
  intro filled keptFilled
  refine Ensures.bindRun keptFilled.toConfined.dropInUse ?_
  intro dropped keptDropped
  refine Ensures.bindRun (keptDropped.toConfined.setInUse _ _) ?_
  rintro ⟨tagged, free⟩ ⟨keptTagged, rfl⟩
  refine Ensures.bindRun (confined.countAdded _) ?_
  intro counted confinedCounted
  refine ensures_note ?_
  have kept := (keptFilled.trans keptDropped).trans keptTagged
  have freed : (chunk.emptied.withFree (!false)).Unused confines :=
    ⟨isConfined.congr rfl rfl rfl rfl, rfl⟩
  refine ((confinedCounted.push freed).mergeNeighbours kept.toConfined _).mono ?_
  intro (after, last) ⟨confinedAfter, keptLast⟩
  exact ⟨confinedAfter, kept.trans keptLast⟩

/-- Putting confined chunks back keeps everything confined. -/
theorem Confined.putBackAll (confined : pool.Confined confines) (isNode : node.Confined confines)
    (all : ∀ chunk ∈ chunks, chunk.Confined confines) :
    Ensures True (pool.putBackAll node chunks).outcome fun (pool', node') =>
      pool'.Confined confines ∧ node.Keeps confines node' := by
  induction chunks generalizing pool node with
  | nil => exact ⟨confined, isNode.refl⟩
  | cons chunk chunks ih =>
    obtain ⟨isConfined, others⟩ := List.forall_mem_cons.mp all
    unfold Pool.putBackAll
    refine Ensures.bindRun (confined.putBack isNode isConfined) ?_
    intro (middle, between) ⟨confinedMiddle, kept⟩
    refine (ih confinedMiddle kept.toConfined others).mono ?_
    intro (after, last) ⟨confinedAfter, keptLast⟩
    exact ⟨confinedAfter, kept.trans keptLast⟩

/-- The first chunk of some kinds is unused, and of one of them. -/
theorem Confined.firstOf? {kinds : List Kind} {after : Pool} (confined : pool.Confined confines)
    (found : pool.firstOf? kinds = some (after, chunk)) :
    after.Confined confines ∧ chunk.Unused confines ∧ chunk.kind ∈ kinds := by
  induction kinds with
  | nil => cases found
  | cons kind larger ih =>
    unfold Pool.firstOf? at found
    split at found
    · next first rest isList =>
      cases found
      obtain ⟨isKind, unused⟩ := confined.chunks kind chunk (isList ▸ List.mem_cons_self)
      refine ⟨confined.withKind ?_, unused, isKind ▸ List.mem_cons_self⟩
      exact fun other inRest =>
        confined.chunks kind other (isList ▸ List.mem_cons_of_mem chunk inRest)
    · obtain ⟨confinedAfter, unused, isKind⟩ := ih found
      exact ⟨confinedAfter, unused, List.mem_cons_of_mem kind isKind⟩

/-- The pieces of a split chunk can be put in. -/
theorem Confined.pushPieces (confined : pool.Confined confines)
    (all : ∀ piece ∈ chunks, piece.Unused confines) :
    Ensures True (pool.pushPieces node chunks) (Pool.Confined confines) := by
  induction chunks generalizing pool with
  | nil => exact confined
  | cons piece pieces ih =>
    obtain ⟨unused, others⟩ := List.forall_mem_cons.mp all
    unfold Pool.pushPieces
    refine Ensures.bind (ensures_excused _) ?_
    intro _ _
    exact ih (confined.push unused) others

end Pool

namespace Node

/-- Carving padding keeps a node confined. -/
theorem Confined.padFrom (isNode : node.Confined confines) (stop here : Nat) :
    Ensures True (node.padFrom stop here) fun (after, padding) =>
      node.Keeps confines after ∧ ∀ chunk ∈ padding, chunk.Confined confines := by
  induction left : stop - here using Nat.strong_induction_on generalizing node here with
  | _ left ih =>
    rw [Node.padFrom]
    by_cases more : here < stop
    · rw [if_pos more]
      refine Ensures.bind (ensures_excused _) ?_
      rintro ⟨size, positive⟩ _
      refine Ensures.bind (ensures_excused _) ?_
      intro _ _
      refine Ensures.bind (ensures_returned _) ?_
      intro kind isKind
      rw [isNode.sizes] at isKind
      refine Ensures.bind (isNode.carve (ChunkSizes.kindOfSize_eq_ok_iff.mp isKind)) ?_
      rintro ⟨padded, chunk⟩ ⟨kept, unused, _⟩
      refine Ensures.bind (ih (stop - (here + size)) (by omega) kept.toConfined _ rfl) ?_
      rintro ⟨after, rest⟩ ⟨keptRest, restConfined⟩
      exact ⟨kept.trans keptRest, List.forall_mem_cons.mpr ⟨unused.toConfined, restConfined⟩⟩
    · rw [if_neg more]
      exact ⟨isNode.refl, List.forall_mem_nil _⟩

/-- A chunk that is carved behind padding is unused and of the size asked for, and the pool that the
padding is put into is confined. -/
theorem Confined.carveAligned (isNode : node.Confined confines) (isPool : pool.Confined confines)
    (size : Nat) (origin : Origin) :
    Ensures True (node.carveAligned size origin pool).outcome fun result =>
      match result with
      | none => True
      | some (after, pool', chunk) =>
        node.Keeps confines after ∧ pool'.Confined confines ∧ chunk.Unused confines ∧
          chunk.size = size := by
  unfold Node.carveAligned
  refine Ensures.bindRun (ensures_returned _) ?_
  intro kind isKind
  rw [isNode.sizes] at isKind
  refine Ensures.bindRun (ensures_excused _) ?_
  intro start _
  refine Ensures.bindRun (ensures_excused _) ?_
  intro needed _
  split
  · trivial
  refine ensures_noteIf ?_
  refine Ensures.bindRun (isNode.padFrom _ _) ?_
  intro (padded, padding) ⟨kept, paddingConfined⟩
  refine Ensures.bindRun (kept.toConfined.carve (ChunkSizes.kindOfSize_eq_ok_iff.mp isKind)) ?_
  intro (full, chunk) ⟨keptFull, unused, isSize⟩
  refine Ensures.bindRun (isPool.putBackAll keptFull.toConfined paddingConfined) ?_
  intro (after, last) ⟨confinedAfter, keptLast⟩
  refine ensures_note ?_
  refine Ensures.bindRun (ensures_excused _) ?_
  intro _ _
  exact ⟨(kept.trans keptFull).trans keptLast, confinedAfter, unused, isSize⟩

/-- Carving chunks into the pool keeps everything confined. -/
theorem Confined.retireSize (isNode : node.Confined confines) (isPool : pool.Confined confines)
    (size rounds count : Nat) :
    Ensures True (node.retireSize pool size rounds count).outcome fun (after, pool', _) =>
      node.Keeps confines after ∧ pool'.Confined confines := by
  induction rounds generalizing node pool count with
  | zero => exact ⟨isNode.refl, isPool⟩
  | succ rounds ih =>
    unfold Node.retireSize
    split
    · exact ⟨isNode.refl, isPool⟩
    refine Ensures.bindRun (isNode.carveAligned isPool size .leftover) ?_
    rintro (_ | ⟨middle, between, chunk⟩) carved
    · exact ⟨isNode.refl, isPool⟩
    · obtain ⟨kept, confinedBetween, unused, _⟩ := carved
      refine Ensures.bindRun (confinedBetween.putBack kept.toConfined unused.toConfined) ?_
      intro (returned, filled) ⟨confinedReturned, keptFilled⟩
      refine (ih keptFilled.toConfined confinedReturned (count + 1)).mono ?_
      intro (after, last, _) ⟨keptAfter, confinedLast⟩
      exact ⟨(kept.trans keptFilled).trans keptAfter, confinedLast⟩

/-- Giving up a node keeps everything confined. -/
theorem Confined.retire (isNode : node.Confined confines) (isPool : pool.Confined confines) :
    Ensures True (node.retire pool).outcome fun (after, pool') =>
      node.Keeps confines after ∧ pool'.Confined confines := by
  unfold Node.retire
  refine Ensures.bindRun (ensures_excused _) ?_
  intro _ _
  refine Ensures.bindRun (isNode.retireSize isPool _ _ _) ?_
  intro (first, firstPool, _) ⟨keptFirst, confinedFirst⟩
  refine Ensures.bindRun (keptFirst.toConfined.retireSize confinedFirst _ _ _) ?_
  intro (second, secondPool, _) ⟨keptSecond, confinedSecond⟩
  refine Ensures.bindRun (keptSecond.toConfined.retireSize confinedSecond _ _ _) ?_
  intro (third, thirdPool, _) ⟨keptThird, confinedThird⟩
  refine Ensures.bindRun (ensures_excused _) ?_
  intro _ _
  refine ensures_note ?_
  exact ⟨(keptFirst.trans keptSecond).trans keptThird, confinedThird⟩

end Node

end CollectorMemory
