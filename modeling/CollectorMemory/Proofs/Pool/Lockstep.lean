import CollectorMemory.NodeList.Purge
import CollectorMemory.Proofs.Node.Lockstep
import CollectorMemory.Proofs.Pool.Retiring

/-!
# Twin pools in lockstep

Twin pools hold the same chunks, and one of them may be audited where the other is not. What is done
with a pool and a node is done in lockstep with their twins. Headers are read where free chunks are
merged, and there the blocks of the row decide what is read, so both sides must be stocks of one row.
-/

namespace CollectorMemory

variable {excuse : Prop} {uses : Nat} {pool pool' : Pool} {node node' : Node} {loose : List Chunk}
  {row row' : List Block} {chunk : Chunk} {kind target : Kind}

/-- Two pools that are the same but for whether they are audited. -/
def Pool.Twin (pool twin : Pool) : Prop := ∃ audited, twin = { pool with audited }

namespace Pool

variable {twin : Pool}

/-- Twin pools hold the same chunks of every kind. -/
theorem Twin.ofKind (twins : pool.Twin twin) (kind : Kind) : twin.ofKind kind = pool.ofKind kind := by
  obtain ⟨_, rfl⟩ := twins
  cases kind <;> rfl

/-- Twin pools hold the same chunks. -/
theorem Twin.chunks (twins : pool.Twin twin) : twin.chunks = pool.chunks := by
  obtain ⟨_, rfl⟩ := twins
  rfl

/-- Twin pools serve the same space. -/
theorem Twin.isClass (twins : pool.Twin twin) : twin.isClass = pool.isClass := by
  obtain ⟨_, rfl⟩ := twins
  rfl

/-- Twin pools have the same chunk sizes. -/
theorem Twin.sizes (twins : pool.Twin twin) : twin.sizes = pool.sizes := by
  obtain ⟨_, rfl⟩ := twins
  rfl

/-- Twin pools hold the same number of chunks. -/
theorem Twin.count (twins : pool.Twin twin) : twin.count = pool.count := by
  obtain ⟨_, rfl⟩ := twins
  rfl

/-- Twin pools stay twins with other chunks of a kind. -/
theorem Twin.withKind (twins : pool.Twin twin) (kind : Kind) (chunks : List Chunk) :
    (pool.withKind kind chunks).Twin (twin.withKind kind chunks) := by
  obtain ⟨audited, rfl⟩ := twins
  cases kind <;> exact ⟨audited, rfl⟩

/-- Twin pools stay twins where a chunk is put into both. -/
theorem Twin.push (twins : pool.Twin twin) (chunk : Chunk) :
    (pool.push chunk).Twin (twin.push chunk) := by
  unfold Pool.push
  rw [twins.ofKind]
  exact twins.withKind _ _

/-- Twin pools count a chunk in lockstep. -/
theorem Twin.countAdded (twins : pool.Twin twin) (chunk : Chunk) :
    Lockstep excuse Pool.Twin (pool.countAdded chunk) (twin.countAdded chunk) := by
  obtain ⟨audited, rfl⟩ := twins
  unfold Pool.countAdded
  apply lockstep_same
  intro words _
  exact ⟨audited, rfl⟩

/-- Twin pools take a chunk off their numbers in lockstep. -/
theorem Twin.countRemoved (twins : pool.Twin twin) (chunk : Chunk) :
    Lockstep excuse Pool.Twin (pool.countRemoved chunk) (twin.countRemoved chunk) := by
  obtain ⟨audited, rfl⟩ := twins
  unfold Pool.countRemoved
  apply lockstep_same
  intro _ _
  apply lockstep_same
  intro _ _
  exact ⟨audited, rfl⟩

/-- Twin pools take chunks off their numbers in lockstep. -/
theorem Twin.countAllRemoved (twins : pool.Twin twin) (chunks : List Chunk) :
    Lockstep excuse Pool.Twin (pool.countAllRemoved chunks) (twin.countAllRemoved chunks) := by
  unfold Pool.countAllRemoved
  induction chunks generalizing pool twin with
  | nil => exact twins
  | cons head rest ih =>
    rw [List.foldlM_cons, List.foldlM_cons]
    apply Lockstep.bind (twins.countRemoved head)
    intro counted counted' twinsCounted
    exact ih twinsCounted

/-- Twin pools give up the chunks of a node in lockstep. -/
theorem Twin.dropNode (twins : pool.Twin twin) (id : NodeId) :
    Lockstep excuse (Alongside Pool.Twin) (pool.dropNode id) (twin.dropNode id) := by
  obtain ⟨audited, rfl⟩ := twins
  unfold Pool.dropNode
  refine Lockstep.bind (Twin.countAllRemoved ⟨audited, rfl⟩ _) ?_
  intro counted counted' twinsCounted
  exact ⟨twinsCounted, rfl⟩

/-- Twin pools take the same chunk out of a list in lockstep. -/
theorem Twin.unlink (twins : pool.Twin twin) (id : NodeId) (offset : Nat) (header : Header) :
    Lockstep excuse (Alongside Pool.Twin) (pool.unlink id offset header)
      (twin.unlink id offset header) := by
  unfold Pool.unlink
  rw [twins.isClass]
  cases header.kind? with
  | none => exact Or.inr rfl
  | some kind =>
    simp only [Option.bind_some, twins.ofKind]
    cases takeFirst? _ (pool.ofKind kind) with
    | none => exact Or.inr rfl
    | some taken => exact ⟨twins.withKind kind taken.2, rfl⟩

/-- Twin pools take the same chunks out of their lists in lockstep. -/
theorem Twin.unlinkAll (twins : pool.Twin twin) (id : NodeId) (headers : List (Nat × Header)) :
    Lockstep excuse (Alongside Pool.Twin) (pool.unlinkAll id headers)
      (twin.unlinkAll id headers) := by
  induction headers generalizing pool twin with
  | nil => exact ⟨twins, rfl⟩
  | cons head rest ih =>
    obtain ⟨offset, header⟩ := head
    unfold Pool.unlinkAll
    apply Lockstep.bind (twins.unlink id offset header)
    rintro ⟨first, chunk⟩ ⟨first', _⟩ ⟨twinsFirst, rfl⟩
    apply Lockstep.bind (ih twinsFirst)
    rintro ⟨last, chunks⟩ ⟨last', _⟩ ⟨twinsLast, rfl⟩
    exact ⟨twinsLast, rfl⟩

/-- The first chunk of twin pools is the same. -/
theorem Twin.firstOf? (twins : pool.Twin twin) (kinds : List Kind) :
    Option.Rel (Alongside Pool.Twin) (pool.firstOf? kinds) (twin.firstOf? kinds) := by
  induction kinds with
  | nil => exact Option.Rel.none
  | cons kind larger ih =>
    unfold Pool.firstOf?
    rw [twins.ofKind]
    split
    · exact Option.Rel.some ⟨twins.withKind _ _, rfl⟩
    · exact ih

/-- Pieces are put into twin pools in lockstep. -/
theorem Twin.pushPieces (twins : pool.Twin twin) (node node' : Node) (pieces : List Chunk) :
    Lockstep True Pool.Twin (pool.pushPieces node pieces) (twin.pushPieces node' pieces) := by
  induction pieces generalizing pool twin with
  | nil => exact twins
  | cons head rest ih =>
    unfold Pool.pushPieces
    apply Lockstep.bind (lockstep_checks _ _)
    intro _ _ _
    exact ih (twins.push head)

end Pool

/-- Stocks of twins have the same row. -/
theorem Stock.row_eq (stock : Stock uses pool node loose row)
    (stock' : Stock uses pool' node' loose row') (pools : pool.Twin pool') (nodes : node.Twin node') :
    row' = row := by
  have tiles' := stock'.carved.tiles
  have perm' := stock'.perm
  rw [nodes.top] at tiles'
  rw [nodes.id, pools.chunks] at perm'
  exact tiles'.eq_of_perm stock.carved.tiles (perm'.trans stock.perm.symm)

/-- Twins find the same headers in an area that can be merged. -/
theorem Stock.headersIn_lockstep {start size : Nat} (stock : Stock uses pool node loose row)
    (stock' : Stock uses pool' node' loose row') (pools : pool.Twin pool') (nodes : node.Twin node')
    (mergeable : Mergeable row node.top start size) :
    Lockstep True (fun headers headers' => headers' = headers) (node.headersIn start size)
      (node'.headersIn start size) := by
  have sameRow := stock.row_eq stock' pools nodes
  subst sameRow
  obtain ⟨front, area, back, rfl, _, areaTiles, _, _⟩ := mergeable.split stock.carved.tiles
  apply (lockstep_of_ensures (stock.carved.headersIn_ensures areaTiles mergeable.inside)
    (stock'.carved.headersIn_ensures areaTiles (by rw [nodes.top]; exact mergeable.inside))).mono
  intro headers headers' ⟨isHeaders, isHeaders'⟩
  rw [isHeaders, isHeaders']
  unfold Node.headersOf
  rw [nodes.isClass]

/-- Stocks of twins merge areas in lockstep. -/
theorem Stock.mergeAround_lockstep (stock : Stock uses pool node loose row)
    (stock' : Stock uses pool' node' loose row') (pools : pool.Twin pool') (nodes : node.Twin node')
    (offset : Nat) (kind target : Kind) :
    Lockstep True
      (fun (isMerged, pool, node) (isMerged', pool', node') =>
        isMerged' = isMerged ∧ pool.Twin pool' ∧ node.Twin node')
      (pool.mergeAround node offset kind target).outcome
      (pool'.mergeAround node' offset kind target).outcome := by
  unfold Pool.mergeAround
  rw [pools.sizes]
  apply lockstep_sameRun
  intro _ allowed
  apply lockstep_sameRun
  intro size fixed
  apply lockstep_sameRun
  intro start rounded
  rw [nodes.canMerge]
  apply lockstep_sameRun
  intro can isMergeable
  cases can with
  | false => exact ⟨rfl, pools, nodes⟩
  | true =>
    have isTarget : target = .small ∨ target = .medium := by
      have checked := (ensures_require (absurd trivial)).of_ok allowed
      revert checked
      cases kind <;> cases target <;> decide
    rw [Run.outcome_liftM, stock.sizes] at fixed
    have isStart := (@Count.roundDown_ensures False offset size
      (node.sizes.pos_of_fixedSize fixed)).of_ok rounded
    have isArea : Area node.sizes target start size :=
      ⟨isTarget, fixed, by rw [isStart]; exact Nat.mul_mod_left _ _⟩
    have suits := isArea.suits
    have mergeable := ((stock.carved.canMerge_ensures (suits.offset_whole isArea.alignment)
      suits.whole isArea.positive (absurd trivial)).of_ok isMergeable).mp rfl
    apply lockstep_note
    apply Lockstep.bindRun (stock.headersIn_lockstep stock' pools nodes mergeable)
    intro headers headers' same
    cases same
    rw [nodes.id]
    apply Lockstep.bindRun (pools.unlinkAll node.id headers)
    intro (rest, absorbed) (rest', absorbed') ⟨twinsRest, same⟩
    cases same
    apply lockstep_sameRun
    intro total _
    apply lockstep_sameRun
    intro _ _
    apply Lockstep.bindRun (nodes.merge start target absorbed)
    intro (after, merged) (after', merged') ⟨twinsAfter, same⟩
    cases same
    apply lockstep_note
    dsimp only
    rw [twinsRest.count]
    apply lockstep_sameRun
    intro count _
    apply Lockstep.bindRun (lockstep_checks _ _)
    intro _ _ _
    obtain ⟨audited, pushed⟩ := twinsRest.push merged
    rw [pushed]
    exact ⟨rfl, ⟨audited, rfl⟩, twinsAfter⟩

/-- Stocks of twins merge the neighbours of a chunk in lockstep. -/
theorem Stock.mergeNeighbours_lockstep (stock : Stock uses pool node loose row)
    (stock' : Stock uses pool' node' loose row') (pools : pool.Twin pool') (nodes : node.Twin node')
    (below : chunk.bottom < node.top) :
    Lockstep True (fun (pool, node) (pool', node') => pool.Twin pool' ∧ node.Twin node')
      (pool.mergeNeighbours node chunk).outcome (pool'.mergeNeighbours node' chunk).outcome := by
  have isMedium := Area.around_medium node.sizes chunk.bottom
  have isMedium' := Area.around_medium node'.sizes chunk.bottom
  unfold Pool.mergeNeighbours
  cases chunk.kind with
  | medium => exact ⟨pools, nodes⟩
  | humongous => exact ⟨pools, nodes⟩
  | small =>
    apply Lockstep.bindRun (stock.mergeAround_lockstep stock' pools nodes _ _ _)
    intro (_, _, _) (_, _, _) ⟨_, twins⟩
    exact twins
  | specialized =>
    apply Lockstep.bindRun ((stock.mergeAround_lockstep stock' pools nodes _ _ _).ensured
      (stock.mergeAround_ensures (absurd trivial) (by decide) isMedium rfl below)
      (stock'.mergeAround_ensures (absurd trivial) (by decide) isMedium' rfl
        (by rw [nodes.top]; exact below)))
    intro (isMerged, after, last) (isMerged', after', last') ⟨⟨same, twins⟩, left, right⟩
    cases same
    cases isMerged with
    | true => exact twins
    | false =>
      -- Nothing was merged, so the stocks are as they were.
      obtain ⟨_, rfl, rfl, _⟩ | ⟨isTrue, _⟩ := left
      · obtain ⟨_, rfl, rfl, _⟩ | ⟨isTrue, _⟩ := right
        · apply Lockstep.bindRun (stock.mergeAround_lockstep stock' pools nodes _ _ _)
          intro (_, _, _) (_, _, _) ⟨_, twins⟩
          exact twins
        · cases isTrue
      · cases isTrue

/-- Chunks are released in lockstep with twins. -/
theorem Pool.Twin.release (pools : pool.Twin pool') (nodes : node.Twin node') (chunk : Chunk) :
    Lockstep True
      (fun (pool, node, freed) (pool', node', freed') =>
        pool.Twin pool' ∧ node.Twin node' ∧ freed' = freed)
      (pool.release node chunk).outcome (pool'.release node' chunk).outcome := by
  unfold Pool.release
  rw [nodes.id, pools.isClass]
  apply lockstep_sameRun
  intro _ _
  apply lockstep_sameRun
  intro _ _
  apply Lockstep.bindRun (lockstep_checks _ _)
  intro _ _ _
  apply lockstep_sameRun
  intro _ _
  apply Lockstep.bindRun (lockstep_of_ensures (Node.fillPayloadIf_twin _ _ _)
    (Node.fillPayloadIf_twin _ _ _))
  intro filled filled' ⟨isTwin, isTwin'⟩
  apply Lockstep.bindRun ((isTwin.symm.trans nodes).trans isTwin').dropInUse
  intro dropped dropped' twinsDropped
  apply Lockstep.bindRun (twinsDropped.setInUse chunk.emptied false)
  intro (tagged, freed) (tagged', freed') ⟨twinsTagged, same⟩
  cases same
  apply Lockstep.bindRun (pools.countAdded freed)
  intro counted counted' twinsCounted
  apply lockstep_note
  exact ⟨twinsCounted.push freed, twinsTagged, rfl⟩

/-- Chunks are put back in lockstep with twins. -/
theorem Settled.putBack_lockstep (settled : Settled uses pool node (chunk :: loose) row)
    (settled' : Settled uses pool' node' (chunk :: loose) row') (pools : pool.Twin pool')
    (nodes : node.Twin node') (container : chunk.container = node.id) :
    Lockstep True (fun (pool, node) (pool', node') => pool.Twin pool' ∧ node.Twin node')
      (pool.putBack node chunk).outcome (pool'.putBack node' chunk).outcome := by
  rw [Pool.putBack_eq, Pool.putBack_eq]
  apply Lockstep.bindRun ((pools.release nodes chunk).ensured
    (settled.release_ensures (absurd trivial) container)
    (settled'.release_ensures (absurd trivial) (by rw [nodes.id]; exact container)))
  intro (pool, node, freed) (pool', node', freed') ⟨⟨pools, nodes, same⟩, left, right⟩
  cases same
  obtain ⟨middle, stock, _, _, member, _⟩ := left
  obtain ⟨middle', stock', _⟩ := right
  have inside := stock.carved.tiles.bounds member
  exact stock.mergeNeighbours_lockstep stock' pools nodes (Nat.lt_of_lt_of_le inside.2.1 inside.2.2)

/-- A chunk is put back in lockstep with twins, which settles both stocks again. -/
theorem Settled.putBack_settles (settled : Settled uses pool node (chunk :: loose) row)
    (settled' : Settled uses pool' node' (chunk :: loose) row') (pools : pool.Twin pool')
    (nodes : node.Twin node') (container : chunk.container = node.id) :
    Lockstep True
      (fun (after, last) (after', last') =>
        after.Twin after' ∧ last.Twin last' ∧ node.Alike last ∧
          ∃ row row', Settled uses after last loose row ∧ Settled uses after' last' loose row')
      (pool.putBack node chunk).outcome (pool'.putBack node' chunk).outcome := by
  have container' : chunk.container = node'.id := by
    rw [nodes.id]
    exact container
  apply ((settled.putBack_lockstep settled' pools nodes container).ensured
    (settled.putBack_ensures (absurd trivial) container)
    (settled'.putBack_ensures (absurd trivial) container')).mono
  intro (after, last) (after', last') ⟨⟨pools, nodes⟩, left, right⟩
  obtain ⟨row, settledLast, steady, _⟩ := left
  obtain ⟨row', settledLast', _⟩ := right
  exact ⟨pools, nodes, steady.nodeAlike, row, row', settledLast, settledLast'⟩

/-- Chunks are put back one after the other in lockstep with twins. -/
theorem Settled.putBackAll_lockstep {chunks : List Chunk}
    (settled : Settled uses pool node (chunks ++ loose) row)
    (settled' : Settled uses pool' node' (chunks ++ loose) row') (pools : pool.Twin pool')
    (nodes : node.Twin node') (container : ∀ chunk ∈ chunks, chunk.container = node.id) :
    Lockstep True (fun (pool, node) (pool', node') => pool.Twin pool' ∧ node.Twin node')
      (pool.putBackAll node chunks).outcome (pool'.putBackAll node' chunks).outcome := by
  induction chunks generalizing pool node pool' node' row row' with
  | nil => exact ⟨pools, nodes⟩
  | cons head rest ih =>
    have here := container head List.mem_cons_self
    unfold Pool.putBackAll
    apply Lockstep.bindRun (settled.putBack_settles settled' pools nodes here)
    rintro _ _ ⟨pools, nodes, alike, _, _, after, after'⟩
    apply ih after after' pools nodes
    intro chunk member
    rw [alike.id]
    exact container chunk (List.mem_cons_of_mem head member)

/-- A chunk is carved with its padding in lockstep with a twin. -/
theorem Node.Twin.carvePadded (nodes : node.Twin node') (kind : Kind) (size start : Nat)
    (origin : Origin) :
    Lockstep True (Alongside Node.Twin) (node.carvePadded kind size start origin).outcome
      (node'.carvePadded kind size start origin).outcome := by
  unfold Node.carvePadded
  rw [nodes.top]
  apply Lockstep.bindRun (nodes.padFrom start node.top)
  intro (padded, padding) (padded', padding') ⟨twinsPadded, same⟩
  cases same
  apply Lockstep.bindRun (twinsPadded.carve kind size origin)
  intro (full, chunk) (full', chunk') ⟨twinsFull, same⟩
  cases same
  exact ⟨twinsFull, rfl⟩

/-- What carving a chunk gives beside what it gives with twins. -/
def CarvedAlongside : Option (Node × Pool × Chunk) → Option (Node × Pool × Chunk) → Prop :=
  Option.Rel fun (node, pool, chunk) (node', pool', chunk') =>
    node.Twin node' ∧ pool.Twin pool' ∧ chunk' = chunk

/-- An aligned chunk is carved with the same result as with twins. -/
theorem Settled.carveAligned_agree {size : Nat} {origin : Origin}
    (settled : Settled uses pool node loose row) (settled' : Settled uses pool' node' loose row')
    (pools : pool.Twin pool') (nodes : node.Twin node')
    (short : size ≤ node.reserved → size < Header.sizeLimit) :
    Lockstep True CarvedAlongside (node.carveAligned size origin pool).outcome
      (node'.carveAligned size origin pool').outcome := by
  rw [Node.carveAligned_eq, Node.carveAligned_eq, nodes.sizes, nodes.top, nodes.uncarved]
  apply lockstep_sameRun
  intro kind isKind
  have suits := ChunkSizes.kindOfSize_eq_ok_iff.mp isKind
  apply lockstep_sameRun
  intro start rounded
  obtain ⟨_, aligned, startLe, startLt, _⟩ :=
    (Count.roundUp_ensures (absurd trivial) (absurd trivial)).of_ok rounded
  apply lockstep_sameRun
  intro needed added
  obtain ⟨rfl, _⟩ := (Count.add_ensures (absurd trivial)).of_ok added
  by_cases few : node.uncarved < start - node.top + size
  · rw [if_pos few, if_pos few]
    exact Option.Rel.none
  · rw [if_neg few, if_neg few]
    have topLe := settled.carved.top_le
    have committedLe := settled.carved.committed_le
    have uncarved : node.uncarved = node.committed - node.top := rfl
    have sizeShort := short (by omega)
    apply lockstep_noteIf
    apply Lockstep.bindRun ((nodes.carvePadded kind size start origin).ensured
      (settled.carvePadded_ensures suits aligned startLe startLt sizeShort (by omega))
      (settled'.carvePadded_ensures (by rw [nodes.sizes]; exact suits)
        (by rw [nodes.sizes]; exact aligned) (by rw [nodes.top]; exact startLe)
        (by rw [nodes.top, nodes.sizes]; exact startLt) sizeShort
        (by rw [nodes.committed]; omega)))
    intro (full, padding, chunk) (full', padding', chunk') ⟨⟨twinsFull, same⟩, left, right⟩
    cases same
    obtain ⟨_, _, steady, paddingHere, _, fullSettled, _⟩ := left
    obtain ⟨_, _, _, _, _, fullSettled', _⟩ := right
    apply Lockstep.bindRun (fullSettled.putBackAll_lockstep fullSettled' pools twinsFull
      fun other member => by
        rw [steady.nodeAlike.id]
        exact paddingHere other member)
    intro (after, last) (after', last') ⟨twinsPool, twinsLast⟩
    apply lockstep_note
    apply Lockstep.bindRun (lockstep_checks _ _)
    intro _ _ _
    exact Option.Rel.some ⟨twinsLast, twinsPool, rfl⟩

/-- From nodes that have fewer words left than a chunk needs none is carved, in lockstep. -/
theorem Node.carveAligned_crowded {size : Nat} {origin : Origin}
    {related : Node × Pool × Chunk → Node × Pool × Chunk → Prop} (sizes : node'.sizes = node.sizes)
    (top : node'.top = node.top) (uncarved : node'.uncarved = node.uncarved)
    (crowded : node.uncarved < size) :
    Lockstep excuse (Option.Rel related) (node.carveAligned size origin pool).outcome
      (node'.carveAligned size origin pool').outcome := by
  rw [Node.carveAligned_eq, Node.carveAligned_eq, sizes, top, uncarved]
  apply lockstep_sameRun
  intro found _
  apply lockstep_sameRun
  intro start _
  apply lockstep_sameRun
  intro needed added
  obtain ⟨rfl, _⟩ := (Count.add_ensures (absurd trivial)).of_ok added
  have few : node.uncarved < start - node.top + size := by omega
  rw [if_pos few, if_pos few]
  exact Option.Rel.none

/-- An aligned chunk of any size is carved in lockstep with twins, if the node is small enough. -/
theorem Settled.carveAligned_lockstep {size : Nat} {origin : Origin}
    (settled : Settled uses pool node loose row) (settled' : Settled uses pool' node' loose row')
    (pools : pool.Twin pool') (nodes : node.Twin node') (room : Room False pool node)
    (room' : Room False pool' node') (small : node.reserved < 2 ^ 57)
    (suits : node.sizes.Suits kind size) (short : size ≤ node.reserved → size < Header.sizeLimit) :
    Lockstep False CarvedAlongside (node.carveAligned size origin pool).outcome
      (node'.carveAligned size origin pool').outcome := by
  have committedLe := settled.carved.committed_le
  have uncarved : node.uncarved = node.committed - node.top := rfl
  by_cases fits : node.reserved + 2 * size < wordLimit
  · apply ((settled.carveAligned_agree settled' pools nodes short).ensured
      (settled.carveAligned_ensures room suits short fun _ => fits)
      (settled'.carveAligned_ensures room' (by rw [nodes.sizes]; exact suits)
        (by rw [nodes.reserved]; exact short) fun _ => by rw [nodes.reserved]; exact fits)).mono
    exact fun _ _ together => together.1
  · -- There is no room for a size that cannot be added to those of the node.
    have crowded : node.uncarved < size := by
      unfold wordLimit at fits
      omega
    exact Node.carveAligned_crowded nodes.sizes nodes.top nodes.uncarved crowded

/-- Chunks of one size are carved and put back with the same result as with twins. -/
theorem Settled.retireSize_agree {size rounds carvedCount : Nat}
    (settled : Settled uses pool node loose row) (settled' : Settled uses pool' node' loose row')
    (pools : pool.Twin pool') (nodes : node.Twin node') (suits : node.sizes.Suits kind size)
    (short : size < Header.sizeLimit) :
    Lockstep True
      (fun (node, pool, count) (node', pool', count') =>
        node.Twin node' ∧ pool.Twin pool' ∧ count' = count)
      (node.retireSize pool size rounds carvedCount).outcome
      (node'.retireSize pool' size rounds carvedCount).outcome := by
  induction rounds generalizing pool node pool' node' row row' carvedCount with
  | zero => exact ⟨nodes, pools, rfl⟩
  | succ rounds ih =>
    unfold Node.retireSize
    rw [nodes.uncarved]
    by_cases few : node.uncarved < size
    · rw [if_pos few, if_pos few]
      exact ⟨nodes, pools, rfl⟩
    · rw [if_neg few, if_neg few]
      apply Lockstep.bindRun ((settled.carveAligned_agree settled' pools nodes fun _ => short).ensured
        (settled.carveAligned_ensures (absurd trivial) suits (fun _ => short) (absurd trivial))
        (settled'.carveAligned_ensures (absurd trivial) (by rw [nodes.sizes]; exact suits)
          (fun _ => short) (absurd trivial)))
      rintro result result' ⟨together, left, right⟩
      cases together with
      | none => exact ⟨nodes, pools, rfl⟩
      | @some carved carved' together =>
        obtain ⟨after, poolAfter, chunk⟩ := carved
        obtain ⟨after', poolAfter', chunk'⟩ := carved'
        obtain ⟨nodesAfter, poolsAfter, same⟩ := together
        cases same
        obtain ⟨_, steady, _, container, _, _, settledAfter, _⟩ := left
        obtain ⟨_, steady', _, _, _, _, settledAfter', _⟩ := right
        have here := container.trans steady.nodeAlike.id.symm
        apply Lockstep.bindRun (settledAfter.putBack_settles settledAfter' poolsAfter nodesAfter here)
        rintro _ _ ⟨poolsLast, nodesLast, alike, _, _, last, last'⟩
        apply ih last last' poolsLast nodesLast
        rw [alike.sizes, steady.nodeAlike.sizes]
        exact suits

/-- Chunks of one size are carved and put back, which settles both stocks again. -/
theorem Settled.retireSize_lockstep {size rounds carvedCount : Nat}
    (settled : Settled uses pool node loose row) (settled' : Settled uses pool' node' loose row')
    (pools : pool.Twin pool') (nodes : node.Twin node') (suits : node.sizes.Suits kind size)
    (short : size < Header.sizeLimit) :
    Lockstep True
      (fun (after, afterPool, count) (after', afterPool', count') =>
        count' = count ∧ after.sizes = node.sizes ∧ after.Twin after' ∧ afterPool.Twin afterPool' ∧
          ∃ last last', Settled uses afterPool after loose last ∧
            Settled uses afterPool' after' loose last')
      (node.retireSize pool size rounds carvedCount).outcome
      (node'.retireSize pool' size rounds carvedCount).outcome := by
  apply ((settled.retireSize_agree settled' pools nodes suits short).ensured
    (settled.retireSize_ensures (absurd trivial) suits short (absurd trivial))
    (settled'.retireSize_ensures (absurd trivial) (by rw [nodes.sizes]; exact suits) short
      (absurd trivial))).mono
  intro (after, afterPool, count) (after', afterPool', count') ⟨⟨nodes, pools, same⟩, left, right⟩
  obtain ⟨steady, _, ⟨last, settledAfter, _⟩, _⟩ := left
  obtain ⟨_, _, ⟨last', settledAfter', _⟩, _⟩ := right
  exact ⟨same, steady.nodeAlike.sizes, nodes, pools, last, last', settledAfter, settledAfter'⟩

/-- A node is given up with the same result as a twin. -/
theorem Settled.retire_agree (settled : Settled uses pool node loose row)
    (settled' : Settled uses pool' node' loose row') (pools : pool.Twin pool')
    (nodes : node.Twin node') :
    Lockstep True (fun (node, pool) (node', pool') => node.Twin node' ∧ pool.Twin pool')
      (node.retire pool).outcome (node'.retire pool').outcome := by
  have smallLt := node.sizes.small_lt
  have specializedLt := node.sizes.specialized_lt
  have short := settled.carved.short
  have smallShort : node.sizes.small < Header.sizeLimit := by omega
  have specializedShort : node.sizes.specialized < Header.sizeLimit := by omega
  unfold Node.retire
  rw [nodes.isClass, pools.isClass, nodes.sizes, nodes.uncarved]
  apply lockstep_sameRun
  intro _ _
  have isMedium : node.sizes.Suits .medium node.sizes.medium := rfl
  refine Lockstep.bindRun (settled.retireSize_lockstep settled' pools nodes isMedium short) ?_
  intro (first, _, _) (first', _, _) ⟨rfl, sizes, nodes, pools, _, _, settled, settled'⟩
  have isSmall : first.sizes.Suits .small node.sizes.small := by rw [sizes]; rfl
  dsimp only
  rw [nodes.uncarved]
  refine Lockstep.bindRun (settled.retireSize_lockstep settled' pools nodes isSmall
    smallShort) ?_
  intro (second, _, _) (second', _, _) ⟨rfl, secondSizes, nodes, pools, _, _, settled, settled'⟩
  have isSpecialized : second.sizes.Suits .specialized node.sizes.specialized := by
    rw [secondSizes, sizes]
    rfl
  dsimp only
  rw [nodes.uncarved]
  refine Lockstep.bindRun (settled.retireSize_lockstep settled' pools nodes isSpecialized
    specializedShort) ?_
  intro (last, _, _) (last', _, _) ⟨rfl, _, nodes, pools, _⟩
  apply Lockstep.bindRun (lockstep_checks _ _)
  intro _ _ _
  apply lockstep_note
  exact ⟨nodes, pools⟩

end CollectorMemory
