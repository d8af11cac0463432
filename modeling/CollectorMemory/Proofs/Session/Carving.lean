import CollectorMemory.Proofs.Session.Sound

/-!
# Carving at the top of a node

A chunk that is taken from the committed words of a node stands at the first offset that suits it, and
the words in front of it are free chunks afterwards. A node that is retired carves all that is left,
at each offset the largest chunk that is aligned there and keeps to what is committed. Free neighbours
may be merged on the way, but no chunk in use is, and free words are counted exactly. All this is said
of any node with a stock, coalesced or not, whose words and those of the pool can be counted.
-/

namespace CollectorMemory

variable {excuse : Prop} {uses size : Nat} {pool pool' : Pool} {node node' : Node}
  {loose : List Chunk} {row after : List Block} {kind : Kind} {chunk : Chunk}

/-- There is room in the counts where all numbers of words are small. -/
theorem Room.of_small (reserved : node.reserved < 2 ^ 55) (medium : node.sizes.medium < 2 ^ 55)
    (elsewhere : wordsOf (outside node.id pool.chunks) < 2 ^ 63) : Room excuse pool node := by
  intro _
  unfold wordLimit
  omega

/-- A list whose current node has no room for a chunk goes on with the pool as they are. -/
theorem NodeList.takeCurrent_of_take_none {list : NodeList} (current : list.current? = some node)
    (nothing : (node.take size pool).outcome = .ok none) :
    (list.takeCurrent size pool).outcome = .ok (none, list, pool) := by
  unfold takeCurrent
  rw [current]
  change (node.take size pool >>= _).outcome = _
  rw [Run.outcome_bind, nothing]
  rfl

/-- A node and its pool after a chunk of some words was carved at an offset. -/
structure Node.Carves (uses : Nat) (loose : List Chunk) (kind : Kind) (size start : Nat) (node : Node)
    (pool : Pool) (node' : Node) (pool' : Pool) (chunk : Chunk) : Prop where
  /-- The chunk stands at the offset, in use. -/
  isChunk : chunk = node.chunkAt kind size start .virtualSpace false
  /-- The chunk ends at the new top. -/
  top : node'.top = start + size
  /-- One chunk more is in use. -/
  inUse : node'.chunksInUse = node.chunksInUse + 1
  /-- As many words more are free as were skipped. -/
  words : pool'.words = pool.words + (start - node.top)
  /-- Every offset that was skipped lies in a free chunk of the node. -/
  padded : ∀ offset, node.top ≤ offset → offset < start →
    ∃ free ∈ pool'.chunks, free.container = node.id ∧ free.bottom ≤ offset ∧ offset < free.stop
  /-- The node has a stock with the chunk, next to all chunks that were loose. -/
  stock : ∃ after, Stock uses pool' node' (chunk :: loose) after
  /-- What else the node and the pool have stays. -/
  steady : Steady loose pool node pool' node'
  /-- The words of every chunk that was loose, its header among them, and its marks stay. -/
  same : ∀ other ∈ loose, other.container = node.id → ∀ offset, other.bottom ≤ offset →
    offset < other.stop → node.SameAt node' offset

/-- A node that is restocked with a chunk at an offset above its top carves the chunk. -/
theorem Restocks.carves {start : Nat} (stock : Stock uses pool node loose row)
    (restocks : Restocks uses loose pool node row pool' node' (chunk :: loose) after)
    (isChunk : chunk = node.chunkAt kind size start .virtualSpace false)
    (top : node'.top = start + size) (startLe : node.top ≤ start) :
    Node.Carves uses loose kind size start node pool node' pool' chunk := by
  have container : chunk.container = node.id := by rw [isChunk]; rfl
  have bottom : chunk.bottom = start := by rw [isChunk]; rfl
  have isSize : chunk.size = size := by rw [isChunk]; rfl
  have alike := restocks.steady.nodeAlike
  have stockAfter := restocks.stock
  refine {
    isChunk := isChunk
    top := top
    inUse := ?_
    words := ?_
    padded := ?_
    stock := ⟨after, stockAfter⟩
    steady := restocks.steady
    same := fun other member here offset => stock.sameAt stockAfter restocks.steady member
      (List.mem_cons_of_mem chunk member) here }
  · rw [stockAfter.chunksInUse_eq, stock.chunksInUse_eq, alike.id, within_cons_self container,
      List.length_cons]
  · have words := restocks.steady.words_eq stock
      (show Stock uses pool' node' ([chunk] ++ loose) after from stockAfter)
    rw [within_cons_self container, wordsOf_cons, show within node.id [] = [] from rfl,
      wordsOf_nil] at words
    omega
  · intro offset lower upper
    rw [← alike.id]
    apply stockAfter.exists_free_at (by omega)
    rintro other member otherHere ⟨otherLower, otherUpper⟩
    rcases List.mem_cons.mp member with isNew | inLoose
    · rw [isNew] at otherLower
      omega
    · -- What was loose before ends below the old top.
      rw [alike.id] at otherHere
      have inside := stock.carved.tiles.bounds
        (stock.mem_row (List.mem_append_right _ inLoose) otherHere)
      have stop : other.block.stop = other.stop := rfl
      omega

/-- After one specialized chunk was allocated, the current node has nine words left of the twelve that
are committed, and a small chunk needs padding there. -/
theorem Session.exists_partly_carved : ∃ (opened reached : Session) (node : Node) (uses : Nat)
    (loose : List Chunk) (row : List Block), ofOptions Options.smallest = .ok opened ∧
    opened.run [.allocate .nonClass 3] = .ok reached ∧
    reached.allocator.nonClass.list.current? = some node ∧
    Stock uses reached.allocator.nonClass.pool node loose row ∧
    (node.top = 3 ∧ node.committed = 12 ∧ node.reserved < 2 ^ 55 ∧ node.sizes.medium < 2 ^ 55 ∧
      wordsOf (outside node.id reached.allocator.nonClass.pool.chunks) < 2 ^ 63) ∧
    node.sizes.kindOfSize 6 = .ok .small := by
  have evaluated : (ofOptions Options.smallest >>= fun session =>
      session.run [.allocate .nonClass 3]).toOption.map (fun reached =>
        reached.allocator.nonClass.list.current?.map fun node =>
          (decide (node.top = 3 ∧ node.committed = 12 ∧ node.reserved < 2 ^ 55 ∧
              node.sizes.medium < 2 ^ 55 ∧
              wordsOf (outside node.id reached.allocator.nonClass.pool.chunks) < 2 ^ 63),
            (node.sizes.kindOfSize 6).toOption)) = some (some (true, some .small)) := by
    decide +kernel
  obtain ⟨opened, reached, made, done, view⟩ := exists_reached evaluated
  have words := Options.smallest_wordsBelow
  obtain ⟨sound, _, _⟩ := reached_sound made done (words.chunkWords (by decide)) (Or.inr words)
  obtain ⟨node, current, seen⟩ := Option.map_eq_some_iff.mp view
  obtain ⟨numbers, isKind⟩ := Prod.mk.inj seen
  obtain ⟨row, settled⟩ :=
    (sound.allocator.arena .nonClass).settled node (NodeList.mem_of_current? current)
  exact ⟨opened, reached, node, _, _, row, made, done, current, settled.toStock,
    of_decide_eq_true numbers, eq_ok_of_toOption isKind⟩

/-- A chunk is taken from the committed words of a node exactly if it fits at the first offset that suits
it, and it is carved there. Where it does not fit nothing changes. -/
theorem Stock.take_carves (stock : Stock uses pool node loose row)
    (reserved : node.reserved < 2 ^ 55) (medium : node.sizes.medium < 2 ^ 55)
    (elsewhere : wordsOf (outside node.id pool.chunks) < 2 ^ 63)
    (isKind : node.sizes.kindOfSize size = .ok kind) (counted : size < wordLimit) :
    ∃ start result, start = Count.nextMultiple node.top (node.sizes.alignment kind size) ∧
      (node.take size pool).outcome = .ok result ∧
      (result.isSome = true ↔ start + size ≤ node.committed) ∧
      (result = none → ∀ list : NodeList, list.current? = some node →
        (list.takeCurrent size pool).outcome = .ok (none, list, pool)) ∧
      ∀ node' pool' chunk, result = some (node', pool', chunk) →
        Node.Carves uses loose kind size start node pool node' pool' chunk := by
  have suits := ChunkSizes.kindOfSize_eq_ok_iff.mp isKind
  have startLe := (Count.nextMultiple_bounds node.top suits.alignment_pos).1
  have alignmentLe := suits.alignment_le_medium
  have sizeLimit : Header.sizeLimit = 2 ^ 56 := rfl
  have room : Room False pool node := Room.of_small reserved medium elsewhere
  have carved : Ensures False (node.take size pool).account _ :=
    stock.carveAligned_ensures room suits (fun _ => by omega)
      fun _ => ⟨counted, by unfold wordLimit; omega⟩
  obtain ⟨⟨result, told⟩, isAccount, post⟩ := carved.exists_ok
  obtain ⟨done, _⟩ := Run.of_account_eq_ok isAccount
  refine ⟨_, result, rfl, done, ?_, ?_, ?_⟩
  · cases result with
    | none =>
      exact ⟨fun isSome => absurd isSome Bool.false_ne_true, fun fits => absurd fits post.1⟩
    | some found =>
      exact ⟨fun _ => post.1, fun _ => rfl⟩
  · rintro rfl list current
    exact NodeList.takeCurrent_of_take_none current done
  · rintro node' pool' chunk rfl
    obtain ⟨_, start, rfl, isChunk, top, _, after, restocks⟩ := post
    exact restocks.carves stock isChunk top startLe

/-- A small chunk is carved behind three words of padding. -/
theorem Stock.small_carved : ∃ (opened reached : Session) (node node' : Node) (pool' : Pool)
    (chunk : Chunk) (uses : Nat) (loose : List Chunk),
    Session.ofOptions Options.smallest = .ok opened ∧
    opened.run [.allocate .nonClass 3] = .ok reached ∧ node.top = 3 ∧
    (node.take 6 reached.allocator.nonClass.pool).outcome = .ok (some (node', pool', chunk)) ∧
    Node.Carves uses loose .small 6 6 node reached.allocator.nonClass.pool node' pool' chunk := by
  obtain ⟨opened, reached, node, uses, loose, row, made, done, _, stock,
    ⟨top, committed, reserved, medium, elsewhere⟩, isKind⟩ := Session.exists_partly_carved
  obtain ⟨start, result, isStart, isOutcome, fits, _, carves⟩ :=
    stock.take_carves reserved medium elsewhere isKind (by decide)
  have atSix : start = 6 := by
    rw [isStart, top, ChunkSizes.alignment_eq (by decide)]
    rfl
  subst atSix
  obtain ⟨⟨node', pool', chunk⟩, rfl⟩ := Option.isSome_iff_exists.mp (fits.mpr (by omega))
  exact ⟨opened, reached, node, node', pool', chunk, uses, loose, made, done, top, isOutcome,
    carves node' pool' chunk rfl⟩

/-- A node that is retired has nothing left, and what was left is free: from the top up, at every offset
the largest chunk of a fixed size that is aligned there and keeps to what is committed was carved and
returned. The chunks in use stay. -/
theorem Stock.retire_fills (stock : Stock uses pool node loose row)
    (reserved : node.reserved < 2 ^ 55) (medium : node.sizes.medium < 2 ^ 55)
    (elsewhere : wordsOf (outside node.id pool.chunks) < 2 ^ 63) :
    ∃ node' pool', (node.retire pool).outcome = .ok (node', pool') ∧ node'.top = node.committed ∧
      Fills node.sizes node.committed (node.retire pool).returned node.top node.committed ∧
      pool'.words = pool.words + (node.committed - node.top) ∧
      node'.chunksInUse = node.chunksInUse ∧ Steady loose pool node pool' node' ∧
      (∃ after, Stock uses pool' node' loose after) ∧
      ∀ chunk ∈ loose, chunk.container = node.id → ∀ offset, chunk.bottom ≤ offset →
        offset < chunk.stop → node.SameAt node' offset := by
  have room : Room False pool node := Room.of_small reserved medium elsewhere
  obtain ⟨⟨⟨node', pool'⟩, told⟩, isAccount, top, fills, after, restocks⟩ :=
    (stock.retire_ensures room fun _ => by unfold wordLimit; omega).exists_ok
  obtain ⟨done, rfl⟩ := Run.of_account_eq_ok isAccount
  have stockAfter := restocks.stock
  have topLe := stock.carved.top_le
  refine ⟨node', pool', done, top, fills, ?_, ?_, restocks.steady, ⟨after, stockAfter⟩, ?_⟩
  · have words := restocks.steady.words_eq stock
      (show Stock uses pool' node' ([] ++ loose) after from stockAfter)
    rw [show within node.id [] = [] from rfl, wordsOf_nil] at words
    omega
  · rw [stockAfter.chunksInUse_eq, stock.chunksInUse_eq, restocks.steady.nodeAlike.id]
  · intro chunk member here offset
    exact stock.sameAt stockAfter restocks.steady member member here

/-- Of nine words at offset three, a specialized and a small chunk are carved. -/
theorem Stock.rest_filled : ∃ (opened reached : Session) (node node' : Node) (pool' : Pool),
    Session.ofOptions Options.smallest = .ok opened ∧
    opened.run [.allocate .nonClass 3] = .ok reached ∧ node.top = 3 ∧ node.committed = 12 ∧
    (node.retire reached.allocator.nonClass.pool).outcome = .ok (node', pool') ∧
    node'.top = 12 ∧ pool'.words = reached.allocator.nonClass.pool.words + 9 ∧
    Fills node.sizes 12 (node.retire reached.allocator.nonClass.pool).returned 3 12 := by
  obtain ⟨opened, reached, node, uses, loose, row, made, done, _, stock,
    ⟨top, committed, reserved, medium, elsewhere⟩, _⟩ := Session.exists_partly_carved
  obtain ⟨node', pool', isOutcome, topAfter, fills, words, _⟩ :=
    stock.retire_fills reserved medium elsewhere
  rw [top, committed] at fills words
  exact ⟨opened, reached, node, node', pool', made, done, top, committed, isOutcome,
    topAfter.trans committed, words, fills⟩

end CollectorMemory
