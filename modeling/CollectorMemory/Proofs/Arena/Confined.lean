import CollectorMemory.Proofs.Arena.Stuck
import CollectorMemory.Proofs.NodeList.Numbers
import CollectorMemory.Proofs.Pool.Confined

/-!
# Arenas that keep to their limit

The nodes of an arena never reserve more than the limit, all together, and so no node and no free chunk
is larger. Requests, returns and purges keep this for all options and for all requests, whether they are
served or not, and what serves a request has room for it and is unused.
-/

namespace CollectorMemory

variable {confines : Confines} {list : NodeList} {pool : Pool} {arena : Arena} {node after : Node}
  {size words least preferred suggested : Nat}

/-- A list of confined nodes, with the dimensions of the space, that reserve no more than the limit. -/
structure NodeList.Confined (confines : Confines) (list : NodeList) : Prop where
  /-- The list belongs to the space. -/
  space : list.space = confines.space
  /-- The list has the sizes of the space. -/
  sizes : list.sizes = confines.sizes
  /-- The limit is that of the space. -/
  limit : list.limit = confines.limit
  /-- The granule is that of the space. -/
  granule : list.granule = confines.granule
  /-- The nodes are in order. -/
  ordered : list.Ordered
  /-- The next number is new. -/
  numbered : ∀ node ∈ list.nodes.toList, node.id.index < list.nextIndex
  /-- The nodes keep to the limit. -/
  total_le : list.total ≤ confines.limit
  /-- The nodes are confined. -/
  nodes : ∀ node ∈ list.nodes.toList, node.Confined confines

/-- An arena of confined nodes and chunks. -/
structure Arena.Confined (confines : Confines) (arena : Arena) : Prop where
  /-- The nodes are confined. -/
  list : arena.list.Confined confines
  /-- The free chunks are confined. -/
  pool : arena.pool.Confined confines

namespace NodeList

/-- A node that a handle finds is one of the nodes. -/
theorem Confined.mem_of_node? (confined : list.Confined confines) {id : NodeId}
    (found : list.node? id = some node) : node ∈ list.nodes.toList := by
  obtain ⟨_, front, back, split⟩ := confined.ordered.exists_split found
  rw [split]
  exact List.mem_append_right front List.mem_cons_self

/-- The node of a chunk is one of the nodes. -/
theorem Confined.mem_of_nodeOf (confined : list.Confined confines) {chunk : Chunk}
    (isNode : Pool.nodeOf list chunk = .ok node) : node ∈ list.nodes.toList := by
  unfold Pool.nodeOf at isNode
  split at isNode
  · next other found =>
    cases isNode
    exact confined.mem_of_node? found
  · cases isNode

/-- A list is confined with another state of a node. -/
theorem Confined.withNode (confined : list.Confined confines) (member : node ∈ list.nodes.toList)
    (kept : node.Keeps confines after) : (list.withNode after).Confined confines := by
  obtain ⟨front, back, split⟩ := List.append_of_mem member
  rw [confined.ordered.withNode_eq split kept.id]
  exact { confined with
    ordered := confined.ordered.replace split kept.id
    numbered := by
      intro other isThere
      rcases (confined.ordered.mem_replace split).mp isThere with isAfter | ⟨old, _⟩
      · rw [isAfter, kept.id]
        exact confined.numbered node member
      · exact confined.numbered other old
    total_le := by
      have total := confined.total_le
      unfold NodeList.total at total ⊢
      rw [split] at total
      simp only [List.map_append, List.map_cons, kept.reserved] at total ⊢
      exact total
    nodes := by
      intro other isThere
      rcases (confined.ordered.mem_replace split).mp isThere with isAfter | ⟨old, _⟩
      · rw [isAfter]
        exact kept.toConfined
      · exact confined.nodes other old }

/-- A list is confined with fewer nodes. -/
theorem Confined.of_sublist (confined : list.Confined confines) {nodes : List Node}
    (fewer : nodes.Sublist list.nodes.toList) :
    NodeList.Confined confines { list with nodes := nodes.toArray } :=
  { confined with
    ordered := ⟨fun node member => confined.ordered.space node (fewer.subset member),
      confined.ordered.increasing.sublist fewer⟩
    numbered := fun node member => confined.numbered node (fewer.subset member)
    total_le := Nat.le_trans
      ((fewer.map Node.reserved).sum_le_sum fun _ _ => Nat.zero_le _) confined.total_le
    nodes := fun node member => confined.nodes node (fewer.subset member) }

/-- What the nodes commit is within the limit. -/
theorem Confined.committed_le (confined : list.Confined confines) :
    (list.nodes.toList.map Node.committed).sum ≤ confines.limit :=
  Nat.le_trans (List.sum_le_sum fun node member => (confined.nodes node member).committed_le)
    confined.total_le

/-- A list that reserves a node keeps to the limit. -/
theorem Confined.reserve (confined : list.Confined confines) :
    Ensures True (list.reserve words).outcome fun result =>
      match result with
      | none => True
      | some after => after.Confined confines := by
  unfold NodeList.reserve
  split
  · trivial
  refine Ensures.bindRun (Count.sum_ensures (absurd trivial)) ?_
  rintro reserved isReserved
  have isTotal : reserved = list.total := isReserved
  refine Ensures.bindRun (Count.add_ensures (absurd trivial)) ?_
  rintro total ⟨rfl, _⟩
  split
  · exact ensures_note trivial
  next inside =>
  rw [isTotal, confined.limit] at inside
  refine Ensures.bindRun (Count.addHalf_ensures (absurd trivial)) ?_
  rintro nextIndex ⟨rfl, _⟩
  refine Ensures.bindRun (Node.reserve_confined (by omega) confined.space confined.sizes) ?_
  rintro node ⟨isConfined, isId, isReserved⟩
  have isSpace : node.id.space = list.space := congrArg NodeId.space isId
  have isNext : node.id.index = list.nextIndex := congrArg NodeId.index isId
  exact { confined with
    ordered := confined.ordered.push isSpace
      (fun other member => isNext ▸ confined.numbered other member) _
    numbered := by
      intro other member
      rw [Array.toList_push] at member
      rcases List.mem_append.mp member with inList | isNode
      · exact Nat.lt_succ_of_lt (confined.numbered other inList)
      · rw [List.mem_singleton.mp isNode, isNext]
        exact Nat.lt_succ_self _
    total_le := by
      unfold NodeList.total at inside ⊢
      rw [Array.toList_push, List.map_append, List.sum_append, List.map_singleton,
        List.sum_singleton, isReserved]
      omega
    nodes := by
      intro other member
      rw [Array.toList_push] at member
      rcases List.mem_append.mp member with inList | isNode
      · exact confined.nodes other inList
      · rw [List.mem_singleton.mp isNode]
        exact isConfined }

/-- Committing more of the current node keeps a list confined. -/
theorem Confined.expandCurrent (confined : list.Confined confines) :
    Ensures True (list.expandCurrent least preferred).outcome fun (_, after) =>
      after.Confined confines := by
  unfold NodeList.expandCurrent
  split
  · exact confined
  next node isCurrent =>
  have member := mem_of_current? isCurrent
  refine Ensures.bindRun ((confined.nodes node member).expand least preferred) ?_
  rintro (_ | grown) kept
  · exact confined
  · exact confined.withNode member (kept grown rfl)

/-- Giving up the current node keeps everything confined. -/
theorem Confined.retireCurrent (confined : list.Confined confines) (isPool : pool.Confined confines) :
    Ensures True (list.retireCurrent pool).outcome fun (after, pool') =>
      after.Confined confines ∧ pool'.Confined confines := by
  unfold NodeList.retireCurrent
  split
  · exact ⟨confined, isPool⟩
  next node isCurrent =>
  have member := mem_of_current? isCurrent
  refine Ensures.bindRun ((confined.nodes node member).retire isPool) ?_
  rintro ⟨retired, filled⟩ ⟨kept, confinedFilled⟩
  exact ⟨confined.withNode member kept, confinedFilled⟩

/-- Growing keeps everything confined. -/
theorem Confined.expand (confined : list.Confined confines) (isPool : pool.Confined confines) :
    Ensures True (list.expand least preferred pool).outcome fun (_, after, pool') =>
      after.Confined confines ∧ pool'.Confined confines := by
  unfold NodeList.expand
  refine Ensures.bindRun (ensures_excused _) ?_
  intro committed _
  dsimp only
  split
  · exact ensures_note ⟨confined, isPool⟩
  refine Ensures.bindRun confined.expandCurrent ?_
  intro (isDone, first) confinedFirst
  dsimp only
  split
  · exact ⟨confinedFirst, isPool⟩
  split
  · exact ⟨confinedFirst, isPool⟩
  refine Ensures.bindRun (confinedFirst.retireCurrent isPool) ?_
  intro (second, filled) ⟨confinedSecond, confinedFilled⟩
  refine Ensures.bindRun (ensures_excused _) ?_
  intro words _
  refine Ensures.bindRun confinedSecond.reserve ?_
  rintro (_ | third) confinedThird
  · exact ⟨confinedSecond, confinedFilled⟩
  · have isThird : third.Confined confines := confinedThird
    refine Ensures.bindRun isThird.expandCurrent ?_
    intro (isGrown, last) confinedLast
    exact ⟨confinedLast, confinedFilled⟩

/-- A chunk that is carved from the current node is unused and of the size asked for. -/
theorem Confined.takeCurrent (confined : list.Confined confines) (isPool : pool.Confined confines) :
    Ensures True (list.takeCurrent size pool).outcome fun (found, after, pool') =>
      after.Confined confines ∧ pool'.Confined confines ∧
        ∀ chunk, found = some chunk → chunk.Unused confines ∧ chunk.size = size := by
  unfold NodeList.takeCurrent
  split
  · exact ⟨confined, isPool, fun chunk isSome => absurd isSome.symm (Option.some_ne_none chunk)⟩
  next node isCurrent =>
  have member := mem_of_current? isCurrent
  refine Ensures.bindRun ((confined.nodes node member).carveAligned isPool size .virtualSpace) ?_
  rintro (_ | ⟨carved, filled, chunk⟩) taken
  · exact ⟨confined, isPool, fun chunk isSome => absurd isSome.symm (Option.some_ne_none chunk)⟩
  · obtain ⟨kept, confinedFilled, served⟩ := taken
    refine ⟨confined.withNode member kept, confinedFilled, ?_⟩
    rintro _ ⟨⟩
    exact served

/-- A new chunk is unused and of the size asked for. -/
theorem Confined.newChunk (confined : list.Confined confines) (isPool : pool.Confined confines) :
    Ensures True (list.newChunk size suggested pool).outcome fun (found, after, pool') =>
      after.Confined confines ∧ pool'.Confined confines ∧
        ∀ chunk, found = some chunk → chunk.Unused confines ∧ chunk.size = size := by
  unfold NodeList.newChunk
  refine Ensures.bindRun (confined.takeCurrent isPool) ?_
  intro (found, first, filled) taken
  dsimp only
  split
  · exact taken
  obtain ⟨confinedFirst, confinedFilled, -⟩ := taken
  refine Ensures.bindRun (ensures_excused _) ?_
  intro padding _
  refine Ensures.bindRun (ensures_excused _) ?_
  intro needed _
  refine Ensures.bindRun (ensures_excused _) ?_
  intro least _
  refine Ensures.bindRun (ensures_excused _) ?_
  intro rounded _
  refine Ensures.bindRun (confinedFirst.expand confinedFilled) ?_
  intro (isDone, second, refilled) ⟨confinedSecond, confinedRefilled⟩
  dsimp only
  split
  · exact ⟨confinedSecond, confinedRefilled,
      fun chunk isSome => absurd isSome.symm (Option.some_ne_none chunk)⟩
  split
  · exact ⟨confinedSecond, confinedRefilled,
      fun chunk isSome => absurd isSome.symm (Option.some_ne_none chunk)⟩
  refine Ensures.bindRun (confinedSecond.takeCurrent confinedRefilled) ?_
  intro (chunk, third, last) takenLast
  exact ensures_noteIf takenLast

/-- A pool is confined without the chunks of nodes that are given up. -/
theorem purgeNodes_confined {keep : Option NodeId} {nodes : List Node}
    (isPool : pool.Confined confines) :
    Ensures True (purgeNodes keep pool nodes).outcome fun (_, pool', _) =>
      pool'.Confined confines := by
  induction nodes generalizing pool with
  | nil => exact isPool
  | cons node rest ih =>
    unfold purgeNodes
    split
    · refine ensures_note ?_
      refine Ensures.bindRun (isPool.dropNode _) ?_
      rintro ⟨dropped, _⟩ confinedDropped
      refine Ensures.bindRun (ih confinedDropped) ?_
      rintro ⟨_, after, _⟩ confinedAfter
      exact confinedAfter
    · refine Ensures.bindRun (ih isPool) ?_
      rintro ⟨_, after, _⟩ confinedAfter
      exact confinedAfter

/-- Giving up nodes keeps everything confined. -/
theorem Confined.purge (confined : list.Confined confines) (isPool : pool.Confined confines) :
    Ensures True (list.purge pool).outcome fun (after, pool', _) =>
      after.Confined confines ∧ pool'.Confined confines := by
  unfold NodeList.purge
  refine Ensures.bindRun (purgeNodes_sublist.and (purgeNodes_confined isPool)) ?_
  rintro ⟨kept, after, _⟩ ⟨fewer, confinedAfter⟩
  exact ⟨confined.of_sublist fewer, confinedAfter⟩

end NodeList

namespace Pool

variable {target : Kind}

/-- Splitting a chunk of the pool keeps everything confined. -/
theorem Confined.splitLarger (isPool : pool.Confined confines) (confined : list.Confined confines) :
    Ensures True (pool.splitLarger list target).outcome fun result =>
      match result with
      | none => True
      | some (pool', after) => pool'.Confined confines ∧ after.Confined confines := by
  unfold Pool.splitLarger
  split
  · trivial
  next rest larger found =>
  obtain ⟨confinedRest, unused, -⟩ := isPool.firstOf? found
  refine ensures_note ?_
  refine Ensures.bindRun (ensures_returned _) ?_
  intro node isNode
  have member := confined.mem_of_nodeOf isNode
  refine Ensures.bindRun ((confined.nodes node member).split unused.toConfined) ?_
  intro (divided, first, pieces) ⟨kept, firstUnused, piecesUnused⟩
  refine Ensures.bindRun (ensures_excused _) ?_
  intro _ _
  refine Ensures.bindRun (ensures_excused _) ?_
  intro count _
  refine Ensures.bindRun ((confinedRest.withNumbers rest.words count).pushPieces piecesUnused) ?_
  intro filled confinedFilled
  exact ⟨confinedFilled.push firstUnused, confined.withNode member kept⟩

/-- A free chunk of a kind has room for a request of a size of the kind. -/
theorem Confined.firstOf?_enough {after : Pool} {chunk : Chunk} {kind : Kind}
    (isPool : pool.Confined confines) (isKind : pool.sizes.kindOfSize size = .ok kind)
    (fixed : kind ≠ .humongous) (found : pool.firstOf? [kind] = some (after, chunk)) :
    after.Confined confines ∧ chunk.Unused confines ∧ size ≤ chunk.size := by
  obtain ⟨confinedAfter, unused, isThere⟩ := isPool.firstOf? found
  rw [isPool.sizes] at isKind
  have suits := ChunkSizes.kindOfSize_eq_ok_iff.mp isKind
  have held := unused.suits
  rw [List.mem_singleton.mp isThere] at held
  exact ⟨confinedAfter, unused, Nat.le_of_eq (suits.size_eq held fixed)⟩

/-- The chunk that serves a request has room for it and is unused, and what is left is confined. -/
theorem Confined.select (isPool : pool.Confined confines) (confined : list.Confined confines) :
    Ensures True (pool.select list size).outcome fun result =>
      match result with
      | none => True
      | some (pool', after, chunk) =>
        pool'.Confined confines ∧ after.Confined confines ∧ chunk.Unused confines ∧
          size ≤ chunk.size := by
  unfold Pool.select
  refine Ensures.bindRun (ensures_returned _) ?_
  intro kind isKind
  split
  · split
    · trivial
    · next chunk rest taken =>
      obtain ⟨enough, unused, confinedRest⟩ := @Confined.taken _ _ _ .humongous _ _ isPool taken
      exact ⟨confinedRest, confined, unused, of_decide_eq_true enough⟩
  · next notHumongous =>
    have fixed : kind ≠ .humongous := by
      rintro rfl
      exact notHumongous rfl
    split
    · next rest chunk found =>
      obtain ⟨confinedRest, served⟩ := isPool.firstOf?_enough isKind fixed found
      exact ⟨confinedRest, confined, served⟩
    · refine Ensures.bindRun (isPool.splitLarger confined) ?_
      rintro (_ | ⟨divided, after⟩) split
      · trivial
      · obtain ⟨confinedDivided, confinedAfter⟩ := split
        have isKindAfter : divided.sizes.kindOfSize size = .ok kind := by
          rw [confinedDivided.sizes, ← isPool.sizes]
          exact isKind
        dsimp only
        cases found : divided.firstOf? [kind] with
        | none => trivial
        | some first =>
          obtain ⟨confinedRest, served⟩ := confinedDivided.firstOf?_enough isKindAfter fixed found
          exact ⟨confinedRest, confinedAfter, served⟩

/-- The chunk that is taken for a request has room for it and is unused, and what is left is confined. -/
theorem Confined.take (isPool : pool.Confined confines) (confined : list.Confined confines) :
    Ensures True (pool.take list size).outcome fun result =>
      match result with
      | none => True
      | some (pool', after, chunk) =>
        pool'.Confined confines ∧ after.Confined confines ∧ chunk.Unused confines ∧
          size ≤ chunk.size := by
  unfold Pool.take
  refine Ensures.bindRun (isPool.select confined) ?_
  rintro (_ | ⟨rest, after, chunk⟩) selected
  · trivial
  obtain ⟨confinedRest, confinedAfter, unused, enough⟩ := selected
  refine Ensures.bindRun (confinedRest.countRemoved chunk) ?_
  intro counted confinedCounted
  refine Ensures.bindRun (ensures_returned _) ?_
  intro node isNode
  have member := confinedAfter.mem_of_nodeOf isNode
  refine Ensures.bindRun ((confinedAfter.nodes node member).setInUse chunk true) ?_
  rintro ⟨tagged, used⟩ ⟨kept, rfl⟩
  refine ensures_note ?_
  refine Ensures.bindRun (ensures_excused _) ?_
  intro _ _
  have keptAll : node.Keeps confines tagged.addInUse :=
    kept.trans (kept.toConfined.withContents rfl tagged.map (tagged.chunksInUse + 1))
  exact ⟨confinedCounted, confinedAfter.withNode member keptAll, unused.withFree _, enough⟩

end Pool

/-- A chunk that an arena provides for a request has room for it and is unused. -/
theorem Arena.Confined.provide (confined : arena.Confined confines) :
    Ensures True (arena.provide size suggested).outcome fun (found, after) =>
      after.Confined confines ∧
        ∀ chunk, found = some chunk → chunk.Unused confines ∧ size ≤ chunk.size := by
  unfold Arena.provide
  refine Ensures.bindRun (confined.pool.take confined.list) ?_
  rintro (_ | ⟨pool, list, chunk⟩) taken
  · refine Ensures.bindRun (confined.list.newChunk confined.pool) ?_
    intro (found, list, pool) ⟨confinedList, confinedPool, served⟩
    refine ⟨⟨confinedList, confinedPool⟩, fun chunk isFound => ?_⟩
    obtain ⟨unused, isSize⟩ := served chunk isFound
    exact ⟨unused, Nat.le_of_eq isSize.symm⟩
  · obtain ⟨confinedPool, confinedList, served⟩ := taken
    refine ⟨⟨confinedList, confinedPool⟩, ?_⟩
    rintro _ ⟨⟩
    exact served

end CollectorMemory
