import CollectorMemory.Allocator.Basic
import CollectorMemory.Proofs.NodeList.Lookup
import CollectorMemory.Proofs.Pool.Retiring
import CollectorMemory.Proofs.Pool.Take

/-!
# Sound arenas

An arena is sound if the stock of each of its nodes is settled, with the free chunks of the pool and
the chunks that are held by users, and if every such chunk belongs to one of the nodes. An operation
on one node keeps an arena sound if it settles the stock of that node and leaves the chunks of all
others (`Arena.Sound.update`).
-/

namespace CollectorMemory

variable {excuse : Prop} {uses fresh more : Nat} {list list' : NodeList} {pool pool' : Pool}
  {held held' kept : List Chunk} {front back : List Node} {node node' : Node} {row : List Block}

/-- A class space is a single node that reserves all that its list may. -/
def NodeList.Whole (list : NodeList) : Prop :=
  list.isClass = true → ∃ node, list.nodes.toList = [node] ∧ node.reserved = list.limit

/-- Two states of a node list. -/
structure NodeList.Alike (list list' : NodeList) : Prop where
  /-- The space stays. -/
  space : list'.space = list.space
  /-- The chunk sizes stay. -/
  sizes : list'.sizes = list.sizes
  /-- The least size of new nodes stays. -/
  nodeWords : list'.nodeWords = list.nodeWords
  /-- The limit on reserved words stays. -/
  limit : list'.limit = list.limit
  /-- The granule stays. -/
  granule : list'.granule = list.granule
  /-- A class space stays whole. -/
  whole : list.Whole → list'.Whole

/-- The dimensions of a node list are small enough for all sums of them to be counts. -/
structure NodeList.Bounded (list : NodeList) : Prop where
  /-- The limit on reserved words is small. -/
  limit : list.limit < 2 ^ 57
  /-- The least size of new nodes is small. -/
  nodeWords : list.nodeWords < 2 ^ 57
  /-- The granule is small. -/
  granule : list.granule < 2 ^ 56
  /-- All fixed sizes are small. -/
  medium : list.sizes.medium < 2 ^ 56

/-- The number of words that the nodes of a list reserve. -/
def NodeList.total (list : NodeList) : Nat := (list.nodes.toList.map Node.reserved).sum

/-- A list after growth by nodes of a number of words at most: for what it reserves in addition it gives
out new numbers. -/
def NodeList.Buys (words : Nat) (list after : NodeList) : Prop :=
  after.total + words * list.nextIndex ≤ list.total + words * after.nextIndex

/-- An arena whose nodes and chunks are in order, with the chunks that are held by users. -/
structure Arena.Sound (uses : Nat) (arena : Arena) (held : List Chunk) : Prop where
  /-- The nodes are in order. -/
  ordered : arena.list.Ordered
  /-- The next number is new. -/
  numbered : ∀ node ∈ arena.list.nodes.toList, node.id.index < arena.list.nextIndex
  /-- The nodes have the sizes of the list. -/
  nodeSizes : ∀ node ∈ arena.list.nodes.toList, node.sizes = arena.list.sizes
  /-- All fixed sizes fit a header. -/
  short : arena.list.sizes.medium < Header.sizeLimit
  /-- The granule is positive. -/
  granule_pos : 0 < arena.list.granule
  /-- Granules are multiples of the specialized size. -/
  granule_whole : arena.list.granule % arena.list.sizes.specialized = 0
  /-- The nodes keep to the limit. -/
  limited : arena.list.total ≤ arena.list.limit
  /-- The pool is sound. -/
  poolSound : arena.pool.Sound uses
  /-- The pool has the sizes of the list. -/
  poolSizes : arena.pool.sizes = arena.list.sizes
  /-- The pool serves the space of the list. -/
  poolClass : arena.pool.isClass = arena.list.space.isClass
  /-- Every chunk belongs to a node. -/
  live : ∀ chunk ∈ arena.pool.chunks ++ held,
    ∃ node ∈ arena.list.nodes.toList, node.id = chunk.container
  /-- The stock of every node is settled. -/
  settled : ∀ node ∈ arena.list.nodes.toList, ∃ row, Settled uses arena.pool node held row

/-- An arena whose nodes have stocks, whether they are coalesced or not, with the chunks that are held
by users. -/
structure Arena.Stocked (uses : Nat) (arena : Arena) (held : List Chunk) : Prop where
  /-- The nodes are in order. -/
  ordered : arena.list.Ordered
  /-- The nodes have the sizes of the list. -/
  nodeSizes : ∀ node ∈ arena.list.nodes.toList, node.sizes = arena.list.sizes
  /-- The pool is sound. -/
  poolSound : arena.pool.Sound uses
  /-- The pool has the sizes of the list. -/
  poolSizes : arena.pool.sizes = arena.list.sizes
  /-- Every chunk belongs to a node. -/
  live : ∀ chunk ∈ arena.pool.chunks ++ held,
    ∃ node ∈ arena.list.nodes.toList, node.id = chunk.container
  /-- Every node has a stock. -/
  stock : ∀ node ∈ arena.list.nodes.toList, ∃ row, Stock uses arena.pool node held row

/-- The nodes of a sound arena have stocks. -/
theorem Arena.Sound.stocked {arena : Arena} (sound : Arena.Sound uses arena held) :
    Arena.Stocked uses arena held :=
  { sound with
    stock := fun node member =>
      let ⟨row, settled⟩ := sound.settled node member
      ⟨row, settled.toStock⟩ }

/-- What an operation on an arena leaves as it was: its dimensions, and the words of held chunks. -/
structure Arena.Spares (held : List Chunk) (arena after : Arena) : Prop where
  /-- The list stays alike. -/
  list : arena.list.Alike after.list
  /-- The words of held chunks stay. -/
  spared : ∀ chunk ∈ held, ∀ node, arena.list.node? chunk.container = some node →
    ∃ node', after.list.node? chunk.container = some node' ∧ ∀ offset, chunk.bottom ≤ offset →
      offset < chunk.stop → node'.words.word offset = node.words.word offset

/-- An arena after operations on another: it is sound with the chunks that are held then, those that
were held all the time are spared, and some new numbers at most are given out. -/
structure Arena.Follows (uses fresh : Nat) (kept held : List Chunk) (arena after : Arena) :
    Prop where
  /-- The arena is sound. -/
  sound : Arena.Sound uses after held
  /-- Held chunks are spared. -/
  spares : Arena.Spares kept arena after
  /-- Few numbers are given out. -/
  number : after.list.nextIndex ≤ arena.list.nextIndex + fresh
  /-- Without a new number no more words are reserved. -/
  same : after.list.nextIndex ≤ arena.list.nextIndex →
    after.list.nextIndex = arena.list.nextIndex ∧ after.list.total ≤ arena.list.total

/-- A list is like itself. -/
theorem NodeList.Alike.refl (list : NodeList) : list.Alike list :=
  ⟨rfl, rfl, rfl, rfl, rfl, id⟩

/-- A list that stays alike in two steps stays alike. -/
theorem NodeList.Alike.trans {middle : NodeList} (first : list.Alike middle)
    (second : middle.Alike list') : list.Alike list' :=
  ⟨second.space.trans first.space, second.sizes.trans first.sizes,
    second.nodeWords.trans first.nodeWords, second.limit.trans first.limit,
    second.granule.trans first.granule, fun whole => second.whole (first.whole whole)⟩

/-- Bounds are kept where a list stays alike. -/
theorem NodeList.Bounded.of_alike (bounded : list.Bounded) (alike : list.Alike list') :
    list'.Bounded where
  limit := by rw [alike.limit]; exact bounded.limit
  nodeWords := by rw [alike.nodeWords]; exact bounded.nodeWords
  granule := by rw [alike.granule]; exact bounded.granule
  medium := by rw [alike.sizes]; exact bounded.medium

/-- Nothing changes where nothing is done. -/
theorem Arena.Spares.refl (held : List Chunk) (arena : Arena) : Arena.Spares held arena arena :=
  ⟨NodeList.Alike.refl arena.list, fun _ _ node found => ⟨node, found, fun _ _ _ => rfl⟩⟩

/-- What two operations leave as it was, both of them do. -/
theorem Arena.Spares.trans {arena middle after : Arena} (first : Arena.Spares held arena middle)
    (second : Arena.Spares held middle after) : Arena.Spares held arena after where
  list := first.list.trans second.list
  spared chunk member node found := by
    obtain ⟨between, foundBetween, sameFirst⟩ := first.spared chunk member node found
    obtain ⟨last, foundLast, sameLast⟩ := second.spared chunk member between foundBetween
    exact ⟨last, foundLast, fun offset lower upper =>
      (sameLast offset lower upper).trans (sameFirst offset lower upper)⟩

/-- A sound arena follows itself. -/
theorem Arena.Sound.follows {arena : Arena} (sound : Arena.Sound uses arena held) :
    Arena.Follows uses fresh held held arena arena :=
  ⟨sound, Arena.Spares.refl held arena, Nat.le_add_right _ _, fun _ => ⟨rfl, Nat.le_refl _⟩⟩

/-- What follows an arena that follows another follows that one. -/
theorem Arena.Follows.trans {arena middle after : Arena}
    (first : Arena.Follows uses fresh kept held arena middle)
    (second : Arena.Follows uses more kept held' middle after) :
    Arena.Follows uses (fresh + more) kept held' arena after where
  sound := second.sound
  spares := first.spares.trans second.spares
  number := by
    have firstNumber := first.number
    have secondNumber := second.number
    omega
  same few := by
    have firstSame := first.same
    have secondSame := second.same
    omega

/-- An arena may give out fewer numbers. -/
theorem Arena.Follows.mono {arena after : Arena}
    (follows : Arena.Follows uses fresh kept held arena after) (le : fresh ≤ more) :
    Arena.Follows uses more kept held arena after :=
  { follows with number := Nat.le_trans follows.number (Nat.add_le_add_left le _) }

/-- What is bought in two steps is bought in both of them together. -/
theorem NodeList.Buys.trans {middle : NodeList} {words : Nat} (first : list.Buys words middle)
    (second : middle.Buys words list') : list.Buys words list' := by
  unfold NodeList.Buys at *
  omega

/-- Nothing needs to be bought where no number is given out. -/
theorem Arena.Follows.buys {arena after : Arena} {words : Nat}
    (follows : Arena.Follows uses 0 kept held arena after) : arena.list.Buys words after.list := by
  obtain ⟨number, total⟩ := follows.same follows.number
  unfold NodeList.Buys
  rw [number]
  omega

/-- A stock stays settled where the bound on uses grows. -/
theorem Settled.mono (settled : Settled uses pool node held row) (le : uses ≤ more) :
    Settled more pool node held row :=
  { settled with
    poolSound := settled.poolSound.mono le
    looseOwned := fun chunk member container =>
      let ⟨owned, used, usesLe⟩ := settled.looseOwned chunk member container
      ⟨owned, used, Nat.le_trans usesLe le⟩ }

/-- An arena stays sound where the bound on uses grows. -/
theorem Arena.Sound.mono {arena : Arena} (sound : Arena.Sound uses arena held) (le : uses ≤ more) :
    Arena.Sound more arena held :=
  { sound with
    poolSound := sound.poolSound.mono le
    settled := fun node member =>
      let ⟨row, settled⟩ := sound.settled node member
      ⟨row, settled.mono le⟩ }

/-- What follows an arena goes on doing so where the bound on uses grows. -/
theorem Arena.Follows.used {arena after : Arena}
    (follows : Arena.Follows uses fresh kept held arena after) (le : uses ≤ more) :
    Arena.Follows more fresh kept held arena after :=
  { follows with sound := follows.sound.mono le }

/-- Dimensions that were small are small in what follows. -/
theorem NodeList.Bounded.of_follows {arena after : Arena}
    (bounded : ¬excuse → arena.list.Bounded)
    (follows : Arena.Follows uses fresh kept held arena after) : ¬excuse → after.list.Bounded :=
  fun hard => (bounded hard).of_alike follows.spares.list

/-- The words of chunks that belong to nodes fit if those of every single node do. -/
theorem wordsOf_le_sum {nodes : List Node} {chunks : List Chunk}
    (live : ∀ chunk ∈ chunks, ∃ node ∈ nodes, node.id = chunk.container)
    (fits : ∀ node ∈ nodes, wordsOf (within node.id chunks) ≤ node.reserved) :
    wordsOf chunks ≤ (nodes.map Node.reserved).sum := by
  induction nodes generalizing chunks with
  | nil =>
    cases chunks with
    | nil => exact Nat.le_refl _
    | cons chunk rest =>
      obtain ⟨node, member, _⟩ := live chunk List.mem_cons_self
      exact absurd member List.not_mem_nil
  | cons head rest ih =>
    rw [← wordsOf_within_add_outside head.id, List.map_cons, List.sum_cons]
    have headFits := fits head List.mem_cons_self
    have restLive : ∀ chunk ∈ outside head.id chunks, ∃ node ∈ rest, node.id = chunk.container := by
      intro chunk member
      obtain ⟨inChunks, differs⟩ := mem_outside.mp member
      obtain ⟨node, inNodes, isNode⟩ := live chunk inChunks
      rcases List.mem_cons.mp inNodes with isHead | inRest
      · rw [isHead] at isNode
        exact absurd isNode.symm differs
      · exact ⟨node, inRest, isNode⟩
    have restFits : ∀ node ∈ rest,
        wordsOf (within node.id (outside head.id chunks)) ≤ node.reserved := by
      intro node member
      by_cases same : node.id = head.id
      · have nothing : within node.id (outside head.id chunks) = [] := by
          apply List.filter_eq_nil_iff.mpr
          intro chunk inOutside
          rw [same]
          simpa using (mem_outside.mp inOutside).2
        rw [nothing]
        exact Nat.zero_le _
      · rw [within_outside same]
        exact fits node (List.mem_cons_of_mem head member)
    have later := ih restLive restFits
    omega

/-- The words of free chunks and of held chunks fit into what the nodes reserve. -/
theorem Arena.Sound.words_le (sound : Arena.Sound uses ⟨list, pool⟩ held) :
    wordsOf pool.chunks + wordsOf held ≤ list.total := by
  rw [← wordsOf_append]
  apply wordsOf_le_sum sound.live
  intro node member
  obtain ⟨row, settled⟩ := sound.settled node member
  have sum := settled.carved.tiles.sum_size
  have sameSum := (settled.perm.map Block.size).sum_nat
  have topLe := settled.carved.top_le
  have committedLe := settled.carved.committed_le
  rw [wordsOf_within]
  omega

/-- No node reserves more than the limit. -/
theorem Arena.Sound.reserved_le (sound : Arena.Sound uses ⟨list, pool⟩ held)
    (member : node ∈ list.nodes.toList) : node.reserved ≤ list.limit :=
  Nat.le_trans (List.le_sum_of_mem (List.mem_map_of_mem member)) sound.limited

/-- There is room in the counts for every node of a sound arena, if its dimensions are small. -/
theorem Arena.Sound.room (sound : Arena.Sound uses ⟨list, pool⟩ held)
    (bounded : ¬excuse → list.Bounded) (member : node ∈ list.nodes.toList) :
    Room excuse pool node := by
  intro hard
  obtain ⟨limit, _, _, medium⟩ := bounded hard
  have parts := wordsOf_within_add_outside node.id pool.chunks
  have wordsLe := sound.words_le
  have limited : list.total ≤ list.limit := sound.limited
  have reservedLe := sound.reserved_le member
  have sizes : node.sizes = list.sizes := sound.nodeSizes node member
  rw [sizes]
  unfold wordLimit
  omega

/-- A list reserves as many words as before where one of its nodes has another state. -/
theorem NodeList.total_replace (split : list.nodes.toList = front ++ node :: back)
    (sameReserved : node'.reserved = node.reserved) :
    NodeList.total { list with nodes := (front ++ node' :: back).toArray } = list.total := by
  unfold NodeList.total
  rw [split]
  simp [sameReserved]

/-- The nodes of an arena have stocks where an operation on one of them leaves it with one and leaves
the chunks of other nodes as they were. -/
theorem Arena.Stocked.update (stocked : Arena.Stocked uses ⟨list, pool⟩ held)
    (split : list.nodes.toList = front ++ node :: back) (sameId : node'.id = node.id)
    (sameSizes : node'.sizes = node.sizes) (poolAlike : pool.Alike pool')
    (elsewhere : (outside node.id pool'.chunks).Perm (outside node.id pool.chunks))
    (heldElsewhere : (outside node.id held').Perm (outside node.id held))
    (stock : Stock uses pool' node' held' row) :
    Arena.Stocked uses ⟨{ list with nodes := (front ++ node' :: back).toArray }, pool'⟩ held' := by
  have isMember : node ∈ list.nodes.toList := by
    rw [split]
    exact List.mem_append_right front List.mem_cons_self
  have cases_ : ∀ other ∈ front ++ node' :: back,
      other = node' ∨ other ∈ list.nodes.toList ∧ other.id ≠ node.id :=
    fun other => (stocked.ordered.mem_replace split).mp
  refine {
    ordered := stocked.ordered.replace split sameId
    nodeSizes := ?_
    poolSound := stock.poolSound
    poolSizes := poolAlike.sizes.trans stocked.poolSizes
    live := ?_
    stock := ?_ }
  · intro other member
    rcases cases_ other member with isNode | ⟨old, _⟩
    · rw [isNode, sameSizes]
      exact stocked.nodeSizes node isMember
    · exact stocked.nodeSizes other old
  · intro chunk member
    by_cases isHere : chunk.container = node.id
    · exact ⟨node', List.mem_append_right _ List.mem_cons_self, sameId.trans isHere.symm⟩
    · have outsidePerm : (outside node.id (pool'.chunks ++ held')).Perm
          (outside node.id (pool.chunks ++ held)) := by
        unfold outside at elsewhere heldElsewhere ⊢
        rw [List.filter_append, List.filter_append]
        exact elsewhere.append heldElsewhere
      have old := (mem_outside.mp (outsidePerm.mem_iff.mp (mem_outside.mpr ⟨member, isHere⟩))).1
      obtain ⟨other, inList, isOther⟩ := stocked.live chunk old
      refine ⟨other, (stocked.ordered.mem_replace split).mpr (Or.inr ⟨inList, ?_⟩), isOther⟩
      rw [isOther]
      exact isHere
  · intro other member
    rcases cases_ other member with isNode | ⟨old, differs⟩
    · rw [isNode]
      exact ⟨row, stock⟩
    · obtain ⟨otherRow, otherStock⟩ := stocked.stock other old
      exact ⟨otherRow, otherStock.of_outside differs poolAlike stock.poolSound elsewhere
        heldElsewhere⟩

/-- An arena stays sound where an operation on one of its nodes settles the stock of that node and
leaves the chunks of other nodes as they were. -/
theorem Arena.Sound.update (sound : Arena.Sound uses ⟨list, pool⟩ held)
    (split : list.nodes.toList = front ++ node :: back) (sameId : node'.id = node.id)
    (sameSizes : node'.sizes = node.sizes) (sameReserved : node'.reserved = node.reserved)
    (poolAlike : pool.Alike pool')
    (elsewhere : (outside node.id pool'.chunks).Perm (outside node.id pool.chunks))
    (heldElsewhere : (outside node.id held').Perm (outside node.id held))
    (settled : Settled uses pool' node' held' row) :
    Arena.Sound uses ⟨{ list with nodes := (front ++ node' :: back).toArray }, pool'⟩ held' := by
  have isMember : node ∈ list.nodes.toList := by
    rw [split]
    exact List.mem_append_right front List.mem_cons_self
  have cases_ : ∀ other ∈ front ++ node' :: back,
      other = node' ∨ other ∈ list.nodes.toList ∧ other.id ≠ node.id :=
    fun other => (sound.ordered.mem_replace split).mp
  have total : ((front ++ node' :: back).map Node.reserved).sum = list.total :=
    NodeList.total_replace split sameReserved
  refine { sound.stocked.update split sameId sameSizes poolAlike elsewhere heldElsewhere
      settled.toStock with
    numbered := ?_
    short := sound.short
    granule_pos := sound.granule_pos
    granule_whole := sound.granule_whole
    limited := ?_
    poolClass := poolAlike.isClass.trans sound.poolClass
    settled := ?_ }
  · intro other member
    rcases cases_ other member with isNode | ⟨old, _⟩
    · rw [isNode, sameId]
      exact sound.numbered node isMember
    · exact sound.numbered other old
  · change ((front ++ node' :: back).map Node.reserved).sum ≤ list.limit
    rw [total]
    exact sound.limited
  · intro other member
    rcases cases_ other member with isNode | ⟨old, differs⟩
    · rw [isNode]
      exact ⟨row, settled⟩
    · obtain ⟨otherRow, otherSettled⟩ := sound.settled other old
      exact ⟨otherRow, otherSettled.of_outside differs poolAlike settled.poolSound elsewhere
        heldElsewhere⟩

/-- A class space stays whole where its node has another state. -/
theorem NodeList.Whole.replace (whole : list.Whole)
    (split : list.nodes.toList = front ++ node :: back)
    (sameReserved : node'.reserved = node.reserved) :
    NodeList.Whole { list with nodes := (front ++ node' :: back).toArray } := by
  intro isClass
  obtain ⟨only, nodes, reserved⟩ := whole isClass
  rw [split] at nodes
  cases front with
  | nil =>
    obtain ⟨rfl, rfl⟩ := List.cons.inj nodes
    exact ⟨node', rfl, sameReserved.trans reserved⟩
  | cons head rest => cases rest <;> cases nodes

/-- An operation on one node spares held chunks if it spares those of the node. -/
theorem Arena.Spares.of_node (ordered : list.Ordered)
    (split : list.nodes.toList = front ++ node :: back) (sameId : node'.id = node.id)
    (sameReserved : node'.reserved = node.reserved)
    (spared : ∀ chunk ∈ held, chunk.container = node.id → ∀ offset, chunk.bottom ≤ offset →
      offset < chunk.stop → node'.words.word offset = node.words.word offset) :
    Arena.Spares held ⟨list, pool⟩
      ⟨{ list with nodes := (front ++ node' :: back).toArray }, pool'⟩ := by
  refine ⟨⟨rfl, rfl, rfl, rfl, rfl, fun whole => whole.replace split sameReserved⟩, ?_⟩
  intro chunk member other found
  obtain ⟨isOther, _⟩ := ordered.exists_split found
  obtain ⟨other', foundAfter, rfl | ⟨rfl, rfl⟩⟩ := ordered.node?_replace split sameId found
  · exact ⟨other', foundAfter, fun _ _ _ => rfl⟩
  · exact ⟨other', foundAfter, spared chunk member isOther.symm⟩

/-- An arena goes on where one of its nodes settles in another state of its stock. -/
theorem Arena.Sound.withNode (sound : Arena.Sound uses ⟨list, pool⟩ held)
    (member : node ∈ list.nodes.toList) (steady : Steady kept pool node pool' node')
    (settled : Settled uses pool' node' held' row)
    (heldElsewhere : (outside node.id held').Perm (outside node.id held)) :
    Arena.Follows uses 0 kept held' ⟨list, pool⟩ ⟨list.withNode node', pool'⟩ := by
  obtain ⟨front, back, split⟩ := List.append_of_mem member
  have alike := steady.nodeAlike
  rw [sound.ordered.withNode_eq split alike.id]
  exact {
    sound := sound.update split alike.id alike.sizes alike.reserved steady.poolAlike steady.elsewhere
      heldElsewhere settled
    spares := Arena.Spares.of_node sound.ordered split alike.id alike.reserved steady.spared
    number := Nat.le_refl _
    same := fun _ => ⟨rfl, Nat.le_of_eq (NodeList.total_replace split alike.reserved)⟩ }

end CollectorMemory
