import CollectorMemory.Proofs.Arena.Sound

/-!
# Requests that nothing serves

An arena cannot serve a request if no free chunk does, the current node has no room for the chunk,
and not enough words can be committed for it and for the padding that it may need (`Arena.Stuck`).
Before that is known the current node may have been given up: the words left in it are then free
chunks (`Arena.Retired`).
-/

namespace CollectorMemory

/-- The most padding that a chunk of a kind and a size can need in front of it. -/
def ChunkSizes.mostPadding (sizes : ChunkSizes) (kind : Kind) (size : Nat) : Nat :=
  if kind.isHumongous then 0 else size - sizes.specialized

variable {uses : Nat} {list : NodeList} {pool : Pool} {held : List Chunk} {front : List Node}
  {node node' : Node} {row after : List Block} {kind : Kind} {size least preferred suggested : Nat}

namespace NodeList

/-- The least number of words that are committed for a chunk that the current node has no room for.
-/
def leastGrowth (list : NodeList) (kind : Kind) (size : Nat) : Nat :=
  Count.nextMultiple (size + list.sizes.mostPadding kind size) list.granule

/-- The number of words that are preferably committed for such a chunk, where some are suggested. -/
def preferredGrowth (list : NodeList) (kind : Kind) (size suggested : Nat) : Nat :=
  max (Count.nextMultiple suggested list.granule) (list.leastGrowth kind size)

/-- The number of words of a node that is reserved for such a chunk. -/
def nodeGrowth (list : NodeList) (kind : Kind) (size suggested : Nat) : Nat :=
  Count.nextMultiple (max list.nodeWords (list.preferredGrowth kind size suggested)) list.granule

/-- Not enough words can be committed: fewer are left of the limit, or fewer are left in the current
node and no new node can be reserved. -/
def Exhausted (list : NodeList) (least preferred : Nat) : Prop :=
  list.limit - (list.nodes.toList.map Node.committed).sum < least ∨
    (∀ node, list.current? = some node → node.reserved - node.committed < least) ∧
      (list.isClass = true ∨
        list.limit < list.total + Count.nextMultiple (max list.nodeWords preferred) list.granule)

/-- Where the limit leaves enough words and the current node does not, a list outside of the class space
is exhausted exactly if the limit does not allow a new node. -/
theorem exhausted_iff_beyond
    (left : ¬list.limit - (list.nodes.toList.map Node.committed).sum < least)
    (noneLeft : ∀ node, list.current? = some node → node.reserved - node.committed < least)
    (notClass : list.isClass = false) :
    list.Exhausted least preferred ↔
      list.limit < list.total + Count.nextMultiple (max list.nodeWords preferred) list.granule := by
  constructor
  · rintro (fewer | ⟨_, isClass | beyond⟩)
    · exact absurd fewer left
    · rw [notClass] at isClass
      exact absurd isClass Bool.false_ne_true
    · exact beyond
  · exact fun beyond => Or.inr ⟨noneLeft, Or.inr beyond⟩

/-- The current node has a number of committed words that belong to no chunk. -/
def Offers (list : NodeList) (words : Nat) : Prop :=
  ∃ node, list.current? = some node ∧ node.top + words ≤ node.committed

/-- The nodes have no room for a chunk and cannot grow for it. -/
structure Full (list : NodeList) (kind : Kind) (size suggested : Nat) : Prop where
  /-- The current node has no room. -/
  room : ∀ node, list.current? = some node → ¬node.sizes.Fits kind size node.top node.committed
  /-- Not enough words can be committed. -/
  exhausted : list.Exhausted (list.leastGrowth kind size) (list.preferredGrowth kind size suggested)

/-- The nodes have no room for a chunk, but can grow for it by a new node. -/
structure Opens (list : NodeList) (kind : Kind) (size suggested : Nat) : Prop where
  /-- The current node has no room. -/
  room : ∀ node, list.current? = some node → ¬node.sizes.Fits kind size node.top node.committed
  /-- The current node cannot commit enough words. -/
  noneLeft : ∀ node, list.current? = some node →
    node.reserved - node.committed < list.leastGrowth kind size
  /-- A new node can. -/
  grows : ¬list.Exhausted (list.leastGrowth kind size) (list.preferredGrowth kind size suggested)

/-- The least growth for a chunk depends on the dimensions of a list alone. -/
theorem Alike.leastGrowth_eq {list' : NodeList} (alike : list.Alike list') :
    list'.leastGrowth kind size = list.leastGrowth kind size := by
  unfold leastGrowth
  rw [alike.sizes, alike.granule]

/-- The current node is the last one. -/
theorem current?_eq_some_iff :
    list.current? = some node ↔ ∃ front, list.nodes.toList = front ++ [node] := by
  unfold current?
  rw [← Array.getLast?_toList, List.getLast?_eq_some_iff]

/-- The current node is one of the nodes. -/
theorem mem_of_current? (found : list.current? = some node) : node ∈ list.nodes.toList := by
  obtain ⟨front, split⟩ := current?_eq_some_iff.mp found
  rw [split]
  exact List.mem_append_right front List.mem_cons_self

end NodeList

/-- Words that are committed for a chunk have room for it, whatever padding it needs. -/
theorem Node.Carved.fits (carved : node.Carved row) (suits : node.sizes.Suits kind size)
    (room : node.top + (size + node.sizes.mostPadding kind size) ≤ node.committed) :
    node.sizes.Fits kind size node.top node.committed := by
  have topWhole := carved.top_whole
  have least := suits.specialized_le
  have bounds := Count.nextMultiple_bounds node.top suits.alignment_pos
  have start := Count.nextMultiple_mod node.top (node.sizes.alignment kind size)
  have startWhole := suits.offset_whole start
  unfold ChunkSizes.Fits
  unfold ChunkSizes.mostPadding at room
  -- Both the aligned start and the top with the most padding are multiples of the specialized size.
  by_cases humongous : kind.isHumongous = true
  · rw [if_pos humongous] at room
    have alignment : node.sizes.alignment kind size = node.sizes.specialized := if_pos humongous
    rw [alignment] at bounds start startWhole ⊢
    have le := Nat.le_of_lt_add_of_dvd bounds.2 (Nat.dvd_of_mod_eq_zero startWhole)
      (Nat.dvd_of_mod_eq_zero topWhole)
    omega
  · rw [if_neg humongous] at room
    have alignment : node.sizes.alignment kind size = size := if_neg humongous
    rw [alignment] at bounds start startWhole ⊢
    have padded : node.sizes.specialized ∣ node.top + (size - node.sizes.specialized) :=
      Nat.dvd_add (Nat.dvd_of_mod_eq_zero topWhole)
        (Nat.dvd_sub (Nat.dvd_of_mod_eq_zero suits.whole) (Nat.dvd_refl _))
    have le := Nat.le_of_lt_add_of_dvd (show Count.nextMultiple node.top size <
      node.top + (size - node.sizes.specialized) + node.sizes.specialized by omega)
      (Nat.dvd_of_mod_eq_zero startWhole) padded
    omega

/-- A node that offers as many words as are committed at least for a chunk has room for it. -/
theorem NodeList.Offers.fits (offers : list.Offers (list.leastGrowth kind size))
    (positive : 0 < list.granule) (sizes : ∀ node ∈ list.nodes.toList, node.sizes = list.sizes)
    (carved : ∀ node ∈ list.nodes.toList, ∃ row, node.Carved row)
    (suits : list.sizes.Suits kind size) :
    ∃ node, list.current? = some node ∧ node.sizes.Fits kind size node.top node.committed := by
  obtain ⟨node, current, room⟩ := offers
  have member := NodeList.mem_of_current? current
  obtain ⟨row, isCarved⟩ := carved node member
  have needed := (Count.nextMultiple_bounds (size + list.sizes.mostPadding kind size) positive).1
  unfold NodeList.leastGrowth at room
  refine ⟨node, current, isCarved.fits ?_ ?_⟩
  · rw [sizes node member]
    exact suits
  · rw [sizes node member]
    omega

/-- An arena in which no free chunk, no room in the current node and no growth serves a request. -/
structure Arena.Stuck (arena : Arena) (kind : Kind) (size suggested : Nat) : Prop where
  /-- No free chunk serves the request. -/
  pool : ∀ chunk ∈ arena.pool.chunks, ¬chunk.block.Serves kind size
  /-- The nodes have no room and cannot grow. -/
  full : arena.list.Full kind size suggested

/-- An arena in which only a new node serves a request. -/
structure Arena.Opens (arena : Arena) (kind : Kind) (size suggested : Nat) : Prop where
  /-- No free chunk serves the request. -/
  pool : ∀ chunk ∈ arena.pool.chunks, ¬chunk.block.Serves kind size
  /-- The nodes can grow by a new node alone. -/
  list : arena.list.Opens kind size suggested

/-- An arena after its current node was given up: the last node has a new state in which nothing is
left to carve, and its row became coarser. -/
structure Arena.Retired (uses : Nat) (held : List Chunk) (arena arena' : Arena) (front : List Node)
    (node node' : Node) (row after : List Block) : Prop where
  /-- The node was the last one. -/
  nodes : arena.list.nodes.toList = front ++ [node]
  /-- The node is the last one still, and the other nodes stay. -/
  list : arena'.list = { arena.list with nodes := (front ++ [node']).toArray }
  /-- The stock of the node was settled. -/
  before : Settled uses arena.pool node held row
  /-- The stock of the node is settled. -/
  settled : Settled uses arena'.pool node' held after
  /-- Free chunks of other nodes and words of held chunks stay. -/
  steady : Steady held arena.pool node arena'.pool node'
  /-- No words are left over. -/
  top : node'.top = node'.committed
  /-- Free blocks were merged at most. -/
  coarser : Coarser row after node.top

/-- An arena that stays as it was, unless its current node was given up for a number of words that
the limit would allow, outside of the class space. -/
def Arena.GivenUp (uses : Nat) (held : List Chunk) (words : Nat) (arena arena' : Arena) : Prop :=
  arena' = arena ∨ words ≤ arena.list.limit ∧ arena.list.isClass = false ∧
    ∃ front node node' row after, Arena.Retired uses held arena arena' front node node' row after

namespace Arena.Retired

variable {arena arena' : Arena}

/-- Nothing that is counted of nodes depends on what was carved of the last one. -/
theorem map_eq {α : Type} (retired : Arena.Retired uses held arena arena' front node node' row after)
    {count : Node → α} (same : count node' = count node) :
    arena'.list.nodes.toList.map count = arena.list.nodes.toList.map count := by
  rw [retired.nodes, retired.list]
  change (front ++ [node']).map count = _
  rw [List.map_append, List.map_append, List.map_singleton, List.map_singleton, same]

/-- The nodes reserve as many words as before. -/
theorem total_eq (retired : Arena.Retired uses held arena arena' front node node' row after) :
    arena'.list.total = arena.list.total :=
  congrArg List.sum (retired.map_eq retired.steady.nodeAlike.reserved)

/-- The node that was given up is the current one. -/
theorem current?_eq (retired : Arena.Retired uses held arena arena' front node node' row after) :
    arena.list.current? = some node ∧ arena'.list.current? = some node' := by
  refine ⟨NodeList.current?_eq_some_iff.mpr ⟨front, retired.nodes⟩,
    NodeList.current?_eq_some_iff.mpr ⟨front, ?_⟩⟩
  rw [retired.list]

/-- A list that was full is full after its current node was given up. -/
theorem full (retired : Arena.Retired uses held arena arena' front node node' row after)
    (positive : 0 < size) (alignment : 0 < node'.sizes.alignment kind size)
    (full : arena.list.Full kind size suggested) : arena'.list.Full kind size suggested := by
  obtain ⟨current, currentAfter⟩ := retired.current?_eq
  have committed := retired.map_eq retired.steady.nodeAlike.committed
  have total := retired.total_eq
  have alike := retired.steady.nodeAlike
  refine ⟨?_, ?_⟩
  · intro last found fits
    have isLast : node' = last := Option.some.inj (currentAfter.symm.trans found)
    rw [← isLast, retired.top] at fits
    have bounds := Count.nextMultiple_bounds node'.committed alignment
    unfold ChunkSizes.Fits at fits
    omega
  · have exhausted := full.exhausted
    unfold NodeList.Exhausted at exhausted ⊢
    rw [committed, total, currentAfter]
    rw [current] at exhausted
    simp only [Option.some.injEq, forall_eq'] at exhausted ⊢
    rw [alike.reserved, alike.committed]
    rw [retired.list]
    exact exhausted

end Arena.Retired

/-- What is given up for some words is given up for fewer. -/
theorem Arena.GivenUp.mono {arena arena' : Arena} {words fewer : Nat}
    (givenUp : Arena.GivenUp uses held words arena arena') (le : fewer ≤ words) :
    Arena.GivenUp uses held fewer arena arena' :=
  givenUp.imp_right fun ⟨within, retired⟩ => ⟨Nat.le_trans le within, retired⟩

/-- The nodes reserve as many words as before where the current one was given up at most. -/
theorem Arena.GivenUp.total_eq {arena arena' : Arena} {words : Nat}
    (givenUp : Arena.GivenUp uses held words arena arena') :
    arena'.list.total = arena.list.total := by
  rcases givenUp with same | ⟨_, _, _, _, _, _, _, retired⟩
  · rw [same]
  · exact retired.total_eq

end CollectorMemory
