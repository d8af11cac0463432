import CollectorMemory.Proofs.Arena.Growth
import CollectorMemory.Proofs.Arena.Purge
import CollectorMemory.Proofs.NodeList.Paired
import CollectorMemory.Proofs.Pool.Lockstep

/-!
# Twin arenas in lockstep

The nodes of twin lists are twins one by one, so lookups find twins and all sums agree. Twin arenas
that are sound with the same chunks serve requests in lockstep.
-/

namespace CollectorMemory

variable {excuse : Prop} {uses : Nat} {list list' : NodeList} {pool pool' : Pool}
  {held : List Chunk} {node node' : Node} {kind : Kind}

/-- Two lists that are the same but for whether they are audited, of nodes that are twins. -/
structure NodeList.Twin (list twin : NodeList) : Prop where
  /-- The space is the same. -/
  space : twin.space = list.space
  /-- The chunk sizes are the same. -/
  sizes : twin.sizes = list.sizes
  /-- The nodes are twins one by one. -/
  nodes : List.Forall₂ Node.Twin list.nodes.toList twin.nodes.toList
  /-- The next number is the same. -/
  nextIndex : twin.nextIndex = list.nextIndex
  /-- The least size of new nodes is the same. -/
  nodeWords : twin.nodeWords = list.nodeWords
  /-- The limit on reserved words is the same. -/
  limit : twin.limit = list.limit
  /-- The granule is the same. -/
  granule : twin.granule = list.granule

/-- Twins correspond. -/
theorem Node.Twin.corresponds : Node.Corresponds Node.Twin := ⟨Twin.id, Twin.reserved, Twin.committed⟩

namespace NodeList.Twin

/-- Twin lists are the lists of one shape whose nodes are twins. -/
theorem iff_paired : list.Twin list' ↔ list.Paired Node.Twin list' :=
  ⟨fun lists => { lists with }, fun lists => { lists with }⟩

/-- Twin lists are lists of the class space together. -/
theorem isClass (lists : list.Twin list') : list'.isClass = list.isClass :=
  (iff_paired.mp lists).isClass

/-- Twin lists are empty together. -/
theorem isEmpty (lists : list.Twin list') : list'.nodes.isEmpty = list.nodes.isEmpty :=
  (iff_paired.mp lists).isEmpty

/-- A handle finds twins in twin lists. -/
theorem node? (lists : list.Twin list') (id : NodeId) :
    Option.Rel Node.Twin (list.node? id) (list'.node? id) :=
  (iff_paired.mp lists).node? Node.Twin.corresponds id

/-- Twin lists stay twins where twins are put into them. -/
theorem withNode (lists : list.Twin list') (nodes : node.Twin node') :
    (list.withNode node).Twin (list'.withNode node') :=
  iff_paired.mpr ((iff_paired.mp lists).withNode Node.Twin.corresponds nodes)

/-- Twin lists have twins at their ends. -/
theorem current? (lists : list.Twin list') : Option.Rel Node.Twin list.current? list'.current? :=
  (iff_paired.mp lists).current?

/-- Twin lists commit the same words. -/
theorem committedWords (lists : list.Twin list') : list'.committedWords = list.committedWords :=
  (iff_paired.mp lists).committedWords Node.Twin.corresponds

/-- Twin lists reserve new nodes in lockstep. -/
theorem reserve (lists : list.Twin list') (words : Nat) :
    Lockstep excuse (Option.Rel NodeList.Twin) (list.reserve words).outcome
      (list'.reserve words).outcome := by
  apply ((iff_paired.mp lists).reserve Node.Twin.corresponds
    fun _ => Node.reserve_lockstep _ _ _ _ _).mono
  intro found found' both
  cases both with
  | none => exact Option.Rel.none
  | some both => exact Option.Rel.some (iff_paired.mpr both.1)

/-- Twin lists commit words in their last nodes in lockstep. -/
theorem expandCurrent (lists : list.Twin list') (least preferred : Nat) :
    Lockstep excuse
      (fun (isDone, list) (isDone', list') => isDone' = isDone ∧ list.Twin list')
      (list.expandCurrent least preferred).outcome
      (list'.expandCurrent least preferred).outcome := by
  apply ((iff_paired.mp lists).expandCurrent Node.Twin.corresponds
    fun _ _ nodes => nodes.expand least preferred).mono
  intro (isDone, after) (isDone', after') ⟨same, paired⟩
  exact ⟨same, iff_paired.mpr paired⟩

/-- Twin lists are bounded together. -/
theorem bounded (lists : list.Twin list') (bounded : list.Bounded) : list'.Bounded where
  limit := by rw [lists.limit]; exact bounded.limit
  nodeWords := by rw [lists.nodeWords]; exact bounded.nodeWords
  granule := by rw [lists.granule]; exact bounded.granule
  medium := by rw [lists.sizes]; exact bounded.medium

/-- The most padding is the same with twin lists. -/
theorem mostPadding (lists : list.Twin list') (size : Nat) :
    list'.mostPadding size = list.mostPadding size :=
  (iff_paired.mp lists).mostPadding size

/-- The node of a chunk is looked up in lockstep in twin lists. -/
theorem nodeOf (lists : list.Twin list') (chunk : Chunk) :
    Lockstep excuse Node.Twin (Pool.nodeOf list chunk) (Pool.nodeOf list' chunk) :=
  (iff_paired.mp lists).nodeOf Node.Twin.corresponds chunk

end NodeList.Twin

/-- What taking a chunk gives beside what it gives with twins. -/
def TakenAlongside : Option (Pool × NodeList × Chunk) → Option (Pool × NodeList × Chunk) → Prop :=
  Option.Rel fun (pool, list, chunk) (pool', list', chunk') =>
    pool.Twin pool' ∧ list.Twin list' ∧ chunk' = chunk

/-- A larger chunk is split with the same result as with twins. -/
theorem Pool.Twin.splitLarger (pools : pool.Twin pool') (lists : list.Twin list') (target : Kind) :
    Lockstep True
      (Option.Rel fun (pool, list) (pool', list') => pool.Twin pool' ∧ list.Twin list')
      (pool.splitLarger list target).outcome (pool'.splitLarger list' target).outcome := by
  unfold Pool.splitLarger
  obtain ⟨found, found'⟩ | ⟨⟨rest, larger⟩, ⟨rest', larger'⟩, found, found', pools, same⟩ :=
    cases_of_rel (pools.firstOf? target.above)
  · rw [found, found']
    exact Option.Rel.none
  · rw [found, found']
    cases same
    apply lockstep_note
    apply Lockstep.bindRun (lists.nodeOf larger)
    intro node node' nodes
    apply Lockstep.bindRun (nodes.split larger target)
    intro (node, first, pieces) (node', first', pieces') ⟨nodes, same⟩
    cases same
    apply Lockstep.bindRun (lockstep_checks _ _)
    intro _ _ _
    dsimp only
    rw [pools.count]
    apply lockstep_sameRun
    intro count _
    obtain ⟨audited, same⟩ := pools
    cases same
    refine Lockstep.bindRun (Pool.Twin.pushPieces ⟨audited, rfl⟩ node node' pieces) ?_
    intro placed placed' pools
    exact Option.Rel.some ⟨pools.push first, lists.withNode nodes⟩

/-- A free chunk is selected with the same result as with twins. -/
theorem Pool.Twin.select (pools : pool.Twin pool') (lists : list.Twin list') (size : Nat) :
    Lockstep True TakenAlongside (pool.select list size).outcome (pool'.select list' size).outcome := by
  have humongous : pool'.humongous = pool.humongous := pools.ofKind .humongous
  unfold Pool.select
  rw [pools.sizes, humongous]
  apply lockstep_sameRun
  intro kind _
  split
  · cases takeFirst? (fun chunk => decide (size ≤ chunk.size)) pool.humongous with
    | none => exact Option.Rel.none
    | some taken => exact Option.Rel.some ⟨pools.withKind .humongous taken.2, lists, rfl⟩
  · obtain ⟨found, found'⟩ | ⟨_, _, found, found', rest, same⟩ :=
      cases_of_rel (pools.firstOf? [kind])
    · rw [found, found']
      apply Lockstep.bindRun (pools.splitLarger lists kind)
      intro split split' both
      cases both with
      | none => exact Option.Rel.none
      | @some placed placed' both =>
        change Option.Rel _ ((placed.1.firstOf? [kind]).map _) ((placed'.1.firstOf? [kind]).map _)
        obtain ⟨found, found'⟩ | ⟨_, _, found, found', rest, same⟩ :=
          cases_of_rel (both.1.firstOf? [kind])
        · rw [found, found']
          exact Option.Rel.none
        · rw [found, found']
          exact Option.Rel.some ⟨rest, both.2, same⟩
    · rw [found, found']
      exact Option.Rel.some ⟨rest, lists, same⟩

/-- A free chunk is taken with the same result as with twins. -/
theorem Pool.Twin.take (pools : pool.Twin pool') (lists : list.Twin list') (size : Nat) :
    Lockstep True TakenAlongside (pool.take list size).outcome (pool'.take list' size).outcome := by
  unfold Pool.take
  apply Lockstep.bindRun (pools.select lists size)
  intro selected selected' both
  cases both with
  | none => exact Option.Rel.none
  | @some taken taken' both =>
    obtain ⟨rest, list, chunk⟩ := taken
    obtain ⟨rest', list', chunk'⟩ := taken'
    obtain ⟨pools, lists, same⟩ := both
    cases same
    apply Lockstep.bindRun (pools.countRemoved chunk)
    intro counted counted' pools
    apply Lockstep.bindRun (lists.nodeOf chunk)
    intro node node' nodes
    apply Lockstep.bindRun (nodes.setInUse chunk true)
    intro (tagged, used) (tagged', used') ⟨nodes, same⟩
    cases same
    apply lockstep_note
    apply Lockstep.bindRun (lockstep_checks _ _)
    intro _ _ _
    exact Option.Rel.some ⟨pools, lists.withNode nodes.addInUse, rfl⟩

/-- Two arenas whose lists and pools are twins. -/
structure Arena.Twin (arena twin : Arena) : Prop where
  /-- The lists are twins. -/
  list : arena.list.Twin twin.list
  /-- The pools are twins. -/
  pool : arena.pool.Twin twin.pool

namespace Arena.Sound

variable {size words least preferred suggested : Nat}
  (sound : Arena.Sound uses ⟨list, pool⟩ held) (sound' : Arena.Sound uses ⟨list', pool'⟩ held)
  (lists : list.Twin list') (pools : pool.Twin pool')

include sound sound' lists pools in
/-- A chunk is taken from the pool in lockstep with twins. -/
theorem take_lockstep (suits : list.sizes.Suits kind size) :
    Lockstep False TakenAlongside (pool.take list size).outcome (pool'.take list' size).outcome := by
  apply ((pools.take lists size).ensured (sound.take_ensures suits)
    (sound'.take_ensures (by rw [lists.sizes]; exact suits))).mono
  exact fun _ _ together => together.1

include sound sound' lists pools in
/-- The current node is given up in lockstep with twins. -/
theorem retireCurrent_lockstep (bounded : list.Bounded) :
    Lockstep False (fun (list, pool) (list', pool') => list.Twin list' ∧ pool.Twin pool')
      (list.retireCurrent pool).outcome (list'.retireCurrent pool').outcome := by
  unfold NodeList.retireCurrent
  obtain ⟨found, found'⟩ | ⟨node, node', found, found', nodes⟩ := cases_of_rel lists.current?
  · rw [found, found']
    exact ⟨lists, pools⟩
  · rw [found, found']
    have member := NodeList.mem_of_current? found
    have member' := NodeList.mem_of_current? found'
    have bounded' := lists.bounded bounded
    obtain ⟨row, settled⟩ := sound.settled node member
    obtain ⟨row', settled'⟩ := sound'.settled node' member'
    have sizes : node.sizes = list.sizes := sound.nodeSizes node member
    have limited := sound.reserved_le member
    have small := bounded.limit
    have medium := bounded.medium
    have fits : node.reserved + 2 * node.sizes.medium < wordLimit := by
      rw [sizes]
      unfold wordLimit
      omega
    apply Lockstep.bindRun ((settled.retire_agree settled' pools nodes).ensured
      (settled.retire_ensures (sound.room (fun _ => bounded) member) fun _ => fits)
      (settled'.retire_ensures (sound'.room (fun _ => bounded') member') fun _ => by
        rw [nodes.reserved, nodes.sizes]
        exact fits))
    intro (last, pool) (last', pool') ⟨⟨nodes, pools⟩, _⟩
    exact ⟨lists.withNode nodes, pools⟩

include sound sound' lists pools in
/-- A chunk is carved from the current node in lockstep with twins. -/
theorem takeCurrent_lockstep (bounded : list.Bounded) (suits : list.sizes.Suits kind size)
    (short : size ≤ list.limit → size < Header.sizeLimit) :
    Lockstep False
      (fun (found, list, pool) (found', list', pool') =>
        found' = found ∧ list.Twin list' ∧ pool.Twin pool')
      (list.takeCurrent size pool).outcome (list'.takeCurrent size pool').outcome := by
  unfold NodeList.takeCurrent
  obtain ⟨found, found'⟩ | ⟨node, node', found, found', nodes⟩ := cases_of_rel lists.current?
  · rw [found, found']
    exact ⟨rfl, lists, pools⟩
  · rw [found, found']
    have member := NodeList.mem_of_current? found
    have member' := NodeList.mem_of_current? found'
    obtain ⟨row, settled⟩ := sound.settled node member
    obtain ⟨row', settled'⟩ := sound'.settled node' member'
    have sizes : node.sizes = list.sizes := sound.nodeSizes node member
    have limited := sound.reserved_le member
    apply Lockstep.bindRun (settled.carveAligned_lockstep settled' pools nodes
      (sound.room (fun _ => bounded) member)
      (sound'.room (fun _ => lists.bounded bounded) member')
      (Nat.lt_of_le_of_lt limited bounded.limit) (by rw [sizes]; exact suits)
      fun inside => short (Nat.le_trans inside limited))
    intro taken taken' both
    cases both with
    | none => exact ⟨rfl, lists, pools⟩
    | some both => exact ⟨congrArg some both.2.2, lists.withNode both.1, both.2.1⟩

include sound sound' lists pools in
/-- A list grows in lockstep with a twin. -/
theorem expand_lockstep (bounded : list.Bounded) :
    Lockstep False
      (fun (isDone, list, pool) (isDone', list', pool') =>
        isDone' = isDone ∧ list.Twin list' ∧ pool.Twin pool')
      (list.expand least preferred pool).outcome (list'.expand least preferred pool').outcome := by
  unfold NodeList.expand
  rw [lists.committedWords, lists.limit]
  apply lockstep_sameRun
  intro committed _
  dsimp only
  split
  · apply lockstep_note
    exact ⟨rfl, lists, pools⟩
  · apply Lockstep.bindRun ((lists.expandCurrent _ _).known
      (sound.expandCurrent_ensures (absurd trivial)) (sound'.expandCurrent_ensures (absurd trivial)))
    intro (isDone, first) (isDone', first') ⟨⟨same, lists⟩, ⟨follows, _⟩, ⟨follows', _⟩⟩
    cases same
    cases isDone with
    | true => exact ⟨rfl, lists, pools⟩
    | false =>
      dsimp only
      rw [if_neg Bool.false_ne_true, if_neg Bool.false_ne_true, lists.isClass]
      split
      · exact ⟨rfl, lists, pools⟩
      · have bounded : first.Bounded := bounded.of_alike follows.spares.list
        apply Lockstep.bindRun
          (follows.sound.retireCurrent_lockstep follows'.sound lists pools bounded)
        intro (second, pool) (second', pool') ⟨lists, pools⟩
        dsimp only
        rw [lists.nodeWords, lists.granule]
        apply lockstep_sameRun
        intro words _
        apply Lockstep.bindRun (lists.reserve words)
        intro grown grown' both
        cases both with
        | none => exact ⟨rfl, lists, pools⟩
        | some lists =>
          apply Lockstep.bindRun (lists.expandCurrent _ _)
          intro (isDone, last) (isDone', last') ⟨same, lists⟩
          exact ⟨same, lists, pools⟩

include sound sound' lists pools in
/-- A new chunk is made in lockstep with twins. -/
theorem newChunk_lockstep (bounded : list.Bounded) (suits : list.sizes.Suits kind size)
    (short : size ≤ list.limit → size < Header.sizeLimit) :
    Lockstep False
      (fun (found, list, pool) (found', list', pool') =>
        found' = found ∧ list.Twin list' ∧ pool.Twin pool')
      (list.newChunk size suggested pool).outcome (list'.newChunk size suggested pool').outcome := by
  have suits' : list'.sizes.Suits kind size := by
    rw [lists.sizes]
    exact suits
  have short' : size ≤ list'.limit → size < Header.sizeLimit := by
    rw [lists.limit]
    exact short
  unfold NodeList.newChunk
  apply Lockstep.bindRun ((sound.takeCurrent_lockstep sound' lists pools bounded suits short).known
    (sound.takeCurrent_ensures (absurd trivial) suits short (absurd trivial))
    (sound'.takeCurrent_ensures (absurd trivial) suits' short' (absurd trivial)))
  intro (found, first, firstPool) (found', first', firstPool') ⟨⟨same, lists, pools⟩, left, right⟩
  cases same
  cases found with
  | some chunk => exact ⟨rfl, lists, pools⟩
  | none =>
    obtain ⟨_, rfl, rfl, _⟩ := left
    obtain ⟨_, rfl, rfl, _⟩ := right
    dsimp only
    rw [lists.mostPadding, lists.granule]
    rw [if_neg (by simp), if_neg (by simp)]
    apply lockstep_sameRun
    intro padding _
    apply lockstep_sameRun
    intro needed _
    apply lockstep_sameRun
    intro least _
    apply lockstep_sameRun
    intro wanted _
    have ordered : least ≤ max wanted least := Nat.le_max_right _ _
    apply Lockstep.bindRun ((sound.expand_lockstep sound' lists pools bounded).known
      (sound.expand_ensures (absurd trivial) (absurd trivial) ordered (absurd trivial))
      (sound'.expand_ensures (absurd trivial) (absurd trivial) ordered (absurd trivial)))
    intro (isDone, second, pool) (isDone', second', pool') ⟨⟨same, lists, pools⟩, left, right⟩
    cases same
    have alike := left.1.spares.list
    cases isDone with
    | false => exact ⟨rfl, lists, pools⟩
    | true =>
      have goesOn : ¬(!true) = true := by simp
      dsimp only
      rw [if_neg goesOn, if_neg goesOn, lists.isEmpty]
      split
      · exact ⟨rfl, lists, pools⟩
      · apply Lockstep.bindRun (left.1.sound.takeCurrent_lockstep right.1.sound lists pools
          (bounded.of_alike alike) (by rw [alike.sizes]; exact suits)
          (by rw [alike.limit]; exact short))
        intro (found, last, pool) (found', last', pool') together
        apply lockstep_noteIf
        exact together

end Arena.Sound

/-- A chunk is provided in lockstep by twins. -/
theorem Arena.Sound.provide_lockstep {arena arena' : Arena} {size suggested : Nat}
    (sound : Arena.Sound uses arena held) (sound' : Arena.Sound uses arena' held)
    (arenas : arena.Twin arena') (bounded : arena.list.Bounded)
    (suits : arena.list.sizes.Suits kind size)
    (short : size ≤ arena.list.limit → size < Header.sizeLimit) :
    Lockstep False (fun (found, arena) (found', arena') => found' = found ∧ arena.Twin arena')
      (arena.provide size suggested).outcome (arena'.provide size suggested).outcome := by
  unfold Arena.provide
  apply Lockstep.bindRun (sound.take_lockstep sound' arenas.list arenas.pool suits)
  intro taken taken' both
  cases both with
  | some both => exact ⟨congrArg some both.2.2, both.2.1, both.1⟩
  | none =>
    apply Lockstep.bindRun
      (sound.newChunk_lockstep sound' arenas.list arenas.pool bounded suits short)
    intro (found, list, pool) (found', list', pool') ⟨same, lists, pools⟩
    exact ⟨same, lists, pools⟩

/-- Nodes are given up in lockstep with twins. -/
theorem Pool.Twin.purgeNodes {nodes nodes' : List Node} (pools : pool.Twin pool')
    (each : List.Forall₂ Node.Twin nodes nodes') (keep : Option NodeId) :
    Lockstep excuse
      (fun (kept, pool, purged) (kept', pool', purged') =>
        List.Forall₂ Node.Twin kept kept' ∧ pool.Twin pool' ∧ purged' = purged)
      (NodeList.purgeNodes keep pool nodes).outcome
      (NodeList.purgeNodes keep pool' nodes').outcome := by
  induction each generalizing pool pool' with
  | nil => exact ⟨List.Forall₂.nil, pools, rfl⟩
  | cons head rest ih =>
    unfold NodeList.purgeNodes
    rw [head.id, head.chunksInUse]
    split
    · apply lockstep_note
      apply Lockstep.bindRun (pools.dropNode _)
      rintro ⟨dropped, count⟩ ⟨dropped', count'⟩ ⟨pools, _⟩
      apply Lockstep.bindRun (ih pools)
      rintro ⟨kept, pool, purged⟩ ⟨kept', pool', purged'⟩ ⟨each, pools, same⟩
      exact ⟨each, pools, congrArg (· + 1) same⟩
    · apply Lockstep.bindRun (ih pools)
      rintro ⟨kept, pool, purged⟩ ⟨kept', pool', purged'⟩ ⟨each, pools, same⟩
      exact ⟨List.Forall₂.cons head each, pools, same⟩

/-- Twin arenas are purged in lockstep. -/
theorem NodeList.Twin.purge (lists : list.Twin list') (pools : pool.Twin pool') :
    Lockstep excuse
      (fun (list, pool, purged) (list', pool', purged') =>
        list.Twin list' ∧ pool.Twin pool' ∧ purged' = purged)
      (list.purge pool).outcome (list'.purge pool').outcome := by
  have keep : list'.current?.map Node.id = list.current?.map Node.id := by
    obtain ⟨found, found'⟩ | ⟨_, _, found, found', nodes⟩ := cases_of_rel lists.current?
    · rw [found, found']
    · rw [found, found']
      exact congrArg some nodes.id
  unfold NodeList.purge
  rw [keep]
  apply Lockstep.bindRun (pools.purgeNodes lists.nodes _)
  intro (kept, pool, purged) (kept', pool', purged') ⟨each, pools, same⟩
  exact ⟨{ lists with nodes := each }, pools, same⟩

end CollectorMemory
