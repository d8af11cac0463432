import CollectorMemory.Proofs.Arena.Sound

/-!
# Purging and checking a sound arena

A node without a chunk in use holds no chunk of any user, so it can be given up with its free chunks,
and the arena stays sound without them. The check of a sound arena passes.
-/

namespace CollectorMemory

variable {excuse : Prop} {uses : Nat} {list : NodeList} {pool : Pool} {held chunks : List Chunk}
  {node : Node} {nodes : List Node} {id : NodeId} {keep : Option NodeId}

/-- Counting chunks less changes the numbers alone. -/
theorem Pool.countAllRemoved_ensures (words : wordsOf chunks ≤ pool.words)
    (count : chunks.length ≤ pool.count) :
    Ensures excuse (pool.countAllRemoved chunks) fun after =>
      after = { pool with
        words := pool.words - wordsOf chunks
        count := pool.count - chunks.length } := by
  induction chunks generalizing pool with
  | nil => exact rfl
  | cons head rest ih =>
    rw [wordsOf_cons] at words
    rw [List.length_cons] at count
    unfold Pool.countAllRemoved
    rw [List.foldlM_cons]
    apply Ensures.bind (Pool.countRemoved_ensures (by omega) (by omega))
    rintro middle rfl
    apply (ih (show wordsOf rest ≤ pool.words - head.size by omega)
      (show rest.length ≤ pool.count - 1 by omega)).mono
    rintro after rfl
    rw [wordsOf_cons, List.length_cons, Nat.sub_sub, Nat.sub_sub, Nat.add_comm rest.length 1]

/-- A pool without the chunks of a node; the numbers stay. -/
def Pool.withoutNode (id : NodeId) (pool : Pool) : Pool :=
  { pool with
    specialized := outside id pool.specialized
    small := outside id pool.small
    medium := outside id pool.medium
    humongous := outside id pool.humongous }

/-- What stays of every kind of chunks stays of all chunks. -/
theorem Pool.chunks_eq_filter {pool' : Pool} {stays : Chunk → Bool}
    (each : ∀ kind, pool'.ofKind kind = (pool.ofKind kind).filter stays) :
    pool'.chunks = pool.chunks.filter stays := by
  unfold Pool.chunks
  rw [funext each, List.filter_flatMap]

/-- The chunks that stay are those of other nodes. -/
theorem Pool.ofKind_withoutNode (kind : Kind) :
    (pool.withoutNode id).ofKind kind = outside id (pool.ofKind kind) := by
  cases kind <;> rfl

/-- Without the chunks of a node a pool is sound. -/
theorem Pool.Sound.dropNode_ensures (sound : pool.Sound uses) :
    Ensures excuse (pool.dropNode id) fun (after, _) => pool.Alike after ∧ after.Sound uses ∧
      ∀ kind, after.ofKind kind = outside id (pool.ofKind kind) := by
  have isChunks : (pool.withoutNode id).chunks = outside id pool.chunks :=
    Pool.chunks_eq_filter Pool.ofKind_withoutNode
  have perm : (within id pool.chunks ++ (pool.withoutNode id).chunks).Perm pool.chunks := by
    rw [isChunks]
    exact List.filter_append_perm (fun chunk : Chunk => chunk.container == id) pool.chunks
  have sums := wordsOf_perm perm
  have lengths := perm.length_eq
  rw [wordsOf_append] at sums
  rw [List.length_append] at lengths
  have countEq := sound.count
  have wordsEq := sound.words
  have counted := sound.counted
  unfold Pool.dropNode
  change Ensures excuse ((pool.withoutNode id).countAllRemoved (within id pool.chunks) >>= _) _
  apply Ensures.bind (Pool.countAllRemoved_ensures
    (show wordsOf (within id pool.chunks) ≤ (pool.withoutNode id).words by
      change _ ≤ pool.words
      omega)
    (show (within id pool.chunks).length ≤ (pool.withoutNode id).count by
      change _ ≤ pool.count
      omega))
  rintro after isAfter
  have words : after.words = pool.words - wordsOf (within id pool.chunks) := by
    rw [isAfter]
    rfl
  have count : after.count = pool.count - (within id pool.chunks).length := by
    rw [isAfter]
    rfl
  have chunks : after.chunks = (pool.withoutNode id).chunks := by
    rw [isAfter]
    rfl
  have alike : pool.Alike after := by
    rw [isAfter]
    exact ⟨rfl, rfl, rfl⟩
  have isPart : ∀ kind, (after.ofKind kind).Sublist (pool.ofKind kind) := by
    intro kind
    rw [isAfter]
    cases kind <;> exact List.filter_sublist
  have filed : after.Filed :=
    ⟨fun kind chunk member => sound.filed.kind kind chunk ((isPart kind).subset member),
      fun kind => (sound.filed.ascending kind).sublist (isPart kind)⟩
  refine ⟨alike, ?_, fun kind => by rw [isAfter, ← Pool.ofKind_withoutNode]; cases kind <;> rfl⟩
  rw [← chunks] at perm
  apply sound.of_perm alike filed (show (within id pool.chunks ++ _).Perm ([] ++ _) from perm)
    (fun chunk member => absurd member List.not_mem_nil)
  · rw [List.length_nil]
    omega
  · rw [wordsOf_nil]
    omega
  · omega

/-- A node that is given up. -/
def Node.Spent (keep : Option NodeId) (node : Node) : Prop :=
  node.chunksInUse = 0 ∧ some node.id ≠ keep

instance : Decidable (Node.Spent keep node) := inferInstanceAs (Decidable (_ ∧ _))

/-- Purging keeps the nodes that are not spent, and of every kind the free chunks that belong to none
that is. The number of spent nodes is counted. -/
theorem Pool.Sound.purgeNodes_ensures (sound : pool.Sound uses) :
    Ensures excuse (NodeList.purgeNodes keep pool nodes).outcome fun (kept, after, purged) =>
      kept = nodes.filter (fun node => ¬node.Spent keep) ∧
        purged = nodes.countP (fun node => node.Spent keep) ∧
        pool.Alike after ∧ after.Sound uses ∧
        ∀ kind, after.ofKind kind = (pool.ofKind kind).filter fun chunk =>
          ∀ node ∈ nodes, node.Spent keep → chunk.container ≠ node.id := by
  induction nodes generalizing pool with
  | nil =>
    refine ⟨rfl, rfl, Pool.Alike.refl pool, sound, ?_⟩
    simp
  | cons head rest ih =>
    unfold NodeList.purgeNodes
    by_cases spent : head.Spent keep
    · rw [if_pos (show head.chunksInUse = 0 ∧ some head.id ≠ keep from spent)]
      refine ensures_note ?_
      refine Ensures.bindRun sound.dropNode_ensures ?_
      rintro ⟨middle, count⟩ ⟨alike, middleSound, middleChunks⟩
      refine Ensures.bindRun (ih middleSound) ?_
      rintro ⟨kept, after, purged⟩ ⟨isKept, isPurged, afterAlike, afterSound, afterChunks⟩
      refine ⟨?_, ?_, alike.trans afterAlike, afterSound, fun kind => ?_⟩
      · rw [List.filter_cons_of_neg (by simpa using spent)]
        exact isKept
      · rw [List.countP_cons_of_pos (by simpa using spent), isPurged]
      · rw [afterChunks, middleChunks]
        unfold outside
        rw [List.filter_filter]
        apply List.filter_congr
        intro chunk _
        rw [Bool.eq_iff_iff]
        simp [spent, and_comm]
    · rw [if_neg (show ¬(head.chunksInUse = 0 ∧ some head.id ≠ keep) from spent)]
      refine Ensures.bindRun (ih sound) ?_
      rintro ⟨kept, after, purged⟩ ⟨isKept, isPurged, afterAlike, afterSound, afterChunks⟩
      refine ⟨?_, ?_, afterAlike, afterSound, fun kind => ?_⟩
      · rw [List.filter_cons_of_pos (by simpa using spent), isKept]
      · rw [List.countP_cons_of_neg (by simpa using spent), isPurged]
      · rw [afterChunks]
        apply List.filter_congr
        intro chunk _
        simp [spent]

/-- A node that holds a chunk of a user is not given up. -/
theorem Arena.Sound.not_spent (sound : Arena.Sound uses ⟨list, pool⟩ held)
    (member : node ∈ list.nodes.toList) {chunk : Chunk} (isHeld : chunk ∈ held)
    (container : chunk.container = node.id) : ¬node.Spent keep := by
  rintro ⟨unused, _⟩
  obtain ⟨row, settled⟩ := sound.settled node member
  have inRow := settled.toStock.mem_row (List.mem_append_right _ isHeld) container
  have used : chunk.isFree = false := (settled.looseOwned chunk isHeld container).2.1
  have positive := inUseCount_pos inRow used
  have inUse := settled.inUse
  omega

/-- The chunks of a node that is not given up stay where those of spent nodes are given up. -/
theorem NodeList.Ordered.within_unspent (ordered : list.Ordered) (member : node ∈ list.nodes.toList)
    (notSpent : ¬node.Spent keep) (chunks : List Chunk) :
    within node.id (chunks.filter fun chunk =>
      ∀ other ∈ list.nodes.toList, other.Spent keep → chunk.container ≠ other.id) =
      within node.id chunks := by
  unfold within
  rw [List.filter_filter]
  apply List.filter_congr
  intro chunk _
  rw [Bool.eq_iff_iff, Bool.and_eq_true, beq_iff_eq, decide_eq_true_eq]
  constructor
  · exact And.left
  · intro container
    refine ⟨container, ?_⟩
    intro other inNodes spent isOther
    have same := ordered.eq_of_id inNodes member (isOther.symm.trans container)
    rw [same] at spent
    exact notSpent spent

/-- The node of the class space is the current one, which is not given up. -/
theorem NodeList.Whole.withoutSpent (whole : list.Whole) (keeps : list.current?.map Node.id = keep) :
    NodeList.Whole { list with
      nodes := (list.nodes.toList.filter fun node => ¬node.Spent keep).toArray } := by
  intro isClass
  obtain ⟨only, isOnly, reserved⟩ := whole isClass
  have current : list.current? = some only := by
    unfold NodeList.current?
    rw [← Array.getLast?_toList, isOnly]
    rfl
  have notSpent : ¬only.Spent keep := by
    rintro ⟨_, differs⟩
    rw [← keeps, current] at differs
    exact differs rfl
  refine ⟨only, ?_, reserved⟩
  change list.nodes.toList.filter _ = [only]
  rw [isOnly]
  simp [notSpent]

/-- An arena stays sound where spent nodes are given up with their free chunks. -/
theorem Arena.Sound.withoutSpent {pool' : Pool} (sound : Arena.Sound uses ⟨list, pool⟩ held)
    (alike : pool.Alike pool') (poolSound : pool'.Sound uses)
    (isChunks : pool'.chunks = pool.chunks.filter fun chunk =>
      ∀ node ∈ list.nodes.toList, node.Spent keep → chunk.container ≠ node.id)
    (isNodes : nodes = list.nodes.toList.filter (fun node => ¬node.Spent keep))
    (keeps : list.current?.map Node.id = keep) :
    Arena.Follows uses 0 held held ⟨list, pool⟩ ⟨{ list with nodes := nodes.toArray }, pool'⟩ := by
  have memNodes : ∀ {other}, other ∈ nodes ↔ other ∈ list.nodes.toList ∧ ¬other.Spent keep := by
    intro other
    rw [isNodes]
    simp
  have sub : nodes.Sublist list.nodes.toList := by
    rw [isNodes]
    exact List.filter_sublist
  have ordered : NodeList.Ordered { list with nodes := nodes.toArray } :=
    ⟨fun other member => sound.ordered.space other (memNodes.mp member).1,
      sound.ordered.increasing.sublist sub⟩
  have blocks : ∀ other ∈ nodes, blocksIn other.id (pool'.chunks ++ held) =
      blocksIn other.id (pool.chunks ++ held) := by
    intro other member
    obtain ⟨inList, notSpent⟩ := memNodes.mp member
    rw [isChunks, blocksIn_append, blocksIn_append]
    unfold blocksIn
    rw [sound.ordered.within_unspent inList notSpent pool.chunks]
  have whole : list.Whole → NodeList.Whole { list with nodes := nodes.toArray } := by
    rw [isNodes]
    exact fun whole => whole.withoutSpent keeps
  have fewer : ((nodes.map Node.reserved).sum) ≤ list.total :=
    (sub.map Node.reserved).sum_le_sum fun _ _ => Nat.zero_le _
  refine ⟨?_, ⟨⟨rfl, rfl, rfl, rfl, rfl, whole⟩, ?_⟩, Nat.le_refl _, fun _ => ⟨rfl, fewer⟩⟩
  · refine {
      ordered := ordered
      numbered := fun other member => sound.numbered other (memNodes.mp member).1
      nodeSizes := fun other member => sound.nodeSizes other (memNodes.mp member).1
      short := sound.short
      granule_pos := sound.granule_pos
      granule_whole := sound.granule_whole
      limited := ?_
      poolSound := poolSound
      poolSizes := alike.sizes.trans sound.poolSizes
      poolClass := alike.isClass.trans sound.poolClass
      live := ?_
      settled := ?_ }
    · exact Nat.le_trans fewer sound.limited
    · intro chunk member
      rcases List.mem_append.mp member with inPool | inHeld
      · rw [isChunks, List.mem_filter, decide_eq_true_eq] at inPool
        obtain ⟨old, kept⟩ := inPool
        obtain ⟨other, inList, isOther⟩ := sound.live chunk (List.mem_append_left held old)
        refine ⟨other, memNodes.mpr ⟨inList, ?_⟩, isOther⟩
        intro spent
        exact kept other inList spent isOther.symm
      · obtain ⟨other, inList, isOther⟩ := sound.live chunk (List.mem_append_right _ inHeld)
        exact ⟨other, memNodes.mpr ⟨inList, sound.not_spent inList inHeld isOther.symm⟩, isOther⟩
    · intro other member
      obtain ⟨row, settled⟩ := sound.settled other (memNodes.mp member).1
      exact ⟨row, { settled with
        poolSound := poolSound
        sizes := alike.sizes.trans settled.sizes
        isClass := alike.isClass.trans settled.isClass
        perm := by rw [blocks other member]; exact settled.perm }⟩
  · intro chunk isHeld other found
    obtain ⟨isOther, front, back, split⟩ := sound.ordered.exists_split found
    have inList : other ∈ list.nodes.toList := by
      rw [show list.nodes.toList = _ from split]
      exact List.mem_append_right front List.mem_cons_self
    have kept : other ∈ nodes := memNodes.mpr ⟨inList, sound.not_spent inList isHeld isOther.symm⟩
    obtain ⟨newFront, newBack, newSplit⟩ := List.append_of_mem kept
    refine ⟨other, ?_, fun _ _ _ => rfl⟩
    rw [← isOther]
    exact ordered.node?_eq newSplit

/-- A node that purging gives up: it is not the current one, and no chunk of it is held. -/
def Arena.Idle (held : List Chunk) (arena : Arena) (node : Node) : Prop :=
  arena.list.current?.map Node.id ≠ some node.id ∧ ∀ chunk ∈ held, chunk.container ≠ node.id

instance {arena : Arena} : DecidablePred (arena.Idle held) :=
  fun _ => inferInstanceAs (Decidable (_ ∧ _))

/-- An arena of which exactly the idle nodes were given up, with exactly their free chunks. -/
structure Arena.Purged (held : List Chunk) (arena : Arena) (purged : Nat) (after : Arena) :
    Prop where
  /-- The other nodes stay as they were, and nothing else of the list changes. -/
  list : after.list = { arena.list with
    nodes := (arena.list.nodes.toList.filter fun node => ¬arena.Idle held node).toArray }
  /-- The idle nodes are counted. -/
  purged : purged = arena.list.nodes.toList.countP fun node => arena.Idle held node
  /-- The free chunks of the other nodes stay as they were, in their order. -/
  pool : ∀ kind, after.pool.ofKind kind = (arena.pool.ofKind kind).filter fun chunk =>
    ∀ node ∈ arena.list.nodes.toList, arena.Idle held node → chunk.container ≠ node.id
  /-- The number of free chunks is that of those that stay. -/
  count : after.pool.count = after.pool.chunks.length
  /-- The number of free words is that of the chunks that stay. -/
  words : after.pool.words = wordsOf after.pool.chunks
  /-- The pool serves the same space, with the same sizes. -/
  alike : arena.pool.Alike after.pool

/-- The nodes that purging gives up are the idle ones. -/
theorem Arena.Sound.spent_iff (sound : Arena.Sound uses ⟨list, pool⟩ held)
    (member : node ∈ list.nodes.toList) :
    node.Spent (list.current?.map Node.id) ↔ Arena.Idle held ⟨list, pool⟩ node := by
  constructor
  · intro spent
    refine ⟨spent.2.symm, fun chunk isHeld container => ?_⟩
    exact sound.not_spent member isHeld container spent
  · intro idle
    obtain ⟨row, settled⟩ := sound.settled node member
    have noneHeld : within node.id held = [] := by
      unfold within
      rw [List.filter_eq_nil_iff]
      intro chunk isHeld
      simpa using idle.2 chunk isHeld
    refine ⟨?_, idle.1.symm⟩
    rw [settled.toStock.chunksInUse_eq, noneHeld]
    rfl

/-- Purging keeps an arena sound and gives up exactly what is idle. -/
theorem Arena.Sound.purge_ensures (sound : Arena.Sound uses ⟨list, pool⟩ held) :
    Ensures excuse (list.purge pool).outcome fun (list', pool', purged) =>
      Arena.Follows uses 0 held held ⟨list, pool⟩ ⟨list', pool'⟩ ∧
        Arena.Purged held ⟨list, pool⟩ purged ⟨list', pool'⟩ := by
  unfold NodeList.purge
  refine Ensures.bindRun sound.poolSound.purgeNodes_ensures ?_
  rintro ⟨kept, pool', purged⟩ ⟨isKept, isPurged, alike, poolSound, isKind⟩
  refine ⟨sound.withoutSpent alike poolSound (Pool.chunks_eq_filter isKind) isKept rfl, ?_⟩
  exact {
    list := by
      have same : kept = list.nodes.toList.filter fun node => ¬Arena.Idle held ⟨list, pool⟩ node := by
        rw [isKept]
        apply List.filter_congr
        intro node member
        simp [sound.spent_iff member]
      rw [same]
    purged := by
      rw [isPurged]
      apply List.countP_congr
      intro node member
      simp [sound.spent_iff member]
    pool := by
      intro kind
      rw [isKind]
      apply List.filter_congr
      intro chunk _
      rw [decide_eq_decide]
      exact forall₂_congr fun node member => by rw [sound.spent_iff member]
    count := poolSound.count
    words := poolSound.words
    alike := alike }

/-- The check of a sound arena passes. -/
theorem Arena.Sound.audit_ensures {arena : Arena} (sound : Arena.Sound uses arena held)
    (counted : ¬excuse → arena.list.limit < wordLimit) :
    Ensures excuse arena.audit fun _ => True := by
  have limited := sound.limited
  unfold Arena.audit
  apply Ensures.bind sound.poolSound.audit_ensures
  intro _ _
  apply Ensures.bind (ensures_forM fun chunk member => ?_)
  · intro _ _
    unfold NodeList.audit
    apply Ensures.bind (ensures_forM fun node inList => ?_)
    · intro _ _
      apply Ensures.bind (Count.sum_ensures fun hard =>
        Nat.lt_of_le_of_lt limited (counted hard))
      rintro reserved rfl
      exact (ensures_require fun _ => decide_eq_true limited).mono fun _ _ => trivial
    · obtain ⟨row, settled⟩ := sound.settled node inList
      exact settled.carved.audit_ensures settled.inUse
  · obtain ⟨node, inList, isNode⟩ := sound.live chunk (List.mem_append_left held member)
    obtain ⟨row, settled⟩ := sound.settled node inList
    obtain ⟨front, back, split⟩ := List.append_of_mem inList
    have holds := sound.poolSound.holds chunk member
    rw [← isNode, sound.ordered.node?_eq split]
    apply settled.carved.auditChunk_ensures
      (by rw [← settled.sizes]; exact holds.sound) isNode.symm (holds.isClass.trans settled.isClass)
    exact settled.toStock.mem_row (List.mem_append_left held member) isNode.symm

end CollectorMemory
