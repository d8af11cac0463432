import CollectorMemory.Proofs.Arena.Tagged

/-!
# Requests in arenas with tagged chunks

A request that is served while chunks are tagged is served by the same chunk where none is: whatever an
operation of an arena does with the tags, it does without them as well. What it does without them is
known from soundness, so that the tags are never in the way of soundness.
-/

namespace CollectorMemory

variable {uses : Nat} {tags : Location → Bool} {list list' : NodeList} {pool : Pool}
  {held : List Chunk} {kind : Kind} {space : Space}

/-- All tags in a space are at chunks that are held. -/
def TagsHeld (tags : Location → Bool) (space : Space) (held : List Chunk) : Prop :=
  ∀ place, tags place = true → place.node.space = space → ∃ chunk ∈ held, chunk.place = place

/-- What an operation gives beside what it gives with tags: the same answer and the same pool, and a list
that differs in the tags alone. -/
def AnsweredBeside {α : Type} (tags : Location → Bool) :
    α × NodeList × Pool → α × NodeList × Pool → Prop :=
  fun (answer, list, pool) (answer', list', pool') =>
    answer' = answer ∧ list.Tagged tags list' ∧ pool' = pool

namespace Arena.Sound

variable {size words least preferred suggested : Nat}
  (sound : Arena.Sound uses ⟨list, pool⟩ held) (lists : list.Tagged tags list')
  (bounded : list.Bounded)

include sound in
/-- The handle of the next node is not tagged. -/
theorem untagged_next (tagged : TagsHeld tags list.space held) (offset : Nat) :
    tags ⟨⟨list.space, list.nextIndex⟩, offset⟩ = false := by
  rw [← Bool.not_eq_true]
  intro isTagged
  obtain ⟨chunk, isHeld, isPlace⟩ := tagged _ isTagged rfl
  obtain ⟨node, inList, isNode⟩ := sound.live chunk (List.mem_append_right _ isHeld)
  have numbered : node.id.index < list.nextIndex := sound.numbered node inList
  have container : chunk.container = ⟨list.space, list.nextIndex⟩ := congrArg Location.node isPlace
  rw [isNode, container] at numbered
  exact absurd numbered (Nat.lt_irrefl _)

include sound lists in
/-- A chunk that is taken from the pool with tags is taken without them. -/
theorem take_simulates (suits : list.sizes.Suits kind size) :
    Simulates (TakenBeside tags) (pool.take list size).outcome (pool.take list' size).outcome := by
  have takes : Ensures False (pool.take list size).outcome _ := sound.take_ensures suits
  apply ((sound.stocked.take_tagged lists suits).simulates takes).mono
  exact fun _ _ together => together.1

include sound lists bounded in
/-- The current node is given up without the tags if it is with them. -/
theorem retireCurrent_simulates :
    Simulates (fun (list, pool) (list', pool') => list.Tagged tags list' ∧ pool' = pool)
      (list.retireCurrent pool).outcome (list'.retireCurrent pool).outcome := by
  unfold NodeList.retireCurrent
  obtain ⟨found, found'⟩ | ⟨node, node', found, found', nodes⟩ := cases_of_rel lists.current?
  · rw [found, found']
    exact simulates_ok ⟨lists, rfl⟩
  · rw [found, found']
    have member := NodeList.mem_of_current? found
    obtain ⟨row, settled⟩ := sound.settled node member
    have sizes : node.sizes = list.sizes := sound.nodeSizes node member
    have limited := sound.reserved_le member
    have small := bounded.limit
    have medium := bounded.medium
    have retires : Ensures False (node.retire pool).outcome _ :=
      settled.retire_ensures (sound.room (fun _ => bounded) member) fun _ => by
        rw [sizes]
        unfold wordLimit
        omega
    apply Simulates.bindRun ((settled.retire_tagged nodes).simulates retires)
    intro (last, pool) (last', pool') ⟨⟨nodes, same⟩, _⟩
    exact simulates_ok ⟨lists.withNode nodes, same⟩

include sound lists bounded in
/-- A chunk that is carved from the current node with tags is carved without them. -/
theorem takeCurrent_simulates (suits : list.sizes.Suits kind size)
    (short : size ≤ list.limit → size < Header.sizeLimit) :
    Simulates (AnsweredBeside tags) (list.takeCurrent size pool).outcome
      (list'.takeCurrent size pool).outcome := by
  unfold NodeList.takeCurrent
  obtain ⟨found, found'⟩ | ⟨node, node', found, found', nodes⟩ := cases_of_rel lists.current?
  · rw [found, found']
    exact simulates_ok ⟨rfl, lists, rfl⟩
  · rw [found, found']
    have member := NodeList.mem_of_current? found
    obtain ⟨row, settled⟩ := sound.settled node member
    have sizes : node.sizes = list.sizes := sound.nodeSizes node member
    have limited := sound.reserved_le member
    apply Simulates.bindRun (settled.carveAligned_simulates nodes
      (sound.room (fun _ => bounded) member) (Nat.lt_of_le_of_lt limited bounded.limit)
      (by rw [sizes]; exact suits) fun inside => short (Nat.le_trans inside limited))
    intro taken taken' both
    cases both with
    | none => exact simulates_ok ⟨rfl, lists, rfl⟩
    | some both =>
      obtain ⟨nodes, samePool, sameChunk, _⟩ := both
      exact simulates_ok ⟨congrArg some sameChunk, lists.withNode nodes, samePool⟩

include sound lists bounded in
/-- A list that grows with tags grows without them. -/
theorem expand_simulates (tagged : TagsHeld tags list.space held) :
    Simulates (AnsweredBeside tags) (list.expand least preferred pool).outcome
      (list'.expand least preferred pool).outcome := by
  unfold NodeList.expand
  rw [lists.committedWords Node.Tagged.corresponds, lists.limit]
  apply simulates_sameRun
  intro committed _
  dsimp only
  split
  · apply simulates_note
    exact simulates_ok ⟨rfl, lists, rfl⟩
  · apply Simulates.bindRun ((lists.expandCurrent _ _).simulates_of_hard.known
      (sound.expandCurrent_ensures (absurd trivial)) (ensures_excused _))
    intro (isDone, first) (isDone', first') ⟨⟨same, lists⟩, ⟨follows, _⟩, _⟩
    cases same
    have alike := follows.spares.list
    cases isDone with
    | true => exact simulates_ok ⟨rfl, lists, rfl⟩
    | false =>
      dsimp only
      rw [if_neg Bool.false_ne_true, if_neg Bool.false_ne_true, lists.isClass]
      split
      · exact simulates_ok ⟨rfl, lists, rfl⟩
      · rename_i isClass
        have firstBounded : first.Bounded := bounded.of_alike alike
        have tagged : TagsHeld tags first.space held := by
          rw [alike.space]
          exact tagged
        have retires : Ensures True (first.retireCurrent pool).outcome _ :=
          follows.sound.retireCurrent_ensures (absurd trivial) (Nat.zero_le _)
            (Bool.eq_false_iff.mpr isClass)
        apply Simulates.bindRun ((follows.sound.retireCurrent_simulates lists firstBounded).known
          retires (ensures_excused _))
        intro (second, pool) (second', pool') ⟨⟨lists, same⟩, ⟨retired, _⟩, _⟩
        cases same
        have secondAlike := retired.spares.list
        have tagged : TagsHeld tags second.space held := by
          rw [secondAlike.space]
          exact tagged
        dsimp only
        rw [lists.nodeWords, lists.granule]
        apply simulates_sameRun
        intro words _
        apply Simulates.bindRun (lists.reserve retired.sound.short
          (retired.sound.untagged_next tagged) words).simulates_of_hard
        intro grown grown' both
        cases both with
        | none => exact simulates_ok ⟨rfl, lists, rfl⟩
        | some lists =>
          apply Simulates.bindRun (lists.expandCurrent _ _).simulates_of_hard
          intro (isDone, last) (isDone', last') ⟨same, lists⟩
          exact simulates_ok ⟨same, lists, rfl⟩

include sound lists bounded in
/-- A new chunk that is made with tags is made without them. -/
theorem newChunk_simulates (tagged : TagsHeld tags list.space held)
    (suits : list.sizes.Suits kind size) (short : size ≤ list.limit → size < Header.sizeLimit) :
    Simulates (AnsweredBeside tags) (list.newChunk size suggested pool).outcome
      (list'.newChunk size suggested pool).outcome := by
  unfold NodeList.newChunk
  apply Simulates.bindRun ((sound.takeCurrent_simulates lists bounded suits short).known
    (sound.takeCurrent_ensures (absurd trivial) suits short (absurd trivial)) (ensures_excused _))
  intro (found, first, firstPool) (found', first', firstPool') ⟨⟨same, taken, samePool⟩, left, _⟩
  cases same
  cases samePool
  cases found with
  | some chunk => exact simulates_ok ⟨rfl, taken, rfl⟩
  | none =>
    obtain ⟨_, rfl, rfl, _⟩ := left
    dsimp only
    rw [if_neg (by simp), if_neg (by simp), taken.mostPadding, taken.granule]
    apply simulates_sameRun
    intro padding _
    apply simulates_sameRun
    intro needed _
    apply simulates_sameRun
    intro least _
    apply simulates_sameRun
    intro wanted _
    have ordered : least ≤ max wanted least := Nat.le_max_right _ _
    apply Simulates.bindRun ((sound.expand_simulates taken bounded tagged).known
      (sound.expand_ensures (absurd trivial) (absurd trivial) ordered (absurd trivial))
      (ensures_excused _))
    intro (isDone, second, pool) (isDone', second', pool') ⟨⟨same, lists, samePool⟩, left, _⟩
    cases same
    cases samePool
    have alike := left.1.spares.list
    cases isDone with
    | false => exact simulates_ok ⟨rfl, lists, rfl⟩
    | true =>
      have goesOn : ¬(!true) = true := by simp
      dsimp only
      rw [if_neg goesOn, if_neg goesOn, lists.isEmpty]
      split
      · exact simulates_ok ⟨rfl, lists, rfl⟩
      · apply Simulates.bindRun (left.1.sound.takeCurrent_simulates lists (bounded.of_alike alike)
          (by rw [alike.sizes]; exact suits) (by rw [alike.limit]; exact short))
        intro (found, last, pool) (found', last', pool') together
        apply simulates_noteIf
        exact simulates_ok together

end Arena.Sound

/-- Two arenas with the same pool, whose lists differ in the tags alone. -/
structure Arena.Tagged (tags : Location → Bool) (arena arena' : Arena) : Prop where
  /-- The lists differ in the tags alone. -/
  list : arena.list.Tagged tags arena'.list
  /-- The pool is the same. -/
  pool : arena'.pool = arena.pool

/-- A chunk that an arena provides with tags is provided without them. -/
theorem Arena.Sound.provide_simulates {arena arena' : Arena} {size suggested : Nat}
    (sound : Arena.Sound uses arena held) (arenas : arena.Tagged tags arena')
    (bounded : arena.list.Bounded) (tagged : TagsHeld tags arena.list.space held)
    (suits : arena.list.sizes.Suits kind size)
    (short : size ≤ arena.list.limit → size < Header.sizeLimit) :
    Simulates (fun (found, arena) (found', arena') => found' = found ∧ arena.Tagged tags arena')
      (arena.provide size suggested).outcome (arena'.provide size suggested).outcome := by
  unfold Arena.provide
  rw [arenas.pool]
  apply Simulates.bindRun (sound.take_simulates arenas.list suits)
  intro taken taken' both
  cases both with
  | some both => exact simulates_ok ⟨congrArg some both.2.2, both.2.1, both.1⟩
  | none =>
    apply Simulates.bindRun (sound.newChunk_simulates arenas.list bounded tagged suits short)
    intro (found, list, pool) (found', list', pool') ⟨same, lists, samePool⟩
    exact simulates_ok ⟨same, lists, samePool⟩

/-- Nodes are given up with tags exactly as without them. -/
theorem NodeList.purgeNodes_tagged {nodes nodes' : List Node}
    (each : List.Forall₂ (Node.Tagged tags) nodes nodes') (keep : Option NodeId) (pool : Pool) :
    Simulates
      (fun (kept, pool, purged) (kept', pool', purged') =>
        List.Forall₂ (Node.Tagged tags) kept kept' ∧ pool' = pool ∧ purged' = purged)
      (NodeList.purgeNodes keep pool nodes).outcome
      (NodeList.purgeNodes keep pool nodes').outcome := by
  induction each generalizing pool with
  | nil => exact simulates_ok ⟨List.Forall₂.nil, rfl, rfl⟩
  | cons head rest ih =>
    unfold NodeList.purgeNodes
    rw [head.id, head.chunksInUse]
    split
    · apply simulates_note
      apply simulates_sameRun
      rintro ⟨dropped, count⟩ _
      apply Simulates.bindRun (ih dropped)
      rintro ⟨kept, pool, purged⟩ ⟨kept', pool', purged'⟩ ⟨each, samePool, same⟩
      exact simulates_ok ⟨each, samePool, congrArg (· + 1) same⟩
    · apply Simulates.bindRun (ih pool)
      rintro ⟨kept, pool, purged⟩ ⟨kept', pool', purged'⟩ ⟨each, samePool, same⟩
      exact simulates_ok ⟨List.Forall₂.cons head each, samePool, same⟩

/-- An arena is purged with tags exactly as without them. -/
theorem Arena.Tagged.purge {arena arena' : Arena} (arenas : arena.Tagged tags arena') :
    Simulates (fun (list, pool, purged) (list', pool', purged') =>
        list.Tagged tags list' ∧ pool' = pool ∧ purged' = purged)
      (arena.list.purge arena.pool).outcome (arena'.list.purge arena'.pool).outcome := by
  have lists := arenas.list
  have keep : arena'.list.current?.map Node.id = arena.list.current?.map Node.id := by
    obtain ⟨found, found'⟩ | ⟨_, _, found, found', nodes⟩ := cases_of_rel lists.current?
    · rw [found, found']
    · rw [found, found']
      exact congrArg some nodes.id
  unfold NodeList.purge
  rw [keep, arenas.pool]
  apply Simulates.bindRun (NodeList.purgeNodes_tagged lists.nodes _ _)
  intro (kept, pool, purged) (kept', pool', purged') ⟨each, samePool, same⟩
  exact simulates_ok ⟨{ lists with nodes := each }, samePool, same⟩

end CollectorMemory
