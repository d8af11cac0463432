import CollectorMemory.Proofs.NodeList.Numbers
import CollectorMemory.Proofs.Session.Sound

/-!
# Nodes for one chunk each

A new node for a chunk that is larger than nodes usually are may have the words of that chunk alone
(`Allocator.Narrow`). Users who allocate such chunks and keep all of them use up the number of a node
for each chunk, besides that of the first node, which has no room for any of them. All words that the
nodes reserve were bought with numbers, so more numbers are given out than chunks
(`Session.Hoarded.lt_nextIndex`), and a run that asks for too many chunks does not get to its end.
-/

namespace CollectorMemory

variable {allocator after : Allocator} {space : Space} {kind : Kind} {kept : List Chunk}
  {list list' : NodeList} {size suggested words count more : Nat} {session : Session}

/-- A node that is reserved for a chunk has the words that the chunk needs at least. -/
theorem NodeList.leastGrowth_le_nodeGrowth (positive : 0 < list.granule) :
    list.leastGrowth kind size ≤ list.nodeGrowth kind size suggested := by
  have preferred : list.leastGrowth kind size ≤ list.preferredGrowth kind size suggested :=
    Nat.le_max_right _ _
  have largest : list.preferredGrowth kind size suggested ≤
      max list.nodeWords (list.preferredGrowth kind size suggested) := Nat.le_max_right _ _
  exact Nat.le_trans preferred (Nat.le_trans largest (Count.nextMultiple_bounds _ positive).1)

/-- Where a list reserves fewer words than its numbers are worth, it does so after it grew by nodes that
are worth no more. -/
theorem NodeList.Buys.total_lt (buys : list.Buys words list') (le : words ≤ size)
    (older : list.nextIndex ≤ list'.nextIndex) (less : list.total < size * list.nextIndex) :
    list'.total < size * list'.nextIndex := by
  obtain ⟨added, isNext⟩ := Nat.exists_eq_add_of_le older
  have worth : words * added ≤ size * added := Nat.mul_le_mul_right added le
  unfold NodeList.Buys at buys
  rw [isNext, Nat.mul_add] at buys ⊢
  omega

/-- A space outside of the class space that grows by nodes of no more words than a request asks for, and
that may reserve one for every number. -/
structure Allocator.Narrow (space : Space) (kind : Kind) (size : Nat) (allocator : Allocator) :
    Prop where
  /-- The request is for a chunk of the kind. -/
  suits : (allocator.sizes space).Suits kind size
  /-- The size fits a header. -/
  short : size < Header.sizeLimit
  /-- The space can have several nodes. -/
  notClass : (allocator.arena space).list.isClass = false
  /-- A new node has no room for two such chunks. -/
  growth_le : allocator.nodeGrowth space kind size ≤ size
  /-- The limit allows a node for every number. -/
  limit : size * 2 ^ 32 ≤ (allocator.arena space).list.limit

/-- A space stays narrow where the dimensions stay. -/
theorem Allocator.Narrow.of_spares (narrow : allocator.Narrow space kind size)
    (spares : Allocator.Spares kept allocator after) : after.Narrow space kind size := by
  have alike := spares.lists space
  have growth : after.nodeGrowth space kind size = allocator.nodeGrowth space kind size := by
    unfold Allocator.nodeGrowth NodeList.nodeGrowth NodeList.preferredGrowth
    rw [alike.leastGrowth_eq, alike.nodeWords, alike.granule, spares.options]
  refine ⟨?_, narrow.short, ?_, ?_, ?_⟩
  · unfold Allocator.sizes
    rw [alike.sizes]
    exact narrow.suits
  · unfold NodeList.isClass
    rw [alike.space]
    exact narrow.notClass
  · rw [growth]
    exact narrow.growth_le
  · rw [alike.limit]
    exact narrow.limit

namespace Session

/-- A session whose users keep a number of chunks of a size in a narrow space, where every number is
worth as many words as such a chunk. -/
structure Hoarded (space : Space) (kind : Kind) (size count : Nat) (session : Session) : Prop where
  /-- The session is sound after as many allocations. -/
  sound : session.Sound count
  /-- The space is narrow. -/
  narrow : session.allocator.Narrow space kind size
  /-- Users hold the chunks. -/
  words : count * size ≤ wordsOf (inSpace space session.chunks)
  /-- The nodes reserve fewer words than the numbers are worth. -/
  bought : (session.allocator.arena space).list.total <
    size * (session.allocator.arena space).list.nextIndex
  /-- Numbers are counted in half a word. -/
  counted : (session.allocator.arena space).list.nextIndex < 2 ^ 32

namespace Hoarded

/-- More numbers are given out than users hold chunks. -/
theorem lt_nextIndex (hoarded : session.Hoarded space kind size count) :
    count < (session.allocator.arena space).list.nextIndex := by
  have wordsLe : _ + wordsOf (inSpace space session.chunks) ≤
      (session.allocator.arena space).list.total :=
    (hoarded.sound.allocator.arena space).words_le
  have worth : size * count < size * (session.allocator.arena space).list.nextIndex := by
    have words := hoarded.words
    have bought := hoarded.bought
    rw [Nat.mul_comm]
    omega
  exact Nat.lt_of_mul_lt_mul_left worth

/-- The limit allows one more node. -/
theorem not_stuck (hoarded : session.Hoarded space kind size count) :
    ¬session.allocator.Stuck space kind size := by
  have arenaSound := hoarded.sound.allocator.arena space
  have growthLe := hoarded.narrow.growth_le
  have leastLe : (session.allocator.arena space).list.leastGrowth kind size ≤
      session.allocator.nodeGrowth space kind size :=
    NodeList.leastGrowth_le_nodeGrowth arenaSound.granule_pos
  have inside : (session.allocator.arena space).list.total + size ≤
      (session.allocator.arena space).list.limit := by
    have one : size * ((session.allocator.arena space).list.nextIndex + 1) ≤ size * 2 ^ 32 :=
      Nat.mul_le_mul_left size hoarded.counted
    have limit := hoarded.narrow.limit
    have bought := hoarded.bought
    rw [Nat.mul_succ] at one
    omega
  have committedLe : ((session.allocator.arena space).list.nodes.toList.map Node.committed).sum ≤
      (session.allocator.arena space).list.total := arenaSound.committed_le
  intro stuck
  rcases stuck.full.exhausted with fewer | ⟨_, isClass | beyond⟩
  · omega
  · rw [hoarded.narrow.notClass] at isClass
    exact Bool.false_ne_true isClass
  · change _ < _ + session.allocator.nodeGrowth space kind size at beyond
    omega

/-- One more chunk is bought with a number, if there is one left. -/
theorem perform (hoarded : session.Hoarded space kind size count) :
    Ensures True (session.perform (.allocate space size)) (Hoarded space kind size (count + 1)) := by
  unfold Session.perform
  refine Ensures.bind ((hoarded.sound.allocator.allocate_ensures (absurd trivial) (absurd trivial)
    (absurd trivial) (absurd trivial) (fun _ => hoarded.narrow.short) (absurd trivial)).and
      Allocator.allocate_continues) ?_
  rintro ⟨failure | chunk, after⟩ ⟨⟨spares, other, otherSuits, result⟩, continues⟩
  · have same := otherSuits.kind_eq hoarded.narrow.suits
    subst same
    exact absurd result.2.1 hoarded.not_stuck
  · have same := otherSuits.kind_eq hoarded.narrow.suits
    subst same
    obtain ⟨afterSound, answers, isSpace, _, _, buys⟩ := result
    refine ⟨hoarded.sound.add afterSound spares, hoarded.narrow.of_spares spares, ?_,
      buys.total_lt hoarded.narrow.growth_le (continues space).nextIndex hoarded.bought,
      (continues space).counted hoarded.counted⟩
    have there : inSpace space [chunk] = [chunk] := by simp [inSpace, isSpace]
    have words := hoarded.words
    have sizeLe := answers.size_le
    change _ ≤ wordsOf (inSpace space ((session.held ++ [Holding.fresh chunk]).map Holding.chunk))
    unfold inSpace at there ⊢
    rw [List.map_append, List.filter_append, wordsOf_append]
    change _ ≤ wordsOf (inSpace space session.chunks) +
      wordsOf ([chunk].filter fun chunk => chunk.container.space == space)
    rw [there, wordsOf_cons, wordsOf_nil, Nat.succ_mul]
    omega

/-- Several more chunks are bought with numbers, if there are so many left. -/
theorem run (hoarded : session.Hoarded space kind size count) (more : Nat) :
    Ensures True (session.run (List.replicate more (.allocate space size)))
      (Hoarded space kind size (count + more)) := by
  unfold Session.run
  induction more generalizing session count with
  | zero => exact hoarded
  | succ more ih =>
    rw [List.replicate_succ, List.foldlM_cons, Nat.add_comm more, ← Nat.add_assoc]
    refine Ensures.bind hoarded.perform ?_
    exact fun next nextHoarded => ih nextHoarded

/-- A run that asks for too many chunks does not get to its end. -/
theorem run_stops (hoarded : session.Hoarded space kind size count)
    (many : 2 ^ 32 ≤ count + more + 1) :
    ∃ fault, session.run (List.replicate more (.allocate space size)) = .error fault := by
  cases done : session.run (List.replicate more (.allocate space size)) with
  | error fault => exact ⟨fault, rfl⟩
  | ok reached =>
    have reachedHoarded := (hoarded.run more).of_ok done
    have counted := reachedHoarded.counted
    have given := reachedHoarded.lt_nextIndex
    omega

end Hoarded

end Session

end CollectorMemory
