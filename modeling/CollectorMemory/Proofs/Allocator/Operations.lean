import CollectorMemory.Proofs.Allocator.Sound
import CollectorMemory.Proofs.Chunk.Handle

/-!
# Operations of a sound allocator

Allocating, putting back and purging keep an allocator sound and spare the chunks that are held, and
the check of a sound allocator passes. Where there is no excuse, sizes and dimensions are small, and
what is counted in half a word, the uses of a chunk and the nodes of a space, is not used up.
-/

namespace CollectorMemory.Allocator

variable {excuse : Prop} {uses size : Nat} {allocator : Allocator} {space : Space}
  {held : List Chunk} {chunk : Chunk} {kind : Kind}

/-- Nothing in a space serves a request. -/
def Stuck (allocator : Allocator) (space : Space) (kind : Kind) (size : Nat) : Prop :=
  (allocator.arena space).Stuck kind size allocator.options.commitGranuleWords

/-- Only a new node of a space serves a request. -/
def Opens (allocator : Allocator) (space : Space) (kind : Kind) (size : Nat) : Prop :=
  (allocator.arena space).Opens kind size allocator.options.commitGranuleWords

/-- The number of words of a node that is reserved for a request. -/
def nodeGrowth (allocator : Allocator) (space : Space) (kind : Kind) (size : Nat) : Nat :=
  (allocator.arena space).list.nodeGrowth kind size allocator.options.commitGranuleWords

/-- A request that a new node serves is not stuck. -/
theorem Opens.not_stuck (opens : allocator.Opens space kind size) :
    ¬allocator.Stuck space kind size :=
  fun stuck => opens.list.grows stuck.full.exhausted

/-- An allocator in which at most the current node of a space was given up for some words. -/
def GivenUp (uses : Nat) (held : List Chunk) (space : Space) (words : Nat)
    (allocator after : Allocator) : Prop :=
  ∃ arena', after = allocator.withArena space arena' ∧
    Arena.GivenUp uses (inSpace space held) words (allocator.arena space) arena'

/-- A chunk that an arena handed out is of its space, and the allocator is sound with it after its use
was counted. -/
theorem Sound.withProvided {arena' : Arena} (sound : allocator.Sound uses held)
    (follows : Arena.Follows uses 1 (inSpace space held) (chunk :: inSpace space held)
      (allocator.arena space) arena') :
    chunk.container.space = space ∧ chunk.useCount ≤ uses ∧
      (allocator.withArena space arena').Sound (uses + 1)
        ({ chunk with useCount := chunk.useCount + 1 } :: held) := by
  have soundAfter := follows.sound
  obtain ⟨front, node, back, row, split, owned, _, usesLe, _⟩ :=
    soundAfter.exists_node (show chunk ∈ chunk :: inSpace space held from List.mem_cons_self)
  have inList : node ∈ arena'.list.nodes.toList := by
    rw [split]
    exact List.mem_append_right front List.mem_cons_self
  have container : chunk.container.space = space := by
    rw [owned.container, soundAfter.ordered.space node inList, follows.spares.list.space]
    exact sound.space space
  refine ⟨container, usesLe, ?_⟩
  have counted := (soundAfter.mono (Nat.le_succ uses)).rehold owned.sound.payload_le
    owned.sound.top_le (Nat.add_le_add_right usesLe 1)
  have here : inSpace space ({ chunk with useCount := chunk.useCount + 1 } :: held) =
      { chunk with useCount := chunk.useCount + 1 } :: inSpace space held := by
    simp [inSpace, container]
  apply sound.withArena (Nat.le_refl _) { follows with sound := by rw [here]; exact counted }
  intro other differs
  apply inSpace_cons_of_ne
  change chunk.container.space ≠ other
  rw [container]
  exact differs.symm

/-- A chunk that was allocated answers the request, is of its space and counts its uses, and the
allocator is sound with it. The request fails exactly if nothing in the space serves it, and then the
current node was given up at most. -/
theorem Sound.allocate_ensures (sound : allocator.Sound uses held)
    (bounded : ¬excuse → allocator.Bounded)
    (few : ¬excuse → (∀ kind, (allocator.sizes space).Suits kind size →
      ¬allocator.Stuck space kind size) → uses + 1 < 2 ^ 32)
    (numbers : ¬excuse → ∀ kind, (allocator.sizes space).Suits kind size →
      allocator.Opens space kind size → (allocator.arena space).list.nextIndex + 1 < 2 ^ 32)
    (valid : ¬excuse → (allocator.sizes space).isChunkSize size)
    (short : size ≤ (allocator.arena space).list.limit → size < Header.sizeLimit)
    (small : ¬excuse → size < 2 ^ 56) :
    Ensures excuse (allocator.allocate space size).outcome fun (result, after) =>
      Spares held allocator after ∧ ∃ kind, (allocator.sizes space).Suits kind size ∧
      match result with
      | .ok chunk => after.Sound (uses + 1) (chunk :: held) ∧ chunk.Answers kind size ∧
          chunk.container.space = space ∧ 0 < chunk.useCount ∧ ¬allocator.Stuck space kind size ∧
          (allocator.arena space).list.Buys (allocator.nodeGrowth space kind size)
            (after.arena space).list
      | .error _ => after.Sound (uses + 1) held ∧ allocator.Stuck space kind size ∧
          GivenUp uses held space size allocator after := by
  have arenaSound := sound.arena space
  unfold allocate
  refine Ensures.bindRun (ensures_require valid) ?_
  intro _ fits
  obtain ⟨kind, suits⟩ := ChunkSizes.exists_suits_of_isChunkSize fits
  have fewServed : ¬excuse → ¬allocator.Stuck space kind size → uses + 1 < 2 ^ 32 := by
    intro hard notStuck
    apply few hard
    intro other otherSuits
    rw [otherSuits.kind_eq suits]
    exact notStuck
  refine Ensures.bindRun (arenaSound.provide_ensures (fun hard => (bounded hard).lists space)
    (fun hard opens => numbers hard kind suits opens) suits short
    (fun hard => ⟨small hard, (bounded hard).granule⟩)) ?_
  rintro ⟨found, arena'⟩ ⟨follows, served⟩
  cases found with
  | none =>
    refine ensures_note ?_
    exact ⟨Spares.withArena follows.spares, kind, suits,
      sound.withArena (Nat.le_refl _) (follows.used (Nat.le_succ uses)) fun _ _ => rfl,
      served.1, arena', rfl, served.2⟩
  | some chunk =>
    obtain ⟨isSpace, usesLe, soundAfter⟩ := sound.withProvided follows
    refine Ensures.bindRun (Chunk.addUse_ensures fun hard => by
      have := fewServed hard served.2.1
      omega) ?_
    rintro counted rfl
    refine ensures_note ?_
    have answers : Chunk.Answers kind size { chunk with useCount := chunk.useCount + 1 } :=
      ⟨served.1.kind, served.1.size_le, served.1.empty⟩
    refine ⟨Spares.withArena follows.spares, kind, suits, soundAfter, answers, isSpace,
      Nat.succ_pos chunk.useCount, served.2.1, ?_⟩
    rw [arena_withArena_self]
    exact served.2.2

/-- An allocation that is answered fails exactly if nothing in the space serves the request. -/
theorem Sound.fails_iff_stuck {result : Except AllocationFailure Chunk} {after : Allocator}
    (sound : allocator.Sound uses held)
    (short : size ≤ (allocator.arena space).list.limit → size < Header.sizeLimit)
    (answered : (allocator.allocate space size).outcome = .ok (result, after)) :
    ∃ kind, (allocator.sizes space).Suits kind size ∧
      ((∃ failure, result = .error failure) ↔ allocator.Stuck space kind size) := by
  obtain ⟨_, kind, suits, ends⟩ := (sound.allocate_ensures (absurd trivial) (absurd trivial)
    (absurd trivial) (absurd trivial) short (absurd trivial)).of_ok answered
  refine ⟨kind, suits, ?_⟩
  cases result with
  | error failure => exact ⟨fun _ => ends.2.1, fun _ => ⟨failure, rfl⟩⟩
  | ok chunk =>
    obtain ⟨_, _, _, _, notStuck, _⟩ := ends
    refine ⟨?_, fun stuck => absurd stuck notStuck⟩
    rintro ⟨_, isError⟩
    cases isError

/-- A request that nothing in the space serves is answered, with a failure. -/
theorem Sound.fails_of_stuck (sound : allocator.Sound uses held) (bounded : allocator.Bounded)
    (suits : (allocator.sizes space).Suits kind size) (small : size < Header.sizeLimit)
    (stuck : allocator.Stuck space kind size) :
    ∃ failure after, (allocator.allocate space size).outcome = .ok (.error failure, after) := by
  -- No use is counted and no number given out, so that there need not be one left.
  have notServed : ¬∀ kind, (allocator.sizes space).Suits kind size →
      ¬allocator.Stuck space kind size := fun served => served kind suits stuck
  have ensured : Ensures False (allocator.allocate space size).outcome
      fun (result, _) => ∃ failure, result = .error failure := by
    apply (sound.allocate_ensures (fun _ => bounded) (fun _ served => absurd served notServed)
      (fun _ other otherSuits opens => absurd stuck (otherSuits.kind_eq suits ▸ opens.not_stuck))
      (fun _ => suits.isChunkSize) (fun _ => small) (fun _ => small)).mono
    rintro ⟨failure | chunk, after⟩ ⟨_, other, otherSuits, result⟩
    · exact ⟨failure, rfl⟩
    · have same := otherSuits.kind_eq suits
      subst same
      obtain ⟨_, _, _, _, notStuck, _⟩ := result
      exact absurd stuck notStuck
  obtain ⟨⟨_, after⟩, isOutcome, failure, rfl⟩ := ensured.exists_ok
  exact ⟨failure, after, isOutcome⟩

/-- Putting a chunk back settles the stock of its node in its arena. -/
theorem putBack_ensures_of_settled {node : Node} {loose : List Chunk} {row : List Block}
    (found : (allocator.arena chunk.container.space).list.node? chunk.container = some node)
    (settled : Settled uses (allocator.arena chunk.container.space).pool node (chunk :: loose) row)
    (room : Room excuse (allocator.arena chunk.container.space).pool node)
    (container : chunk.container = node.id) :
    Ensures excuse (allocator.putBack chunk).outcome fun after => ∃ pool' node' row',
      after = allocator.withArena chunk.container.space
        ⟨(allocator.arena chunk.container.space).list.withNode node', pool'⟩ ∧
      Settled uses pool' node' loose row' ∧
      Steady loose (allocator.arena chunk.container.space).pool node pool' node' ∧
      node'.top = node.top ∧ Coarser row row' node.top := by
  unfold putBack
  dsimp only
  rw [found]
  refine Ensures.bindRun (settled.putBack_ensures room container) ?_
  intro (pool', node') ⟨row', settledAfter, steady, top, coarser⟩
  exact ⟨pool', node', row', rfl, settledAfter, steady, top, coarser⟩

/-- A chunk that was put back is not held any more, and the allocator is sound without it. -/
theorem Sound.putBack_ensures (sound : allocator.Sound uses (chunk :: held))
    (bounded : ¬excuse → allocator.Bounded) :
    Ensures excuse (allocator.putBack chunk).outcome fun after =>
      after.Sound uses held ∧ Spares held allocator after := by
  have arenaSound := sound.arena chunk.container.space
  rw [inSpace_cons_self] at arenaSound
  obtain ⟨front, node, back, row, split, owned, _, _, settled, _⟩ :=
    arenaSound.exists_node List.mem_cons_self
  have inList : node ∈ (allocator.arena chunk.container.space).list.nodes.toList := by
    rw [split]
    exact List.mem_append_right front List.mem_cons_self
  have found := arenaSound.ordered.node?_eq split
  rw [← owned.container] at found
  apply (putBack_ensures_of_settled found settled
    (arenaSound.room (fun hard => (bounded hard).lists _) inList) owned.container).mono
  rintro after ⟨pool', node', row', rfl, settledAfter, steady, _⟩
  have follows := arenaSound.withNode inList steady settledAfter
    (by rw [outside_cons_self owned.container])
  exact ⟨sound.withArena (Nat.le_refl uses) follows fun other differs =>
    (inSpace_cons_of_ne differs.symm).symm, Spares.withArena follows.spares⟩

/-- Purging a space keeps the allocator sound and gives up exactly what is idle there. -/
theorem Sound.purge_ensures (sound : allocator.Sound uses held) :
    Ensures excuse (allocator.purge space).outcome fun (purged, after) =>
      after.Sound uses held ∧ Spares held allocator after ∧ ∃ arena',
        after = allocator.withArena space arena' ∧
          Arena.Purged (inSpace space held) (allocator.arena space) purged arena' := by
  unfold purge
  refine Ensures.bindRun (sound.arena space).purge_ensures ?_
  rintro ⟨list', pool', purged⟩ ⟨follows, exactly⟩
  refine ensures_noteIf ?_
  exact ⟨sound.withArena (Nat.le_refl uses) follows fun _ _ => rfl, Spares.withArena follows.spares,
    ⟨list', pool'⟩, rfl, exactly⟩

/-- The check of a sound allocator passes. -/
theorem Sound.audit_ensures (sound : allocator.Sound uses held)
    (bounded : ¬excuse → allocator.Bounded) : Ensures excuse allocator.audit fun _ => True := by
  have counted : ∀ space, ¬excuse → (allocator.arena space).list.limit < wordLimit := by
    intro space hard
    have limit := ((bounded hard).lists space).limit
    unfold wordLimit
    omega
  unfold audit
  apply Ensures.bind ((sound.arena .nonClass).audit_ensures (counted .nonClass))
  intro _ _
  exact (sound.arena .classOnly).audit_ensures (counted .classOnly)

end CollectorMemory.Allocator
