import CollectorMemory.Proofs.Session.Sound

/-!
# Lookup in the free pool

Whatever the free chunks and the nodes of an arena are, a request finds one of them exactly if the pool
holds one that serves it. It gets the free chunk that `Pool.Picks` describes, and nothing changes but
the node words of that chunk, or of the larger one that is split for it, and the lists of the pool. A
request that finds nothing goes on to the nodes with the arena as it was.
-/

namespace CollectorMemory

variable {uses size : Nat} {arena : Arena} {held : List Chunk} {kind : Kind}

/-- A request that the pool does not serve is made to the nodes, with the arena as it was. -/
theorem Arena.provide_of_take_none
    (nothing : (arena.pool.take arena.list size).outcome = .ok none) (suggested : Nat) :
    (arena.provide size suggested).outcome =
      (arena.list.newChunk size suggested arena.pool).outcome.map fun (found, list, pool) =>
        (found, ⟨list, pool⟩) := by
  unfold provide
  rw [Run.outcome_bind, nothing]
  change (arena.list.newChunk size suggested arena.pool >>= _).outcome = _
  rw [Run.outcome_bind]
  cases (arena.list.newChunk size suggested arena.pool).outcome <;> rfl

/-- A lookup in the free pool never stops. It finds nothing exactly if no free chunk serves the request,
and the arena stays as it is then. Otherwise it finds the chunk that the request picks, which is put in
use, the words of the pool are those of the chunk less, and outside of the chunk that was there, whole
or to be split, the node of the chunk stays the same. -/
theorem Arena.Stocked.take_picks (stocked : Arena.Stocked uses arena held)
    (isKind : arena.list.sizes.kindOfSize size = .ok kind) :
    ∃ result, (arena.pool.take arena.list size).outcome = .ok result ∧
      (result = none ↔ ∀ chunk ∈ arena.pool.chunks, ¬chunk.block.Serves kind size) ∧
      (result = none → ∀ suggested, (arena.provide size suggested).outcome =
        (arena.list.newChunk size suggested arena.pool).outcome.map fun (found, list, pool) =>
          (found, ⟨list, pool⟩)) ∧
      ∀ pool' list' chunk, result = some (pool', list', chunk) → ∃ area free,
        arena.pool.Picks kind size area free pool'.chunks ∧ chunk = free.withFree false ∧
          chunk.Answers kind size ∧ pool'.words + chunk.size = arena.pool.words ∧
          Arena.Stocked uses ⟨list', pool'⟩ (chunk :: held) ∧
          ∃ node node', arena.list.node? chunk.container = some node ∧
            list' = arena.list.withNode node' ∧ node.Alike node' ∧
            ∀ offset, offset < area.bottom ∨ area.stop ≤ offset → node.SameAt node' offset := by
  have suits := ChunkSizes.kindOfSize_eq_ok_iff.mp isKind
  obtain ⟨result, done, post⟩ :=
    (show Ensures False _ _ from stocked.take_ensures suits).exists_ok
  refine ⟨result, done, ?_, ?_, ?_⟩
  · cases result with
    | none => exact ⟨fun _ => post, fun _ => rfl⟩
    | some found =>
      obtain ⟨_, _, _, _, _, _, _, _, _, _, _, taken⟩ := post
      obtain ⟨chunk, member, serves⟩ := taken.picks.serves
      exact ⟨fun isNone => absurd isNone (Option.some_ne_none _),
        fun noneServes => absurd serves (noneServes chunk member)⟩
  · rintro rfl suggested
    exact provide_of_take_none done suggested
  · rintro pool' list' chunk rfl
    obtain ⟨front, node, back, node', split, rfl, row, after, area, free, rfl, taken⟩ := post
    have answers := taken.answers
    have alike := taken.steady.nodeAlike
    refine ⟨area, free, taken.picks, rfl, ⟨answers.kind, answers.size_le, answers.empty⟩, ?_, ?_,
      node, node', ?_, ?_, alike, taken.same⟩
    · rw [taken.stock.poolSound.words, taken.before.poolSound.words]
      exact taken.picks.words
    · exact stocked.update split alike.id alike.sizes taken.steady.poolAlike taken.steady.elsewhere
        (List.Perm.of_eq (outside_cons_self taken.container)) taken.stock
    · change arena.list.node? free.container = some node
      rw [taken.container]
      exact stocked.ordered.node?_eq split
    · exact (stocked.ordered.withNode_eq split alike.id).symm

namespace Session

/-- A medium chunk that was put back is split for a specialized one, and a specialized and a small piece
are left. -/
theorem sample_take_picks : ∃ opened reached : Session, ofOptions Options.smallest = .ok opened ∧
    opened.run [.allocate .nonClass 12, .allocate .nonClass 12, .putBack 0] = .ok reached ∧
    reached.allocator.nonClass.list.sizes.kindOfSize 3 = .ok .specialized ∧
    ∃ pool' list' chunk area free, (reached.allocator.nonClass.pool.take
        reached.allocator.nonClass.list 3).outcome = .ok (some (pool', list', chunk)) ∧
      pool'.chunks.map Chunk.size = [3, 6] ∧ chunk = free.withFree false ∧
      reached.allocator.nonClass.pool.Picks .specialized 3 area free pool'.chunks := by
  have evaluated : (ofOptions Options.smallest >>= fun session =>
      session.run [.allocate .nonClass 12, .allocate .nonClass 12, .putBack 0]).toOption.map
        (fun reached =>
          ((reached.allocator.nonClass.list.sizes.kindOfSize 3).toOption,
            (reached.allocator.nonClass.pool.take
              reached.allocator.nonClass.list 3).outcome.toOption.map fun result =>
                result.map fun taken => taken.1.chunks.map Chunk.size)) =
      some (some .specialized, some (some [3, 6])) := by decide +kernel
  obtain ⟨opened, reached, made, done, view⟩ := exists_reached evaluated
  have words := Options.smallest_wordsBelow
  obtain ⟨sound, _, _⟩ := reached_sound made done (words.chunkWords (by decide)) (Or.inr words)
  obtain ⟨kindView, takeView⟩ := Prod.mk.inj view
  have isKind := eq_ok_of_toOption kindView
  obtain ⟨result, isResult, found⟩ := Option.map_eq_some_iff.mp takeView
  obtain ⟨⟨pool', list', chunk⟩, rfl, sizes⟩ := Option.map_eq_some_iff.mp found
  have isOutcome := eq_ok_of_toOption isResult
  obtain ⟨_, isTaken, _, _, picked⟩ :=
    (sound.allocator.arena .nonClass).stocked.take_picks isKind
  obtain ⟨area, free, picks, isFree, _⟩ :=
    picked pool' list' chunk (Except.ok.inj (isTaken.symm.trans isOutcome))
  exact ⟨opened, reached, made, done, isKind, pool', list', chunk, area, free, isOutcome, sizes,
    isFree, picks⟩

end Session

end CollectorMemory
