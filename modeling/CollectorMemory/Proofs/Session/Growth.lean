import CollectorMemory.Proofs.Session.Refusal

/-!
# Growth within the limits

In every session that a run reaches, the nodes of a space keep to the limit, and what is carved,
committed and reserved of a node are multiples of the specialized size, in this order. Where a list
grows for a chunk that the current node has no room for, the chunk can be carved then, however the
sizes, the granule and the limit divide each other. Where it cannot grow, as many words are reserved
and committed as before.
-/

namespace CollectorMemory

variable {uses size suggested : Nat} {held : List Chunk} {arena : Arena} {kind : Kind}

namespace NodeList

variable {list list' : NodeList} {pool pool' : Pool} {chunk : Chunk}

/-- A chunk that the current node has room for is the new chunk. -/
theorem newChunk_of_room
    (taken : (list.takeCurrent size pool).outcome = .ok (some chunk, list', pool')) :
    (list.newChunk size suggested pool).outcome = .ok (some chunk, list', pool') := by
  unfold newChunk
  rw [Run.outcome_bind, taken]
  rfl

/-- Carving from a list that has grown is carving from its current node. -/
theorem takeGrown_outcome :
    (list.takeGrown size pool).outcome = (list.takeCurrent size pool).outcome := by
  unfold takeGrown
  split
  · next nothing =>
    unfold takeCurrent current?
    rw [Array.isEmpty_iff.mp nothing]
    rfl
  · rw [Run.outcome_bind]
    cases (list.takeCurrent size pool).outcome with
    | error fault => rfl
    | ok found =>
      change (Run.noteIf _ _ >>= _).outcome = _
      rw [Run.outcome_bind, Run.outcome_noteIf]
      rfl

/-- Where the current node has no room for a chunk, a new chunk is what can be carved after growth. -/
theorem newChunk_of_no_room (suits : list.sizes.Suits kind size) (positive : 0 < list.granule)
    (granule : list.granule < 2 ^ 55) (small : size < 2 ^ 55) (suggestedSmall : suggested < 2 ^ 55)
    (noRoom : (list.takeCurrent size pool).outcome = .ok (none, list, pool)) :
    (list.newChunk size suggested pool).outcome =
      (list.expand (list.leastGrowth kind size) (list.preferredGrowth kind size suggested)
          pool).outcome >>= fun (isDone, list, pool) =>
        if isDone then (list.takeCurrent size pool).outcome else .ok (none, list, pool) := by
  have isPadding : list.mostPadding size = .ok (list.sizes.mostPadding kind size) :=
    Ensures.eq_ok (mostPadding_ensures suits) fun _ known => known.1
  have paddingLe : list.sizes.mostPadding kind size ≤ size := by
    unfold ChunkSizes.mostPadding
    split <;> omega
  have isNeeded : Count.add size (list.sizes.mostPadding kind size) = .ok _ :=
    Ensures.eq_ok (Count.add_ensures fun _ => by unfold wordLimit; omega) fun _ known => known.1
  have isLeast : Count.roundUp (size + list.sizes.mostPadding kind size) list.granule =
      .ok (list.leastGrowth kind size) :=
    Ensures.eq_ok (Count.roundUp_ensures (fun _ => positive) fun _ => by unfold wordLimit; omega)
      fun _ known => known.2.2.2.2.2
  have isWanted : Count.roundUp suggested list.granule =
      .ok (Count.nextMultiple suggested list.granule) :=
    Ensures.eq_ok (Count.roundUp_ensures (fun _ => positive) fun _ => by unfold wordLimit; omega)
      fun _ known => known.2.2.2.2.2
  unfold newChunk
  rw [Run.outcome_bind, noRoom]
  change (liftM (list.mostPadding size) >>= _ : Run _).outcome = _
  rw [Run.outcome_bind, Run.outcome_liftM, isPadding]
  change (liftM (Count.add size _) >>= _ : Run _).outcome = _
  rw [Run.outcome_bind, Run.outcome_liftM, isNeeded]
  change (liftM (Count.roundUp _ _) >>= _ : Run _).outcome = _
  rw [Run.outcome_bind, Run.outcome_liftM, isLeast]
  change (liftM (Count.roundUp _ _) >>= _ : Run _).outcome = _
  rw [Run.outcome_bind, Run.outcome_liftM, isWanted]
  change (list.expand (list.leastGrowth kind size) (list.preferredGrowth kind size suggested) pool >>=
    _).outcome = _
  rw [Run.outcome_bind]
  congr 1
  funext ⟨isDone, grown, grownPool⟩
  cases isDone with
  | false => rfl
  | true => exact takeGrown_outcome

end NodeList

/-- An arena whose nodes keep to the limits. -/
structure Arena.InLimits (arena : Arena) : Prop where
  /-- All nodes together reserve no more words than the list may. -/
  reserved : ∃ total, arena.list.reservedWords = .ok total ∧ total ≤ arena.list.limit
  /-- A class space has one node at most. -/
  single : arena.list.isClass = true → arena.list.nodes.toList.length ≤ 1
  /-- What is carved is committed. -/
  top_le : ∀ node ∈ arena.list.nodes.toList, node.top ≤ node.committed
  /-- What is committed is reserved. -/
  committed_le : ∀ node ∈ arena.list.nodes.toList, node.committed ≤ node.reserved
  /-- All three are multiples of the specialized size. -/
  whole : ∀ node ∈ arena.list.nodes.toList, node.top % arena.list.sizes.specialized = 0 ∧
    node.committed % arena.list.sizes.specialized = 0 ∧
    node.reserved % arena.list.sizes.specialized = 0

/-- How an arena grows for a chunk of a kind and a size. -/
structure Arena.Expands (arena : Arena) (kind : Kind) (size suggested : Nat) : Prop where
  /-- Where the current node has no room for the chunk, the list grows, and the chunk is carved then. -/
  newChunk : (arena.list.takeCurrent size arena.pool).outcome = .ok (none, arena.list, arena.pool) →
    (arena.list.newChunk size suggested arena.pool).outcome =
      (arena.list.expand (arena.list.leastGrowth kind size)
          (arena.list.preferredGrowth kind size suggested) arena.pool).outcome >>=
        fun (isDone, list, pool) =>
          if isDone then (list.takeCurrent size pool).outcome else .ok (none, list, pool)
  /-- A list that has grown has room for the chunk. -/
  room : ∀ list pool, (arena.list.expand (arena.list.leastGrowth kind size)
      (arena.list.preferredGrowth kind size suggested) arena.pool).outcome = .ok (true, list, pool) →
    ∃ chunk list' pool', (list.takeCurrent size pool).outcome = .ok (some chunk, list', pool')
  /-- A list that cannot grow reserves and commits as many words as before. -/
  kept : ∀ list pool, (arena.list.expand (arena.list.leastGrowth kind size)
      (arena.list.preferredGrowth kind size suggested) arena.pool).outcome = .ok (false, list, pool) →
    list.reservedWords = arena.list.reservedWords ∧ list.committedWords = arena.list.committedWords
  /-- There is no new chunk only if the current node has no room and the list cannot grow. -/
  fails : ∀ list pool,
    (arena.list.newChunk size suggested arena.pool).outcome = .ok (none, list, pool) →
      (arena.list.takeCurrent size arena.pool).outcome = .ok (none, arena.list, arena.pool) ∧
      (arena.list.expand (arena.list.leastGrowth kind size)
        (arena.list.preferredGrowth kind size suggested) arena.pool).outcome = .ok (false, list, pool)

/-- A sound arena of a list that is whole keeps to the limits. -/
theorem Arena.Sound.inLimits (sound : Arena.Sound uses arena held) (whole : arena.list.Whole)
    (limit : arena.list.limit < 2 ^ 57) : arena.InLimits := by
  have carved : ∀ node ∈ arena.list.nodes.toList, ∃ row, node.Carved row := fun node member =>
    let ⟨row, settled⟩ := sound.settled node member
    ⟨row, settled.carved⟩
  have limited : arena.list.total ≤ arena.list.limit := sound.limited
  refine {
    reserved := ?_
    single := fun isClass => ?_
    top_le := fun node member => ?_
    committed_le := fun node member => ?_
    whole := fun node member => ?_ }
  · obtain ⟨total, isTotal, rfl⟩ := (show Ensures False arena.list.reservedWords _ from
      Count.sum_ensures fun _ => by
        change arena.list.total < wordLimit
        unfold wordLimit
        omega).exists_ok
    exact ⟨_, isTotal, limited⟩
  · obtain ⟨node, nodes, _⟩ := whole isClass
    rw [nodes]
    exact Nat.le_refl 1
  · obtain ⟨_, isCarved⟩ := carved node member
    exact isCarved.top_le
  · obtain ⟨_, isCarved⟩ := carved node member
    exact isCarved.committed_le
  · obtain ⟨_, isCarved⟩ := carved node member
    have reservedWhole := isCarved.map.whole
    rw [isCarved.map_words, isCarved.map_granule] at reservedWhole
    rw [← sound.nodeSizes node member]
    exact ⟨isCarved.top_whole, isCarved.committed_whole, reservedWhole⟩

namespace Arena.Sound

variable {list list' : NodeList} {pool pool' : Pool} {least preferred : Nat}

/-- Carving from the current node leaves a list as it is, or there is a chunk. -/
theorem takeCurrent_cases (sound : Arena.Sound uses ⟨list, pool⟩ held) (bounded : list.Bounded)
    (suits : list.sizes.Suits kind size) (small : size < 2 ^ 55) :
    (list.takeCurrent size pool).outcome = .ok (none, list, pool) ∨
      ∃ chunk last lastPool, (list.takeCurrent size pool).outcome = .ok (some chunk, last, lastPool) := by
  have taken : Ensures False (list.takeCurrent size pool).outcome _ :=
    sound.takeCurrent_ensures (fun _ => bounded) suits
      (fun _ => Nat.lt_trans small (by decide)) (fun _ => by omega)
  obtain ⟨⟨_ | chunk, last, lastPool⟩, done, _, isLast⟩ := taken.exists_ok
  · obtain ⟨rfl, rfl, _⟩ := isLast
    exact Or.inl done
  · exact Or.inr ⟨chunk, last, lastPool, done⟩

/-- A list that has grown for a chunk has room for it. -/
theorem takeCurrent_of_expand (sound : Arena.Sound uses ⟨list, pool⟩ held) (bounded : list.Bounded)
    (suits : list.sizes.Suits kind size) (small : size < 2 ^ 55)
    (ordered : list.leastGrowth kind size ≤ preferred)
    (done : (list.expand (list.leastGrowth kind size) preferred pool).outcome =
      .ok (true, list', pool')) :
    ∃ chunk last lastPool, (list'.takeCurrent size pool').outcome =
      .ok (some chunk, last, lastPool) := by
  have expanded : Ensures True (list.expand (list.leastGrowth kind size) preferred pool).outcome _ :=
    sound.expand_ensures (absurd trivial) (absurd trivial) ordered (absurd trivial)
  obtain ⟨follows, _, offers, _⟩ := expanded.of_ok done
  have alike : list.Alike list' := follows.spares.list
  rw [← alike.leastGrowth_eq] at offers
  have grown : Ensures False (list'.takeGrown size pool').outcome _ :=
    follows.sound.takeGrown_ensures (fun _ => bounded.of_alike alike) (by rw [alike.sizes]; exact suits)
      (fun _ => Nat.lt_trans small (by decide)) (fun _ => by omega) offers
  obtain ⟨⟨_, last, lastPool⟩, isOutcome, chunk, rfl, _⟩ := grown.exists_ok
  rw [NodeList.takeGrown_outcome] at isOutcome
  exact ⟨chunk, last, lastPool, isOutcome⟩

/-- A list that cannot grow reserves and commits as many words as before. -/
theorem words_of_expand (sound : Arena.Sound uses ⟨list, pool⟩ held) (ordered : least ≤ preferred)
    (done : (list.expand least preferred pool).outcome = .ok (false, list', pool')) :
    list'.reservedWords = list.reservedWords ∧ list'.committedWords = list.committedWords := by
  have expanded : Ensures True (list.expand least preferred pool).outcome _ :=
    sound.expand_ensures (absurd trivial) (absurd trivial) ordered (absurd trivial)
  obtain ⟨_, _, givenUp⟩ := expanded.of_ok done
  exact ⟨givenUp.undamaged.reserved, givenUp.undamaged.committed⟩

/-- A sound arena with small dimensions grows for every chunk. -/
theorem expands (sound : Arena.Sound uses arena held) (bounded : arena.list.Bounded)
    (granule : arena.list.granule < 2 ^ 55) (suits : arena.list.sizes.Suits kind size)
    (small : size < 2 ^ 55) (suggestedSmall : suggested < 2 ^ 55) :
    arena.Expands kind size suggested := by
  obtain ⟨list, pool⟩ := arena
  have ordered : list.leastGrowth kind size ≤ list.preferredGrowth kind size suggested :=
    Nat.le_max_right _ _
  have newChunk : (list.takeCurrent size pool).outcome = .ok (none, list, pool) → _ :=
    NodeList.newChunk_of_no_room suits sound.granule_pos granule small suggestedSmall
  refine ⟨newChunk, fun _ _ => sound.takeCurrent_of_expand bounded suits small ordered,
    fun _ _ => sound.words_of_expand ordered, ?_⟩
  intro list' pool' failed
  change (list.newChunk size suggested pool).outcome = _ at failed
  rcases sound.takeCurrent_cases bounded suits small with noRoom | ⟨chunk, last, lastPool, taken⟩
  · refine ⟨noRoom, ?_⟩
    rw [newChunk noRoom] at failed
    change (list.expand (list.leastGrowth kind size) (list.preferredGrowth kind size suggested)
      pool).outcome = _
    cases grown : (list.expand (list.leastGrowth kind size)
        (list.preferredGrowth kind size suggested) pool).outcome with
    | error fault =>
      rw [grown] at failed
      cases failed
    | ok result =>
      obtain ⟨_ | _, second, secondPool⟩ := result
      · rw [grown] at failed
        cases failed
        rfl
      · -- A list that has grown would have had a chunk.
        obtain ⟨chunk, last, lastPool, taken⟩ :=
          sound.takeCurrent_of_expand bounded suits small ordered grown
        rw [grown] at failed
        cases taken.symm.trans failed
  · cases (NodeList.newChunk_of_room taken).symm.trans failed

end Arena.Sound

namespace Session

variable {options : Options} {opened reached : Session} {operations : List Operation}

/-- In every session that a run reaches, each space keeps to its limit, which is that of the new session,
and grows for every chunk. -/
theorem reached_expands (words : options.WordsBelow (2 ^ 55)) (made : ofOptions options = .ok opened)
    (done : opened.run operations = .ok reached) (space : Space) :
    (reached.allocator.arena space).InLimits ∧
      (reached.allocator.arena space).list.limit = (opened.allocator.arena space).list.limit ∧
      ∀ kind size suggested, (reached.allocator.sizes space).kindOfSize size = .ok kind →
        size < 2 ^ 55 → suggested < 2 ^ 55 →
          (reached.allocator.arena space).Expands kind size suggested := by
  have chunkWords : options.ChunkWordsBelow Header.sizeLimit := words.chunkWords (by decide)
  obtain ⟨sound, _, within⟩ := reached_sound made done chunkWords (Or.inr words)
  obtain ⟨_, spares⟩ := reached_follows made done chunkWords (Or.inr words)
  obtain ⟨medium, granule, nodeWords, limit⟩ := within _ words space
  have arena := sound.allocator.arena space
  refine ⟨arena.inLimits (sound.allocator.whole space) (by omega), (spares.lists space).limit, ?_⟩
  intro kind size suggested isKind small suggestedSmall
  exact arena.expands ⟨by omega, by omega, by omega, by omega⟩ granule
    (ChunkSizes.kindOfSize_eq_ok_iff.mp isKind) small suggestedSmall

/-- Behind one medium chunk the first node has words left for another one, but not for the padding that
it could need, so a second node is reserved, and the chunk is carved there. -/
theorem sample_expands : ∃ (opened reached : Session) (list list' : NodeList) (pool pool' : Pool)
    (chunk : Chunk), ofOptions Options.smallest = .ok opened ∧
    opened.run [.allocate .nonClass 12] = .ok reached ∧
    reached.allocator.nonClass.InLimits ∧
    (reached.allocator.nonClass.list.expand (reached.allocator.nonClass.list.leastGrowth .medium 12)
      (reached.allocator.nonClass.list.preferredGrowth .medium 12 12)
      reached.allocator.nonClass.pool).outcome = .ok (true, list, pool) ∧
    list.nodes.size = 2 ∧ (list.takeCurrent 12 pool).outcome = .ok (some chunk, list', pool') := by
  have evaluated : (ofOptions Options.smallest >>= fun session =>
      session.run [.allocate .nonClass 12]).toOption.map (fun reached =>
        (((reached.allocator.sizes .nonClass).kindOfSize 12).toOption,
          (reached.allocator.nonClass.list.expand
            (reached.allocator.nonClass.list.leastGrowth .medium 12)
            (reached.allocator.nonClass.list.preferredGrowth .medium 12 12)
            reached.allocator.nonClass.pool).outcome.toOption.map fun (isDone, list, _) =>
              (isDone, list.nodes.size))) = some (some .medium, some (true, 2)) := by decide +kernel
  obtain ⟨opened, reached, made, done, view⟩ := exists_reached evaluated
  obtain ⟨isMedium, grown⟩ := Prod.mk.inj view
  obtain ⟨⟨isDone, list, pool⟩, isOutcome, seen⟩ := Option.map_eq_some_iff.mp grown
  obtain ⟨rfl, isSize⟩ := Prod.mk.inj seen
  obtain ⟨inLimits, _, expands⟩ := reached_expands Options.smallest_wordsBelow made done .nonClass
  have grew := eq_ok_of_toOption isOutcome
  obtain ⟨chunk, list', pool', taken⟩ :=
    (expands .medium 12 12 (eq_ok_of_toOption isMedium) (by decide) (by decide)).room list pool grew
  exact ⟨opened, reached, list, list', pool, pool', chunk, made, done, inLimits, grew, isSize, taken⟩

end Session

end CollectorMemory
