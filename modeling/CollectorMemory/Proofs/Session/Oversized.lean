import CollectorMemory.Proofs.Allocator.Confined
import CollectorMemory.Proofs.Arena.Oversized
import CollectorMemory.Proofs.Session.Agreement
import CollectorMemory.Proofs.Session.Refusal

/-!
# Requests beyond the limit of a space

A request for more words than the nodes of a space may reserve is declined in every state that users can
reach, by operations and by tagging chunks, and it leaves the allocator as it was. The request asks for
the least growth that has room for the chunk with the most padding, in whole granules. Where that is no
count the request is not declined but stops.
-/

namespace CollectorMemory

variable {options : Options} {sizes : Space → ChunkSizes} {space : Space} {size index : Nat}
  {session opened reached : Session} {holding : Holding} {action : Action} {actions : List Action}

/-- A confined allocator declines a request for more than the limit, and stays as it was, unless the
number of words to grow by is no count. -/
theorem Allocator.Confined.allocate_oversized {allocator : Allocator} {kind : Kind}
    (confined : allocator.Confined options sizes) (positive : 0 < options.commitGranuleWords)
    (suits : (sizes space).Suits kind size) (beyond : options.reserveLimit space < size) :
    (allocator.allocate space size).outcome =
      if Count.nextMultiple (size + (sizes space).mostPadding kind size)
          options.commitGranuleWords < wordLimit
      then .ok (.error ⟨space, size⟩, allocator) else .error .overflow := by
  have isArena := confined.arena space
  have isSizes : (allocator.arena space).list.sizes = sizes space := isArena.list.sizes
  have valid : (allocator.arena space).list.sizes.isChunkSize size = true := by
    rw [isSizes]
    exact suits.isChunkSize
  have granule : (allocator.arena space).list.granule = options.commitGranuleWords :=
    isArena.list.granule
  have provided : ((allocator.arena space).provide size options.commitGranuleWords).outcome =
      Count.check (Count.nextMultiple (size + (sizes space).mostPadding kind size)
        options.commitGranuleWords) >>= fun _ => .ok (none, allocator.arena space) := by
    have provided := isArena.provide_oversized positive suits beyond
    unfold NodeList.leastGrowth at provided
    rw [isSizes, granule] at provided
    exact provided
  unfold Allocator.allocate
  dsimp only
  rw [Run.outcome_bind, Run.outcome_liftM, require_eq_ok_iff.mpr valid]
  change (Arena.provide _ _ _ >>= _ : Run _).outcome = _
  rw [Run.outcome_bind, confined.options, provided]
  unfold Count.check
  split
  · change Except.ok _ = _
    rw [withArena_arena]
  · rfl

namespace Session

/-- A session whose allocator and chunks are confined to the limits of options. -/
structure Confined (options : Options) (sizes : Space → ChunkSizes) (session : Session) : Prop where
  /-- The allocator is confined. -/
  allocator : session.allocator.Confined options sizes
  /-- The chunks that are held are confined. -/
  held : ∀ holding ∈ session.held, holding.chunk.ConfinedBy options sizes

/-- A session is confined with another state of a holding. -/
theorem Confined.replace {allocator : Allocator} (confined : session.Confined options sizes)
    (isAllocator : allocator.Confined options sizes)
    (isConfined : holding.chunk.ConfinedBy options sizes) :
    Session.Confined options sizes ⟨allocator, session.held.set index holding⟩ where
  allocator := isAllocator
  held other member := by
    rcases List.mem_or_eq_of_mem_set member with old | isHolding
    · exact confined.held other old
    · rw [isHolding]
      exact isConfined

/-- Performing an operation keeps a session confined. -/
theorem Confined.perform (confined : session.Confined options sizes) (operation : Operation) :
    Ensures True (session.perform operation) (Session.Confined options sizes) := by
  cases operation with
  | allocate space size =>
    refine Ensures.bind confined.allocator.allocate ?_
    rintro ⟨failure | chunk, after⟩ ⟨isAllocator, served⟩
    · exact ⟨isAllocator, confined.held⟩
    · refine ⟨isAllocator, fun other member => ?_⟩
      rcases List.mem_append.mp member with inHeld | isNew
      · exact confined.held other inHeld
      · rw [List.mem_singleton.mp isNew]
        exact (served chunk rfl).1.toConfined.confinedBy
  | putBack index =>
    refine withHolding_ensures confined fun _ holding _ _ _ found => ?_
    have isConfined := confined.held holding (List.mem_of_getElem? found)
    refine Ensures.bind (confined.allocator.putBack isConfined) ?_
    intro after isAllocator
    exact ⟨isAllocator, fun other member => confined.held other (List.mem_of_mem_eraseIdx member)⟩
  | grant index words =>
    refine withHolding_ensures confined fun _ holding _ _ _ found => ?_
    have isConfined := confined.held holding (List.mem_of_getElem? found)
    refine Ensures.bind (isConfined.allocate words) ?_
    rintro (_ | ⟨place, chunk⟩) handedOut
    · exact confined
    · exact confined.replace confined.allocator (Chunk.Confined.confinedBy handedOut)
  | write index place data =>
    refine withHolding_ensures confined fun _ holding _ _ _ found => ?_
    have isConfined := confined.held holding (List.mem_of_getElem? found)
    refine Ensures.bind (confined.allocator.writeWords place data) ?_
    intro after isAllocator
    exact confined.replace isAllocator isConfined
  | read index place length =>
    refine withHolding_ensures confined fun _ holding _ _ _ found => ?_
    refine Ensures.bind (ensures_excused _) ?_
    intro _ _
    exact confined
  | purge space =>
    refine Ensures.bind confined.allocator.purge ?_
    intro (purged, after) isAllocator
    exact ⟨isAllocator, confined.held⟩
  | audit =>
    refine Ensures.bind (ensures_excused _) ?_
    intro _ _
    exact confined

/-- Tagging a chunk that is held keeps a session confined. -/
theorem Confined.tag (confined : session.Confined options sizes) (inUse : Bool) :
    Ensures True (session.tag index inUse) (Session.Confined options sizes) := by
  refine withHolding_ensures confined fun _ holding _ _ _ found => ?_
  have isConfined := confined.held holding (List.mem_of_getElem? found)
  refine Ensures.bind (confined.allocator.setInUse inUse) ?_
  rintro ⟨after, tagged⟩ ⟨isAllocator, rfl⟩
  exact confined.replace isAllocator (isConfined.withFree (!inUse))

/-- Doing one thing keeps a session confined. -/
theorem Confined.act (confined : session.Confined options sizes) (action : Action) :
    Ensures True (session.act action) (Session.Confined options sizes) := by
  cases action with
  | operate operation => exact confined.perform operation
  | tag index inUse => exact confined.tag inUse

/-- A session that is reached is confined. -/
theorem Confined.actAll (confined : session.Confined options sizes) (actions : List Action) :
    Ensures True (session.actAll actions) (Session.Confined options sizes) := by
  unfold Session.actAll
  induction actions generalizing session with
  | nil => exact confined
  | cons action actions ih =>
    rw [List.foldlM_cons]
    refine Ensures.bind (confined.act action) ?_
    intro after isConfined
    exact ih isConfined

/-- A session that is made from options is confined to their limits. -/
theorem ofOptions_confined :
    Ensures True (ofOptions options) fun session =>
      session.Confined options session.allocator.sizes ∧ 0 < options.commitGranuleWords := by
  refine Ensures.bind Allocator.ofOptions_confined ?_
  intro allocator ⟨isAllocator, positive⟩
  exact ⟨⟨isAllocator, List.forall_mem_nil _⟩, positive⟩

/-- A request for more than a space may reserve is declined, with the space and the size, and leaves the
allocator as it was. It stops with an overflow instead exactly if the least growth for the chunk and the
most padding, in whole granules, is no count. -/
theorem reached_declines (made : ofOptions options = .ok opened)
    (done : opened.actAll actions = .ok reached)
    (valid : (reached.allocator.sizes space).isChunkSize size)
    (beyond : options.reserveLimit space < size) :
    ∃ kind, (reached.allocator.sizes space).Suits kind size ∧
      (reached.allocator.allocate space size).outcome =
        if Count.nextMultiple (size + (reached.allocator.sizes space).mostPadding kind size)
            options.commitGranuleWords < wordLimit
        then .ok (.error ⟨space, size⟩, reached.allocator)
        else .error .overflow := by
  obtain ⟨fresh, positive⟩ := ofOptions_confined.of_ok made
  have confined := ((fresh.actAll actions).of_ok done).allocator
  have isSizes : reached.allocator.sizes space = opened.allocator.sizes space :=
    (confined.arena space).list.sizes
  obtain ⟨kind, suits⟩ := ChunkSizes.exists_suits_of_isChunkSize valid
  refine ⟨kind, suits, ?_⟩
  rw [isSizes] at suits ⊢
  exact confined.allocate_oversized positive suits beyond

/-- After a run in which chunks are tagged, a request for more than two nodes is declined. -/
theorem taggings_declines : ∃ opened reached,
    ofOptions (Options.smallest.withAudited false) = .ok opened ∧
    opened.actAll taggings = .ok reached ∧
    (reached.allocator.sizes .nonClass).isChunkSize 51 ∧
    (Options.smallest.withAudited false).reserveLimit .nonClass < 51 ∧
    (reached.allocator.allocate .nonClass 51).outcome =
      .ok (.error ⟨.nonClass, 51⟩, reached.allocator) := by
  have evaluated : (ofOptions (Options.smallest.withAudited false) >>= fun session =>
      session.actAll taggings).toOption.map (fun reached => reached.allocator.sizes .nonClass) =
      some ⟨3, 6, 12, by decide, by decide, by decide, rfl, rfl⟩ := by decide +kernel
  obtain ⟨opened, reached, made, done, isSizes⟩ := exists_reached evaluated
  have valid : (reached.allocator.sizes .nonClass).isChunkSize 51 := by
    rw [isSizes]
    decide
  have beyond : (Options.smallest.withAudited false).reserveLimit .nonClass < 51 := by decide
  obtain ⟨kind, suits, declines⟩ := reached_declines made done valid beyond
  have isHumongous : kind = .humongous := by
    rw [isSizes] at suits
    exact suits.kind_eq (show ChunkSizes.Suits _ .humongous 51 from ⟨by decide, by decide⟩)
  refine ⟨opened, reached, made, done, valid, beyond, ?_⟩
  rw [declines, isHumongous, isSizes]
  exact if_pos (by decide)

/-- A valid size near the limit of counts, far beyond what the space may reserve, is not declined: a new
allocator stops with an overflow. -/
theorem smallest_overflows : ∃ opened, ofOptions Options.smallest = .ok opened ∧
    (opened.allocator.sizes .nonClass).isChunkSize (2 ^ 64 - 1) ∧ 2 ^ 64 - 1 < wordLimit ∧
    Options.smallest.reserveLimit .nonClass < 2 ^ 64 - 1 ∧
    (opened.allocator.allocate .nonClass (2 ^ 64 - 1)).outcome = .error .overflow := by
  have evaluated : (ofOptions Options.smallest).toOption.map
      (fun opened => opened.allocator.sizes .nonClass) =
      some ⟨3, 6, 12, by decide, by decide, by decide, rfl, rfl⟩ := by decide +kernel
  obtain ⟨opened, isSome, isSizes⟩ := Option.map_eq_some_iff.mp evaluated
  have made := eq_ok_of_toOption isSome
  have suits : (opened.allocator.sizes .nonClass).Suits .humongous (2 ^ 64 - 1) := by
    rw [isSizes]
    exact ⟨by decide, by decide⟩
  have beyond : Options.smallest.reserveLimit .nonClass < 2 ^ 64 - 1 := by decide
  obtain ⟨confined, positive⟩ := ofOptions_confined.of_ok made
  refine ⟨opened, made, suits.isChunkSize, by decide, beyond, ?_⟩
  rw [confined.allocator.allocate_oversized positive suits beyond, isSizes]
  exact if_neg (by decide)

end Session

end CollectorMemory
