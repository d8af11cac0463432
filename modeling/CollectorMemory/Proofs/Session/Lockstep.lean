import CollectorMemory.Proofs.Allocator.Lockstep
import CollectorMemory.Proofs.Session.Safety

/-!
# Verification changes no answer

Two sessions whose options differ only in whether the allocator is audited go on in lockstep: every
operation gives the same answer in both, or stops both with the same fault, and what they have in
common afterwards is all but the audits and the words that nobody relies on. A word can be relied on
if it belongs to the header of a chunk or was written by the holder of a chunk.
-/

namespace CollectorMemory

variable {excuse : Prop} {uses : Nat} {session twin : Session} {options : Options}

/-- What an operation answers. The words that were read are left out, since those that nobody wrote
may depend on the audits. -/
inductive Answer where
  /-- A chunk, or the failure of the request. -/
  | allocated (result : Except AllocationFailure Chunk)
  /-- The place of the words that were handed out with the chunk afterwards, or nothing. -/
  | granted (result : Option (Location × Chunk))
  /-- The number of nodes that were given up. -/
  | purged (count : Nat)
  /-- The operation was performed. -/
  | done

namespace Session

/-- What an operation answers in a session. -/
def answer (session : Session) : Operation → Except Fault Answer
  | .allocate space size => do
    let (result, _) ← (session.allocator.allocate space size).outcome
    return .allocated result
  | .grant index words =>
    match session.held[index]? with
    | none => return .done
    | some holding => return .granted (← holding.chunk.allocate words)
  | .purge space => do
    let (count, _) ← (session.allocator.purge space).outcome
    return .purged count
  | operation => do
    let _ ← session.perform operation
    return .done

/-- Perform operations one after the other and collect the answers. -/
def respond (session : Session) : List Operation → Except Fault (List Answer × Session)
  | [] => return ([], session)
  | operation :: rest => do
    let answer ← session.answer operation
    let after ← session.perform operation
    let (answers, last) ← after.respond rest
    return (answer :: answers, last)

/-- Where operations are answered, they are performed. -/
theorem run_of_respond {operations : List Operation} {answers : List Answer} {reached : Session}
    (responded : session.respond operations = .ok (answers, reached)) :
    session.run operations = .ok reached := by
  induction operations generalizing session answers with
  | nil =>
    cases responded
    rfl
  | cons head rest ih =>
    unfold respond at responded
    cases answered : session.answer head with
    | error fault =>
      rw [answered] at responded
      cases responded
    | ok answer =>
      rw [answered] at responded
      cases performed : session.perform head with
      | error fault =>
        rw [performed] at responded
        cases responded
      | ok after =>
        rw [performed] at responded
        change (after.respond rest >>= _) = _ at responded
        cases later : after.respond rest with
        | error fault =>
          rw [later] at responded
          cases responded
        | ok last =>
          rw [later] at responded
          cases responded
          unfold run
          rw [List.foldlM_cons, performed]
          exact ih later

/-- Two sessions with the same holdings, whose allocators are twins. -/
structure Twin (session twin : Session) : Prop where
  /-- The same chunks are held. -/
  held : twin.held = session.held
  /-- The allocators are twins. -/
  allocator : session.allocator.Twin twin.allocator

/-- Whether a word belongs to the header of a chunk or was written by the holder of a chunk. -/
def ReliesOn (session : Session) (id : NodeId) (offset : Nat) : Prop :=
  (∃ chunk ∈ (session.allocator.arena id.space).pool.chunks ++ session.chunks,
      chunk.container = id ∧ (offset = chunk.bottom ∨ offset = chunk.bottom + 1)) ∨
    ∃ holding ∈ session.held, holding.chunk.container = id ∧ (holding.written offset).isSome = true

/-- Two sessions have the same words wherever words are relied on. -/
def SameWords (session twin : Session) : Prop :=
  ∀ id node node', session.allocator.node? id = some node → twin.allocator.node? id = some node' →
    ∀ offset, session.ReliesOn id offset → node'.words.word offset = node.words.word offset

/-- The header of a chunk is in the words of its node. -/
theorem Sound.header_words (sound : session.Sound uses) {id : NodeId} {node : Node} {chunk : Chunk}
    (found : session.allocator.node? id = some node)
    (member : chunk ∈ (session.allocator.arena id.space).pool.chunks ++ session.chunks)
    (container : chunk.container = id) :
    node.words.word chunk.bottom = Header.alive ∧
      node.words.word (chunk.bottom + 1) = (chunk.block.header id.space.isClass).packed := by
  have arenaSound := sound.allocator.arena id.space
  obtain ⟨isId, front, back, split⟩ := arenaSound.ordered.exists_split found
  have inList : node ∈ (session.allocator.arena id.space).list.nodes.toList := by
    rw [split]
    exact List.mem_append_right front List.mem_cons_self
  obtain ⟨row, settled⟩ := arenaSound.settled node inList
  have isThere : chunk ∈ (session.allocator.arena id.space).pool.chunks ++
      inSpace id.space session.chunks := by
    rcases List.mem_append.mp member with inPool | isHeld
    · exact List.mem_append_left _ inPool
    · exact List.mem_append_right _ (mem_inSpace.mpr ⟨isHeld, congrArg NodeId.space container⟩)
  have shown := settled.carved.shown chunk.block
    (settled.toStock.mem_row isThere (container.trans isId.symm))
  have packed := shown.packed
  unfold Node.isClass at packed
  rw [isId] at packed
  exact ⟨shown.sentinel, packed⟩

namespace Twin

/-- Twin sessions hold the same chunks. -/
theorem chunks (twins : session.Twin twin) : twin.chunks = session.chunks :=
  congrArg (List.map Holding.chunk) twins.held

/-- Twin sessions that are sound have the same words wherever words are relied on. -/
theorem sameWords (twins : session.Twin twin) (sound : session.Sound uses)
    (sound' : twin.Sound uses) : session.SameWords twin := by
  intro id node node' found found' offset relied
  obtain ⟨chunk, member, container, isHeader⟩ | ⟨holding, member, container, isWritten⟩ := relied
  · have member' : chunk ∈ (twin.allocator.arena id.space).pool.chunks ++ twin.chunks := by
      rw [(twins.allocator.arenas id.space).pool.chunks, twins.chunks]
      exact member
    obtain ⟨first, second⟩ := sound.header_words found member container
    obtain ⟨first', second'⟩ := sound'.header_words found' member' container
    rcases isHeader with rfl | rfl
    · exact first'.trans first.symm
    · exact second'.trans second.symm
  · obtain ⟨value, written⟩ := Option.isSome_iff_exists.mp isWritten
    have member' : holding ∈ twin.held := by
      rw [twins.held]
      exact member
    subst container
    obtain ⟨_, _, word⟩ := (sound.holdings holding member).written node found offset value written
    obtain ⟨_, _, word'⟩ :=
      (sound'.holdings holding member').written node' found' offset value written
    exact word'.trans word.symm

/-- Something is done with the same holding in lockstep. -/
theorem withHolding_lockstep {index : Nat} {action action' : Holding → Except Fault Session}
    (twins : session.Twin twin)
    (acts : ∀ front holding back, session.held = front ++ holding :: back →
      Lockstep excuse Session.Twin (action holding) (action' holding)) :
    Lockstep excuse Session.Twin (session.withHolding index action)
      (twin.withHolding index action') := by
  unfold withHolding
  rw [twins.held]
  cases found : session.held[index]? with
  | none => exact twins
  | some holding =>
    obtain ⟨front, back, split⟩ := List.append_of_mem (List.mem_of_getElem? found)
    exact acts front holding back split

variable (twins : session.Twin twin) (sound : session.Sound uses) (sound' : twin.Sound uses)
  (bounded : session.allocator.Bounded)
  (limited : ∀ space, (session.allocator.arena space).list.limit < Header.sizeLimit)

include twins sound sound' bounded limited

/-- Twin sessions perform operations in lockstep. -/
theorem perform_lockstep (operation : Operation) :
    Lockstep False Session.Twin (session.perform operation) (twin.perform operation) := by
  have same := twins.chunks
  cases operation with
  | allocate space size =>
    have soundTwin := sound'.allocator
    rw [same] at soundTwin
    apply Lockstep.bind (twins.allocator.allocate sound.allocator soundTwin bounded fun inside =>
      Nat.lt_of_le_of_lt inside (limited space))
    intro (result, after) (result', after') ⟨same, allocators⟩
    cases same
    cases result with
    | ok chunk => exact ⟨congrArg (· ++ [Holding.fresh chunk]) twins.held, allocators⟩
    | error failure => exact ⟨twins.held, allocators⟩
  | putBack index =>
    apply twins.withHolding_lockstep
    intro front holding back split
    have split' : twin.held = front ++ holding :: back := twins.held.trans split
    apply Lockstep.bind (twins.allocator.putBack (sound.allocator_cons split)
      (sound'.allocator_cons split') bounded)
    intro after after' allocators
    exact ⟨congrArg (List.eraseIdx · index) twins.held, allocators⟩
  | grant index words =>
    apply twins.withHolding_lockstep
    intro front holding back split
    apply lockstep_same
    intro granted _
    cases granted with
    | none => exact twins
    | some granted => exact ⟨congrArg (List.set · index _) twins.held, twins.allocator⟩
  | write index place data =>
    apply twins.withHolding_lockstep
    intro front holding back split
    apply Lockstep.bind (twins.allocator.writeWords holding.chunk place data)
    intro after after' allocators
    exact ⟨congrArg (List.set · index _) twins.held, allocators⟩
  | read index place length =>
    apply twins.withHolding_lockstep
    intro front holding back split
    apply Lockstep.bind (twins.allocator.readWords holding.chunk place length)
    intro _ _ _
    exact twins
  | purge space =>
    apply Lockstep.bind (twins.allocator.purge space)
    intro (purged, after) (purged', after') ⟨_, allocators⟩
    exact ⟨twins.held, allocators⟩
  | audit =>
    have soundTwin := sound'.allocator
    rw [same] at soundTwin
    apply Lockstep.bind (twins.allocator.audit sound.allocator soundTwin bounded)
    intro _ _ _
    exact twins

/-- Twin sessions give the same answers. -/
theorem answer_lockstep (operation : Operation) :
    Lockstep False (fun answer answer' => answer' = answer) (session.answer operation)
      (twin.answer operation) := by
  have same := twins.chunks
  have answered : Lockstep False (fun answer answer' => answer' = answer)
      (do let _ ← session.perform operation; return Answer.done)
      (do let _ ← twin.perform operation; return Answer.done) :=
    (twins.perform_lockstep sound sound' bounded limited operation).bind fun _ _ _ => rfl
  cases operation with
  | allocate space size =>
    have soundTwin := sound'.allocator
    rw [same] at soundTwin
    apply Lockstep.bind (twins.allocator.allocate sound.allocator soundTwin bounded fun inside =>
      Nat.lt_of_le_of_lt inside (limited space))
    intro (result, after) (result', after') ⟨same, _⟩
    exact congrArg Answer.allocated same
  | grant index words =>
    dsimp only [answer]
    rw [twins.held]
    cases session.held[index]? with
    | none => rfl
    | some holding =>
      apply lockstep_same
      intro granted _
      rfl
  | purge space =>
    apply Lockstep.bind (twins.allocator.purge space)
    intro (purged, after) (purged', after') ⟨same, _⟩
    exact congrArg Answer.purged same
  | putBack _ | write _ _ _ | read _ _ _ | audit => exact answered

/-- Twin sessions give the same answers in every run, and have the same words after it wherever words
are relied on. -/
theorem respond_lockstep (operations : List Operation) :
    Lockstep False
      (fun (answers, reached) (answers', reached') =>
        answers' = answers ∧ reached.Twin reached' ∧ reached.SameWords reached')
      (session.respond operations) (twin.respond operations) := by
  induction operations generalizing session twin uses with
  | nil => exact ⟨rfl, twins, twins.sameWords sound sound'⟩
  | cons first rest ih =>
    have limited' : ∀ space, (twin.allocator.arena space).list.limit < Header.sizeLimit := by
      intro space
      rw [(twins.allocator.arenas space).list.limit]
      exact limited space
    have follows : Ensures True (session.perform first)
        (session.Follows (uses + first.allocations)) :=
      sound.perform_ensures (absurd trivial) (absurd trivial) (absurd trivial) (absurd trivial)
        (absurd trivial) (Or.inr limited)
    have follows' : Ensures True (twin.perform first) (twin.Follows (uses + first.allocations)) :=
      sound'.perform_ensures (absurd trivial) (absurd trivial) (absurd trivial) (absurd trivial)
        (absurd trivial) (Or.inr limited')
    apply Lockstep.bind (twins.answer_lockstep sound sound' bounded limited first)
    intro answer answer' sameAnswer
    apply Lockstep.bind ((twins.perform_lockstep sound sound' bounded limited first).known follows
      follows')
    intro next next' ⟨nextTwins, ⟨nextSound, spares⟩, nextSound', _⟩
    have nextLimited : ∀ space, (next.allocator.arena space).list.limit < Header.sizeLimit := by
      intro space
      rw [(spares.lists space).limit]
      exact limited space
    apply Lockstep.bind (ih nextTwins nextSound nextSound' (bounded.of_spares spares) nextLimited)
    intro (answers, reached) (answers', reached') ⟨sameAnswers, atEnd⟩
    cases sameAnswer
    cases sameAnswers
    exact ⟨rfl, atEnd⟩

end Twin

/-- Sessions are made in lockstep from options that are the same but for the audits. -/
theorem ofOptions_lockstep (options : Options) (audited : Bool) :
    Lockstep excuse Session.Twin (ofOptions options) (ofOptions (options.withAudited audited)) := by
  apply Lockstep.bind (Allocator.ofOptions_lockstep options audited)
  intro allocator allocator' allocators
  exact ⟨rfl, allocators⟩

/-- Verification changes no answer: whether an allocator is audited or not, it can be made from the
same options, and every run on it gives the same answers or stops at the same operation with the same
fault. What is reached is the same up to the audits and the words that nobody relies on. -/
theorem respond_withAudited {opened : Session} (made : ofOptions options = .ok opened)
    (words : options.WordsBelow (2 ^ 55)) (audited : Bool) :
    ∃ twin, ofOptions (options.withAudited audited) = .ok twin ∧
      ∀ operations, Lockstep False
        (fun (answers, reached) (answers', reached') =>
          answers' = answers ∧ reached.Twin reached' ∧ reached.SameWords reached')
        (opened.respond operations) (twin.respond operations) := by
  obtain ⟨twin, made', twins⟩ := (ofOptions_lockstep options audited).exists_ok made
  have words' : (options.withAudited audited).WordsBelow (2 ^ 55) := by
    intro field isWords
    rw [Options.count_withAudited]
    exact words field isWords
  obtain ⟨sound, isOptions, within⟩ := sound_ofOptions (words.chunkWords (by decide)) made
  obtain ⟨sound', _, _⟩ := sound_ofOptions (words'.chunkWords (by decide)) made'
  have granule : opened.allocator.options.commitGranuleWords < 2 ^ 55 := by
    rw [isOptions]
    exact words .commitGranuleWords rfl
  exact ⟨twin, made', twins.respond_lockstep sound sound'
    (Allocator.Bounded.of_within granule (within _ words)) fun space => (within _ words space).limit⟩

/-- The short run gives the same eight answers without the audits. -/
theorem sample_withAudited : Options.smallest.audited = true ∧ ∃ opened twin : Session,
    ofOptions Options.smallest = .ok opened ∧
      ofOptions (Options.smallest.withAudited false) = .ok twin ∧ ∃ answers reached reached',
        opened.respond sample = .ok (answers, reached) ∧ opened.run sample = .ok reached ∧
          answers.length = 8 ∧ twin.respond sample = .ok (answers, reached') ∧
          reached.Twin reached' ∧ reached.SameWords reached' := by
  have evaluated : (ofOptions Options.smallest >>= fun opened =>
      opened.respond sample).toOption.map (fun (answers, _) => answers.length) = some 8 := by
    decide +kernel
  cases made : ofOptions Options.smallest with
  | error fault =>
    rw [made] at evaluated
    cases evaluated
  | ok opened =>
    rw [made] at evaluated
    change (opened.respond sample).toOption.map _ = _ at evaluated
    obtain ⟨twin, made', lockstep⟩ := respond_withAudited made Options.smallest_wordsBelow false
    cases responded : opened.respond sample with
    | error fault =>
      rw [responded] at evaluated
      cases evaluated
    | ok last =>
      obtain ⟨answers, reached⟩ := last
      rw [responded] at evaluated
      obtain ⟨⟨answers', reached'⟩, responded', same, atEnd⟩ :=
        (lockstep sample).exists_ok responded
      change answers' = answers at same
      rw [same] at responded'
      exact ⟨rfl, opened, twin, rfl, made', answers, reached, reached', responded,
        run_of_respond responded, Option.some.inj evaluated, responded', atEnd⟩

end Session

end CollectorMemory
