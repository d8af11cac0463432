import CollectorMemory.Proofs.Allocator.Access
import CollectorMemory.Proofs.Allocator.Construction
import CollectorMemory.Proofs.Allocator.Operations
import CollectorMemory.Proofs.Session.Basic

/-!
# Sound sessions

A session is sound if its allocator is sound with the chunks that are held, and if every holding is: the
ranges handed out lie in the allocated part of the chunk and do not meet, and memory still has the
words last written through it. Every operation keeps a session sound, so every run does.
-/

namespace CollectorMemory

variable {excuse : Prop} {uses more : Nat} {allocator after : Allocator} {held kept : List Chunk}
  {holding : Holding} {session reached : Session} {operation : Operation}
  {operations : List Operation} {options : Options}

/-- A holding whose record agrees with memory. -/
structure Holding.Sound (allocator : Allocator) (holding : Holding) : Prop where
  /-- The ranges handed out lie in the allocated part. -/
  inside : ∀ range ∈ holding.granted,
    holding.chunk.payload ≤ range.1 ∧ range.1 + range.2 ≤ holding.chunk.top
  /-- Later ranges lie above earlier ones. -/
  apart : holding.granted.Pairwise fun later earlier => earlier.1 + earlier.2 ≤ later.1
  /-- What was written is still there. -/
  written : ∀ node, allocator.node? holding.chunk.container = some node → ∀ offset value,
    holding.written offset = some value →
      holding.chunk.payload ≤ offset ∧ offset < holding.chunk.top ∧ node.words.word offset = value

/-- A session whose allocator and holdings are in order. -/
structure Session.Sound (uses : Nat) (session : Session) : Prop where
  /-- The allocator is sound with the chunks that are held. -/
  allocator : session.allocator.Sound uses session.chunks
  /-- The holdings are sound. -/
  holdings : ∀ holding ∈ session.held, holding.Sound session.allocator

/-- A holding stays sound where the words of its chunk are spared. -/
theorem Holding.Sound.of_spares (sound : holding.Sound allocator)
    (allocatorSound : allocator.Sound uses held) (isHeld : holding.chunk ∈ held)
    (isKept : holding.chunk ∈ kept) (spares : Allocator.Spares kept allocator after) :
    holding.Sound after where
  inside := sound.inside
  apart := sound.apart
  written node' foundAfter offset value isWritten := by
    obtain ⟨node, row, found, _, owned, _⟩ := allocatorSound.exists_node isHeld
    obtain ⟨payloadLe, below, word⟩ := sound.written node found offset value isWritten
    obtain ⟨other, foundOther, same⟩ := spares.spared holding.chunk isKept node found
    have isOther : other = node' := Option.some.inj (foundOther.symm.trans foundAfter)
    have topLe := owned.sound.top_le
    have payload : holding.chunk.payload = holding.chunk.bottom + Header.words := rfl
    refine ⟨payloadLe, below, ?_⟩
    rw [← isOther, same offset (by omega) (by omega)]
    exact word

/-- A chunk that was just allocated has an empty record. -/
theorem Holding.sound_fresh (allocator : Allocator) (chunk : Chunk) :
    (Holding.fresh chunk).Sound allocator where
  inside _ member := absurd member List.not_mem_nil
  apart := List.Pairwise.nil
  written _ _ _ _ isWritten := by cases isWritten

/-- A holding stays sound where words are handed out at its top. -/
theorem Holding.Sound.grant (sound : holding.Sound allocator) {words : Nat}
    (payloadLe : holding.chunk.payload ≤ holding.chunk.top) :
    (holding.grant { holding.chunk with top := holding.chunk.top + words } holding.chunk.top
      words).Sound allocator where
  inside range member := by
    change holding.chunk.payload ≤ range.1 ∧ range.1 + range.2 ≤ holding.chunk.top + words
    rcases List.mem_cons.mp member with isNew | old
    · rw [isNew]
      exact ⟨payloadLe, Nat.le_refl _⟩
    · obtain ⟨lower, upper⟩ := sound.inside range old
      exact ⟨lower, by omega⟩
  apart := List.pairwise_cons.mpr ⟨fun range member => (sound.inside range member).2, sound.apart⟩
  written node found offset value isWritten := by
    obtain ⟨lower, upper, word⟩ := sound.written node found offset value isWritten
    exact ⟨lower, Nat.lt_of_lt_of_le upper (Nat.le_add_right _ _), word⟩

/-- A holding stays sound where words are written through it. -/
theorem Holding.Sound.store (sound : holding.Sound allocator) {place : Location}
    {data : List UInt64} (allots : holding.chunk.Allots place data.length) {node node' : Node}
    (found : allocator.node? holding.chunk.container = some node)
    (foundAfter : after.node? holding.chunk.container = some node')
    (words : ∀ offset, node'.words.word offset =
      if place.offset ≤ offset ∧ offset < place.offset + data.length then
        data.getD (offset - place.offset) 0
      else node.words.word offset) : (holding.store place.offset data).Sound after where
  inside := sound.inside
  apart := sound.apart
  written other foundOther offset value isWritten := by
    have isNode : node' = other := Option.some.inj (foundAfter.symm.trans foundOther)
    change (if place.offset ≤ offset ∧ offset < place.offset + data.length then
      data[offset - place.offset]? else holding.written offset) = some value at isWritten
    have payloadLe := allots.payload_le
    have leTop := allots.le_top
    rw [← isNode, words offset]
    by_cases inRange : place.offset ≤ offset ∧ offset < place.offset + data.length
    · rw [if_pos inRange] at isWritten ⊢
      refine ⟨?_, ?_, ?_⟩
      · change holding.chunk.payload ≤ offset
        omega
      · change offset < holding.chunk.top
        omega
      · rw [List.getD_eq_getElem?_getD, isWritten]
        rfl
    · rw [if_neg inRange] at isWritten ⊢
      exact sound.written node found offset value isWritten

/-- An operation needs a new node in a space that has no number left for one. -/
def Operation.OutOfNumbers (session : Session) : Operation → Prop
  | allocate space size => 2 ^ 32 ≤ (session.allocator.arena space).list.nextIndex + 1 ∧
      ∃ kind, (session.allocator.sizes space).Suits kind size ∧ session.allocator.Opens space kind size
  | _ => False

namespace Session

/-- What is found at a position stands between what is before and after it. -/
theorem exists_split {index : Nat} (found : session.held[index]? = some holding) :
    ∃ front back, session.held = front ++ holding :: back ∧ index = front.length := by
  obtain ⟨inside, isHolding⟩ := List.getElem?_eq_some_iff.mp found
  refine ⟨session.held.take index, session.held.drop (index + 1), ?_, ?_⟩
  · rw [← isHolding, List.getElem_cons_drop, List.take_append_drop]
  · rw [List.length_take]
    omega

/-- Something is done with the holding at a position, which stands between what is before and after
it, or nothing is done. -/
theorem withHolding_ensures {index : Nat} {action : Holding → Except Fault Session}
    {post : Session → Prop} (nothing : post session)
    (acts : ∀ front holding back, session.held = front ++ holding :: back → index = front.length →
      session.held[index]? = some holding → Ensures excuse (action holding) post) :
    Ensures excuse (session.withHolding index action) post := by
  unfold withHolding
  cases found : session.held[index]? with
  | none => exact nothing
  | some holding =>
    obtain ⟨front, back, split, isIndex⟩ := exists_split found
    exact acts front holding back split isIndex found

variable {front back : List Holding} {holding' : Holding}

/-- Replacing a holding leaves those before and after it. -/
theorem set_held (split : session.held = front ++ holding :: back) :
    session.held.set front.length holding' = front ++ holding' :: back := by
  rw [split, List.set_append_right _ _ (Nat.le_refl _), Nat.sub_self, List.set_cons_zero]

/-- Leaving a holding out leaves those before and after it. -/
theorem eraseIdx_held (split : session.held = front ++ holding :: back) :
    session.held.eraseIdx front.length = front ++ back := by
  rw [split, List.eraseIdx_append_of_length_le (Nat.le_refl _), Nat.sub_self,
    List.eraseIdx_cons_zero]

/-- The chunk of a holding comes first in another order of the chunks that are held. -/
theorem Sound.allocator_cons (sound : session.Sound uses)
    (split : session.held = front ++ holding :: back) :
    session.allocator.Sound uses (holding.chunk :: (front ++ back).map Holding.chunk) := by
  apply sound.allocator.of_perm
  unfold chunks
  rw [split, List.map_append, List.map_append, List.map_cons]
  exact List.perm_middle

/-- The other holdings stay sound where the allocator spares their chunks. -/
theorem Sound.others (sound : session.Sound uses) (split : session.held = front ++ holding :: back)
    (spares : Allocator.Spares ((front ++ back).map Holding.chunk) session.allocator after) :
    ∀ other ∈ front ++ back, other.Sound after := by
  intro other inRest
  have old : other ∈ session.held := by
    rw [split]
    rcases List.mem_append.mp inRest with inFront | inBack
    · exact List.mem_append_left _ inFront
    · exact List.mem_append_right _ (List.mem_cons_of_mem holding inBack)
  exact (sound.holdings other old).of_spares sound.allocator (List.mem_map_of_mem old)
    (List.mem_map_of_mem inRest) spares

/-- A holding can be replaced where the allocator is sound with its new chunk and spares the others. -/
theorem Sound.replace (sound : session.Sound uses)
    (split : session.held = front ++ holding :: back)
    (afterSound : after.Sound more (holding'.chunk :: (front ++ back).map Holding.chunk))
    (spares : Allocator.Spares ((front ++ back).map Holding.chunk) session.allocator after)
    (holdingSound : holding'.Sound after) :
    Sound more ⟨after, session.held.set front.length holding'⟩ := by
  have others := sound.others split spares
  rw [set_held split]
  constructor
  · apply afterSound.of_perm
    unfold chunks
    rw [List.map_append, List.map_append, List.map_cons]
    exact List.perm_middle.symm
  · intro other member
    rcases List.mem_append.mp member with inFront | inRest
    · exact others other (List.mem_append_left _ inFront)
    · rcases List.mem_cons.mp inRest with isHolding | inBack
      · rw [isHolding]
        exact holdingSound
      · exact others other (List.mem_append_right _ inBack)

/-- A holding can be left out where the allocator is sound without its chunk and spares the others. -/
theorem Sound.remove (sound : session.Sound uses) (split : session.held = front ++ holding :: back)
    (afterSound : after.Sound more ((front ++ back).map Holding.chunk))
    (spares : Allocator.Spares ((front ++ back).map Holding.chunk) session.allocator after) :
    Sound more ⟨after, session.held.eraseIdx front.length⟩ := by
  rw [eraseIdx_held split]
  exact ⟨afterSound, sound.others split spares⟩

/-- All holdings stay where the allocator spares all chunks that are held. -/
theorem Sound.keep (sound : session.Sound uses) (afterSound : after.Sound more session.chunks)
    (spares : Allocator.Spares session.chunks session.allocator after) :
    Sound more { session with allocator := after } where
  allocator := afterSound
  holdings other member := (sound.holdings other member).of_spares sound.allocator
    (List.mem_map_of_mem member) (List.mem_map_of_mem member) spares

/-- A chunk that was allocated is held as well. -/
theorem Sound.add {chunk : Chunk} (sound : session.Sound uses)
    (afterSound : after.Sound more (chunk :: session.chunks))
    (spares : Allocator.Spares session.chunks session.allocator after) :
    Sound more ⟨after, session.held ++ [Holding.fresh chunk]⟩ where
  allocator := by
    apply afterSound.of_perm
    unfold chunks
    rw [List.map_append]
    exact (List.perm_append_singleton chunk _).symm
  holdings other member := by
    rcases List.mem_append.mp member with inHeld | isNew
    · exact (sound.holdings other inHeld).of_spares sound.allocator (List.mem_map_of_mem inHeld)
        (List.mem_map_of_mem inHeld) spares
    · rw [List.mem_singleton.mp isNew]
      exact Holding.sound_fresh after chunk

/-- A session that an operation leaves sound, and of the same dimensions. -/
def Follows (uses : Nat) (session after : Session) : Prop :=
  after.Sound uses ∧ Allocator.Spares [] session.allocator after.allocator

/-- Nothing follows from nothing. -/
theorem Sound.follows (sound : session.Sound uses) : session.Follows uses session :=
  ⟨sound, Allocator.Spares.refl [] session.allocator⟩

/-- Allocating a chunk keeps a session sound. -/
theorem Sound.allocate_ensures {space : Space} {size : Nat} (sound : session.Sound uses)
    (bounded : ¬excuse → session.allocator.Bounded) (few : ¬excuse → uses + 1 < 2 ^ 32)
    (numbers : ¬excuse → ¬(Operation.allocate space size).OutOfNumbers session)
    (valid : ¬excuse → (session.allocator.sizes space).isChunkSize size)
    (short : size ≤ (session.allocator.arena space).list.limit → size < Header.sizeLimit)
    (small : ¬excuse → size < 2 ^ 56) :
    Ensures excuse (session.perform (.allocate space size)) (session.Follows (uses + 1)) := by
  have numbersLeft : ¬excuse → ∀ kind, (session.allocator.sizes space).Suits kind size →
      session.allocator.Opens space kind size →
        (session.allocator.arena space).list.nextIndex + 1 < 2 ^ 32 := by
    intro hard kind suits opens
    by_contra noneLeft
    exact numbers hard ⟨Nat.le_of_not_lt noneLeft, kind, suits, opens⟩
  unfold perform
  apply Ensures.bind (sound.allocator.allocate_ensures bounded (fun hard _ => few hard) numbersLeft
    valid short small)
  rintro ⟨result, after⟩ ⟨spares, kind, _, afterSound⟩
  have dimensions := spares.of_subset (List.nil_subset session.chunks)
  cases result with
  | ok chunk => exact ⟨sound.add afterSound.1 spares, dimensions⟩
  | error failure => exact ⟨sound.keep afterSound.1 spares, dimensions⟩

/-- Putting a chunk back keeps a session sound. -/
theorem Sound.putBack_ensures {index : Nat} (sound : session.Sound uses)
    (bounded : ¬excuse → session.allocator.Bounded) :
    Ensures excuse (session.perform (.putBack index)) (session.Follows uses) := by
  apply withHolding_ensures sound.follows
  rintro front holding back split rfl _
  apply Ensures.bind ((sound.allocator_cons split).putBack_ensures bounded)
  rintro after ⟨afterSound, spares⟩
  exact ⟨sound.remove split afterSound spares, spares.of_subset (List.nil_subset _)⟩

/-- Handing out words of a chunk keeps a session sound. -/
theorem Sound.grant_ensures {index words : Nat} (sound : session.Sound uses) :
    Ensures excuse (session.perform (.grant index words)) (session.Follows uses) := by
  apply withHolding_ensures sound.follows
  rintro front holding back split rfl _
  have first := sound.allocator_cons split
  have isHeld : holding.chunk ∈ holding.chunk :: (front ++ back).map Holding.chunk :=
    List.mem_cons_self
  have member : holding ∈ session.held := by
    rw [split]
    exact List.mem_append_right front List.mem_cons_self
  obtain ⟨node, row, _, _, owned, _, usesLe, _⟩ := first.exists_node isHeld
  have payloadLe := owned.sound.payload_le
  apply Ensures.bind (owned.sound.allocate_ensures (first.stop_lt isHeld))
  rintro (_ | ⟨place, chunk⟩) granted
  · exact sound.follows
  · obtain ⟨rfl, rfl, topLe⟩ := granted
    have rest := Allocator.Spares.refl ((front ++ back).map Holding.chunk) session.allocator
    refine ⟨sound.replace split ?_ rest ((sound.holdings holding member).grant payloadLe),
      Allocator.Spares.refl [] session.allocator⟩
    exact first.rehold (Nat.le_trans payloadLe (Nat.le_add_right _ _)) topLe usesLe

/-- Writing through a chunk keeps a session sound. -/
theorem Sound.write_ensures {index : Nat} {place : Location} {data : List UInt64}
    (sound : session.Sound uses) (allots : ¬excuse → ∀ holding, session.held[index]? = some holding →
      holding.chunk.Allots place data.length) :
    Ensures excuse (session.perform (.write index place data)) (session.Follows uses) := by
  apply withHolding_ensures sound.follows
  rintro front holding back split rfl found
  have member : holding ∈ session.held := by
    rw [split]
    exact List.mem_append_right front List.mem_cons_self
  apply Ensures.bind ((sound.allocator_cons split).writeWords_ensures fun hard =>
    allots hard holding found)
  rintro after ⟨afterSound, spares, allotted, node, node', foundBefore, foundAfter, words⟩
  have stored := (sound.holdings holding member).store allotted foundBefore foundAfter words
  exact ⟨sound.replace split afterSound spares stored, spares.of_subset (List.nil_subset _)⟩

/-- Reading through a chunk changes nothing. -/
theorem Sound.read_ensures {index length : Nat} {place : Location} (sound : session.Sound uses)
    (allots : ¬excuse → ∀ holding, session.held[index]? = some holding →
      holding.chunk.Allots place length) :
    Ensures excuse (session.perform (.read index place length)) (session.Follows uses) := by
  apply withHolding_ensures sound.follows
  rintro front holding back split rfl found
  have member : holding ∈ session.held := by
    rw [split]
    exact List.mem_append_right front List.mem_cons_self
  apply Ensures.bind (sound.allocator.readWords_ensures (List.mem_map_of_mem member) fun hard =>
    allots hard holding found)
  intro _ _
  exact sound.follows

/-- Every operation keeps a session sound, and succeeds where it is allowed, sizes are small, and neither
the uses of a chunk nor the numbers of nodes are used up. -/
theorem Sound.perform_ensures (sound : session.Sound uses)
    (bounded : ¬excuse → session.allocator.Bounded)
    (few : ¬excuse → uses + operation.allocations < 2 ^ 32)
    (numbers : ¬excuse → ¬operation.OutOfNumbers session)
    (allowed : ¬excuse → operation.Allowed session)
    (small : ¬excuse → operation.RequestsBelow (2 ^ 56))
    (short : operation.RequestsBelow Header.sizeLimit ∨
      ∀ space, (session.allocator.arena space).list.limit < Header.sizeLimit) :
    Ensures excuse (session.perform operation) (session.Follows (uses + operation.allocations)) := by
  cases operation with
  | allocate space size =>
    apply sound.allocate_ensures bounded few numbers allowed ?_ small
    intro sizeLe
    rcases short with requested | limited
    · exact requested
    · exact Nat.lt_of_le_of_lt sizeLe (limited space)
  | putBack index => exact sound.putBack_ensures bounded
  | grant index words => exact sound.grant_ensures
  | write index place data => exact sound.write_ensures allowed
  | read index place length => exact sound.read_ensures allowed
  | purge space =>
    apply Ensures.bind sound.allocator.purge_ensures
    rintro ⟨purged, after⟩ ⟨afterSound, spares, _⟩
    exact ⟨sound.keep afterSound spares, spares.of_subset (List.nil_subset _)⟩
  | audit =>
    apply Ensures.bind (sound.allocator.audit_ensures bounded)
    intro _ _
    exact sound.follows

/-- A session that follows one that follows another follows that one. -/
theorem Follows.trans {last : Session} (first : session.Follows uses reached)
    (second : reached.Follows more last) : session.Follows more last :=
  ⟨second.1, first.2.trans second.2⟩

/-- The number of allocations in a run. -/
def allocations (operations : List Operation) : Nat := (operations.map Operation.allocations).sum

/-- Every run keeps a session sound. -/
theorem Sound.run_follows (sound : session.Sound uses) (done : session.run operations = .ok reached)
    (short : (∀ operation ∈ operations, operation.RequestsBelow Header.sizeLimit) ∨
      ∀ space, (session.allocator.arena space).list.limit < Header.sizeLimit) :
    session.Follows (uses + allocations operations) reached := by
  unfold run at done
  induction operations generalizing session uses with
  | nil =>
    cases done
    exact sound.follows
  | cons first rest ih =>
    rw [List.foldlM_cons] at done
    have firstShort : first.RequestsBelow Header.sizeLimit ∨
        ∀ space, (session.allocator.arena space).list.limit < Header.sizeLimit := by
      rcases short with requested | limited
      · exact Or.inl (requested first List.mem_cons_self)
      · exact Or.inr limited
    have step := sound.perform_ensures (absurd trivial) (absurd trivial) (absurd trivial)
      (absurd trivial) (absurd trivial) firstShort
    cases performed : session.perform first with
    | error fault =>
      rw [performed] at done
      cases done
    | ok middle =>
      rw [performed] at done
      have follows := step.of_ok performed
      have restShort : (∀ operation ∈ rest, operation.RequestsBelow Header.sizeLimit) ∨
          ∀ space, (middle.allocator.arena space).list.limit < Header.sizeLimit := by
        rcases short with requested | limited
        · exact Or.inl fun operation member => requested operation (List.mem_cons_of_mem first member)
        · refine Or.inr fun space => ?_
          rw [(follows.2.lists space).limit]
          exact limited space
      have total : uses + allocations (first :: rest) =
          uses + first.allocations + allocations rest := by
        unfold allocations
        rw [List.map_cons, List.sum_cons, Nat.add_assoc]
      rw [total]
      exact follows.trans (ih follows.1 done restShort)

/-- A new session is sound, and its dimensions are those of the options. -/
theorem sound_ofOptions (short : options.ChunkWordsBelow Header.sizeLimit)
    (made : ofOptions options = .ok session) :
    session.Sound 0 ∧ session.allocator.options = options ∧ ∀ bound, options.WordsBelow bound →
      ∀ space, (session.allocator.arena space).list.Within bound := by
  have built : Ensures True (ofOptions options) fun session =>
      session.Sound 0 ∧ session.allocator.options = options ∧ ∀ bound, options.WordsBelow bound →
        ∀ space, (session.allocator.arena space).list.Within bound := by
    unfold ofOptions
    apply Ensures.bind (Allocator.ofOptions_ensures short)
    rintro allocator ⟨sound, same, within⟩
    exact ⟨⟨sound, fun holding member => absurd member List.not_mem_nil⟩, same, within⟩
  exact built.of_ok made

/-- What a run reaches from a new session follows it. All requests must be short, or else no node may
be large enough for one that is not. -/
theorem reached_follows {start : Session} (made : ofOptions options = .ok start)
    (done : start.run operations = .ok reached) (chunkWords : options.ChunkWordsBelow Header.sizeLimit)
    (short : (∀ operation ∈ operations, operation.RequestsBelow Header.sizeLimit) ∨
      options.WordsBelow (2 ^ 55)) :
    start.Follows (allocations operations) reached := by
  obtain ⟨sound, _, within⟩ := sound_ofOptions chunkWords made
  have limited : (∀ operation ∈ operations, operation.RequestsBelow Header.sizeLimit) ∨
      ∀ space, (start.allocator.arena space).list.limit < Header.sizeLimit := by
    rcases short with requested | below
    · exact Or.inl requested
    · exact Or.inr fun space => (within _ below space).limit
  have follows := sound.run_follows done limited
  rw [Nat.zero_add] at follows
  exact follows

/-- A session that a run reaches from a new one is sound, and its dimensions are still those of the
options. -/
theorem reached_sound {start : Session} (made : ofOptions options = .ok start)
    (done : start.run operations = .ok reached) (chunkWords : options.ChunkWordsBelow Header.sizeLimit)
    (short : (∀ operation ∈ operations, operation.RequestsBelow Header.sizeLimit) ∨
      options.WordsBelow (2 ^ 55)) :
    reached.Sound (allocations operations) ∧ reached.allocator.options = options ∧
      ∀ bound, options.WordsBelow bound → ∀ space,
        (reached.allocator.arena space).list.Within bound := by
  obtain ⟨_, isOptions, within⟩ := sound_ofOptions chunkWords made
  obtain ⟨reachedSound, spares⟩ := reached_follows made done chunkWords short
  refine ⟨reachedSound, spares.options.trans isOptions, ?_⟩
  exact fun bound below space => (within bound below space).of_alike (spares.lists space)

end Session

/-- The smallest options have small numbers of words. -/
theorem Options.smallest_wordsBelow : Options.smallest.WordsBelow (2 ^ 55) := by
  intro field _
  cases field <;> decide

end CollectorMemory
