import CollectorMemory.Proofs.Session.Safety
import CollectorMemory.Proofs.Session.Tagging

/-!
# Free flags and the map agree

In every session that is reached by operations and by tagging chunks that are held, the handle of every
such chunk, its header in memory and its granules in the map show the same free flag. A chunk that is
tagged free is still held: neither a free chunk nor another one that is held has any word of it.
-/

namespace CollectorMemory

variable {uses : Nat} {tags : Location → Bool} {options : Options} {operation : Operation}
  {holding : Holding} {plain session start reached after : Session} {index : Nat} {action : Action}
  {actions : List Action}

namespace Session

/-- All chunks that are held agree with memory and the map, and share no word with one another or with a
free chunk. -/
structure Agrees (session : Session) : Prop where
  /-- The chunks agree with memory and the map. -/
  chunks : ∀ chunk ∈ session.chunks, session.allocator.Reflects chunk
  /-- Chunks that are held share no word. -/
  apart : session.chunks.Pairwise Chunk.Apart
  /-- No free chunk shares a word with a chunk that is held. -/
  apartFree : ∀ chunk ∈ session.chunks, ∀ space,
    ∀ free ∈ (session.allocator.arena space).pool.chunks, chunk.Apart free

/-- A chunk that is held can be tagged, and then its flag alone changes: no other handle, no free chunk,
no counter, and no word or mark that belongs to another chunk. -/
def Retags (session : Session) (index : Nat) (inUse : Bool) : Prop :=
  ∀ holding, session.held[index]? = some holding → ∃ after, session.tag index inUse = .ok after ∧
    after.held = session.held.set index (holding.withFree (!inUse)) ∧
    Allocator.Retagged holding.chunk session.allocator after.allocator

/-- A sound and small plain session beside one that differs in the tags alone. -/
structure Beside (uses : Nat) (tags : Location → Bool) (plain session : Session) : Prop where
  /-- The plain session is sound. -/
  sound : plain.Sound uses
  /-- All sums of its dimensions are counts. -/
  bounded : plain.allocator.Bounded
  /-- No node is too large for a header. -/
  limited : ∀ space, (plain.allocator.arena space).list.limit < Header.sizeLimit
  /-- The other session differs in the tags alone. -/
  tagged : plain.Tagged tags session

namespace Beside

/-- The plain session performs what the other one does, except for reading and checking, which change
nothing. -/
theorem perform (beside : Beside uses tags plain session)
    (performed : session.perform operation = .ok after) :
    ∃ more plainAfter, Beside more tags plainAfter after := by
  obtain ⟨sound, bounded, limited, tagged⟩ := beside
  have goesOn : Simulates (Tagged tags) (plain.perform operation) (session.perform operation) →
      ∃ more plainAfter, Beside more tags plainAfter after := by
    intro simulates
    obtain ⟨plainAfter, plainPerformed, taggedAfter⟩ := simulates after performed
    obtain ⟨soundAfter, spares⟩ := (sound.perform_ensures (absurd trivial) (absurd trivial)
      (absurd trivial) (absurd trivial) (absurd trivial) (Or.inr limited)).of_ok plainPerformed
    refine ⟨_, plainAfter, soundAfter, bounded.of_spares spares, ?_, taggedAfter⟩
    intro space
    rw [(spares.lists space).limit]
    exact limited space
  have stays : Ensures True (session.perform operation) (fun after => session = after) →
      ∃ more plainAfter, Beside more tags plainAfter after := by
    intro same
    rw [← same.of_ok performed]
    exact ⟨uses, plain, sound, bounded, limited, tagged⟩
  cases operation with
  | allocate space size => exact goesOn (tagged.allocate sound bounded (limited space))
  | putBack index => exact goesOn (tagged.putBack sound bounded)
  | grant index words => exact goesOn (tagged.grant sound)
  | write index place data => exact goesOn (tagged.write sound)
  | purge space => exact goesOn tagged.purge
  | read index place length =>
    apply stays
    apply withHolding_ensures rfl
    intro front holding back _ _ _
    apply Ensures.bind (ensures_excused _)
    intro _ _
    rfl
  | audit =>
    apply stays
    apply Ensures.bind (ensures_excused _)
    intro _ _
    rfl

/-- A chunk that is held can be tagged, and the plain session stays as it is. -/
theorem exists_tag (beside : Beside uses tags plain session)
    (found : session.held[index]? = some holding) (inUse : Bool) :
    ∃ after, session.tag index inUse = .ok after ∧
      Beside uses (retag tags holding.chunk.place (!inUse)) plain after ∧
      after.held = session.held.set index (holding.withFree (!inUse)) ∧
      Allocator.Retagged holding.chunk session.allocator after.allocator := by
  obtain ⟨sound, bounded, limited, tagged⟩ := beside
  obtain ⟨front, back, split, rfl⟩ := exists_split found
  have member : holding ∈ session.held := List.mem_of_getElem? found
  have tags : Ensures False (session.allocator.setInUse holding.chunk inUse) _ :=
    tagged.allocator.setInUse_ensures sound.allocator (tagged.mem_chunks member)
      (tagged.flags holding member) inUse
  obtain ⟨⟨allocator', chunk⟩, isTagged, isChunk, allocators, retagged⟩ := tags.exists_ok
  cases isChunk
  refine ⟨⟨allocator', session.held.set front.length (holding.withFree (!inUse))⟩, ?_,
    ⟨sound, bounded, limited, ?_⟩, rfl, retagged⟩
  · unfold Session.tag Session.withHolding
    rw [found]
    exact bind_eq_ok_iff.mpr ⟨_, isTagged, rfl⟩
  · -- The plain session has the same holding as before at the position of the chunk.
    have replaced := tagged.replace sound split allocators
      (show (holding.withFree (!inUse)).chunk.place = holding.chunk.place from rfl)
      (retag_self _ holding.chunk.place (!inUse)) fun _ differs => retag_of_ne differs
    have isThere : plain.held[front.length]? = some (holding.withFree false) := by
      rw [tagged.held, List.getElem?_map, found]
      rfl
    obtain ⟨inside, isHolding⟩ := List.getElem?_eq_some_iff.mp isThere
    change Tagged _ ⟨_, plain.held.set front.length (holding.withFree false)⟩ _ at replaced
    rw [← isHolding, List.set_getElem_self] at replaced
    exact replaced

/-- A plain session still stands beside the other one after one thing was done. -/
theorem act (beside : Beside uses tags plain session) (done : session.act action = .ok after) :
    ∃ more tags' plainAfter, Beside more tags' plainAfter after := by
  cases action with
  | operate operation =>
    obtain ⟨more, plainAfter, besideAfter⟩ := beside.perform done
    exact ⟨more, tags, plainAfter, besideAfter⟩
  | tag index inUse =>
    cases found : session.held[index]? with
    | none =>
      change session.tag index inUse = _ at done
      unfold Session.tag Session.withHolding at done
      rw [found] at done
      cases done
      exact ⟨uses, tags, plain, beside⟩
    | some holding =>
      obtain ⟨_, isAfter, besideAfter, _⟩ := beside.exists_tag found inUse
      cases isAfter.symm.trans done
      exact ⟨uses, _, plain, besideAfter⟩

/-- A plain session still stands beside the other one after a run. -/
theorem actAll (beside : Beside uses tags plain session)
    (done : session.actAll actions = .ok reached) :
    ∃ more tags' plainAfter, Beside more tags' plainAfter reached := by
  unfold Session.actAll at done
  induction actions generalizing session uses tags plain with
  | nil =>
    cases done
    exact ⟨uses, tags, plain, beside⟩
  | cons first rest ih =>
    rw [List.foldlM_cons] at done
    obtain ⟨middle, doneFirst, doneRest⟩ := bind_eq_ok_iff.mp done
    obtain ⟨more, tags', plainMiddle, besideMiddle⟩ := beside.act doneFirst
    exact ih besideMiddle doneRest

/-- A session beside which a sound plain one stands agrees with memory and the map. -/
theorem agrees (beside : Beside uses tags plain session) : session.Agrees := by
  obtain ⟨sound, _, _, tagged⟩ := beside
  have plainChunks : plain.chunks = session.chunks.map fun chunk => chunk.withFree false := by
    unfold Session.chunks
    rw [tagged.held, List.map_map, List.map_map]
    rfl
  refine ⟨?_, ?_, ?_⟩
  · intro chunk isHeld
    obtain ⟨holding, member, rfl⟩ := List.mem_map.mp isHeld
    exact tagged.allocator.reflects sound.allocator (tagged.mem_chunks member)
      (tagged.flags holding member)
  · have apart := sound.allocator.pairwise_apart
    rw [plainChunks, List.pairwise_map] at apart
    exact apart
  · intro chunk isHeld space free isFree
    have plainHeld : chunk.withFree false ∈ plain.chunks := by
      rw [plainChunks]
      exact List.mem_map_of_mem isHeld
    rw [(tagged.allocator.arenas space).pool] at isFree
    have apart := sound.allocator.apart_free plainHeld isFree
    exact apart

end Beside

/-- A new session stands beside itself. -/
theorem beside_ofOptions (words : options.WordsBelow (2 ^ 55)) (made : ofOptions options = .ok start) :
    Beside 0 (fun _ => false) start start := by
  have chunkWords : options.ChunkWordsBelow Header.sizeLimit := words.chunkWords (by decide)
  obtain ⟨sound, isOptions, within⟩ := sound_ofOptions chunkWords made
  have granule : start.allocator.options.commitGranuleWords < 2 ^ 55 := by
    rw [isOptions]
    exact words .commitGranuleWords rfl
  exact ⟨sound, Allocator.Bounded.of_within granule (within _ words), fun space =>
    (within _ words space).limit, sound.tagged_self⟩

/-- In every session that is reached by operations and by tagging chunks that are held, the flags of
these chunks agree with memory and the map, and each of them can be tagged as one likes. -/
theorem reached_agrees (words : options.WordsBelow (2 ^ 55)) (made : ofOptions options = .ok start)
    (done : start.actAll actions = .ok reached) :
    reached.Agrees ∧ ∀ index inUse, reached.Retags index inUse := by
  obtain ⟨_, _, _, beside⟩ := (beside_ofOptions words made).actAll done
  refine ⟨beside.agrees, ?_⟩
  intro index inUse holding found
  obtain ⟨after, isAfter, _, held, retagged⟩ := beside.exists_tag found inUse
  exact ⟨after, isAfter, held, retagged⟩

/-- A run in which chunks are tagged free and in use again. While one of them is tagged free, chunks
around it are put back and allocated and a node is reserved; the neighbours that are free are merged and
split again, and the tagged chunk is left alone. -/
def taggings : List Action :=
  [.operate (.allocate .nonClass 3), .operate (.allocate .nonClass 3), .operate (.allocate .nonClass 6),
    .tag 2 false, .operate (.putBack 0), .operate (.allocate .nonClass 12), .tag 1 true,
    .operate (.putBack 0), .tag 0 false, .tag 0 false, .operate (.allocate .nonClass 3),
    .operate (.purge .nonClass)]

/-- After that run one of the three chunks that are held is tagged free. -/
theorem taggings_agree : (Options.smallest.withAudited false).WordsBelow (2 ^ 55) ∧
    ∃ start reached, ofOptions (Options.smallest.withAudited false) = .ok start ∧
      start.actAll taggings = .ok reached ∧
      reached.chunks.map (fun chunk => (chunk.bottom, chunk.size, chunk.isFree)) =
        [(6, 6, true), (0, 12, false), (0, 3, false)] ∧
      reached.Agrees ∧ ∀ index inUse, reached.Retags index inUse := by
  have words : (Options.smallest.withAudited false).WordsBelow (2 ^ 55) := by
    intro field isWords
    rw [Options.count_withAudited]
    exact Options.smallest_wordsBelow field isWords
  have evaluated : (ofOptions (Options.smallest.withAudited false) >>= fun session =>
      session.actAll taggings).toOption.map
        (fun reached => reached.chunks.map fun chunk => (chunk.bottom, chunk.size, chunk.isFree)) =
      some [(6, 6, true), (0, 12, false), (0, 3, false)] := by decide +kernel
  obtain ⟨start, reached, made, done, view⟩ := exists_reached evaluated
  exact ⟨words, start, reached, made, done, view, reached_agrees words made done⟩

end Session

end CollectorMemory
