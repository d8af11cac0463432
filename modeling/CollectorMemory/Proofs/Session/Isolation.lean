import CollectorMemory.Proofs.Session.Sound

/-!
# Isolation of what users hold

Words that were handed out belong to one user alone: no word is handed out twice as long as both chunks
are held, no header is in a range that was handed out, and what was last written through a chunk is what
is read through it. Nothing that is done with other chunks or with free memory in between matters.
-/

namespace CollectorMemory

variable {uses : Nat} {allocator : Allocator} {held : List Chunk} {chunk other : Chunk}
  {holding : Holding} {place : Location}

/-- A range of words that was handed out. -/
structure Grant where
  /-- Where the range begins. -/
  place : Location
  /-- How many words it has. -/
  length : Nat

/-- A word is in a range that was handed out. -/
def Grant.Covers (grant : Grant) (place : Location) : Prop :=
  place.node = grant.place.node ∧ grant.place.offset ≤ place.offset ∧
    place.offset < grant.place.offset + grant.length

/-- The ranges that were handed out from a chunk that is held. -/
def Holding.grants (holding : Holding) : List Grant :=
  holding.granted.map fun range => ⟨⟨holding.chunk.container, range.1⟩, range.2⟩

/-- The ranges that were handed out from all chunks that are held. -/
def Session.grants (session : Session) : List Grant := session.held.flatMap Holding.grants

/-- Two chunks that do not share a word. -/
def Chunk.Apart (chunk other : Chunk) : Prop :=
  chunk.container = other.container → chunk.stop ≤ other.bottom ∨ other.stop ≤ chunk.bottom

/-- Nothing that users hold is disturbed. -/
structure Session.Isolated (session : Session) : Prop where
  /-- No word was handed out twice. -/
  apart : session.grants.Pairwise fun first second => ∀ place, first.Covers place →
    ¬second.Covers place
  /-- No word of a header was handed out, be the chunk held or free. -/
  noHeader : ∀ grant ∈ session.grants, ∀ space,
    ∀ chunk ∈ session.chunks ++ (session.allocator.arena space).pool.chunks, ∀ place,
      place.node = chunk.container → chunk.bottom ≤ place.offset → place.offset < chunk.payload →
        ¬grant.Covers place
  /-- Reading in the allocated part of a chunk gives what was last written there through the chunk. -/
  kept : ∀ holding ∈ session.held, ∀ place length, holding.chunk.Allots place length →
    ∃ words, session.allocator.readWords holding.chunk place length = .ok words ∧
      words.length = length ∧ ∀ index < length, ∀ value,
        holding.written (place.offset + index) = some value → words[index]? = some value

/-- A chunk that is held is apart from all others that are. -/
theorem Allocator.Sound.apart (sound : allocator.Sound uses (chunk :: held)) (member : other ∈ held) :
    chunk.Apart other := by
  intro sameNode
  obtain ⟨node, row, _, _, owned, _, _, settled, inRow⟩ := sound.exists_node List.mem_cons_self
  rw [inSpace_cons_self] at settled
  have inSame : other ∈ inSpace chunk.container.space held :=
    mem_inSpace.mpr ⟨member, by rw [sameNode]⟩
  have container : other.container = node.id := sameNode.symm.trans owned.container
  have otherRow := settled.toStock.mem_row
    (List.mem_append_right _ (List.mem_cons_of_mem chunk inSame)) container
  have notInside := settled.toStock.loose_apart owned.container inSame container
  have nonempty := settled.carved.tiles.bounds inRow
  change 0 ≤ chunk.bottom ∧ chunk.bottom < chunk.stop ∧ _ at nonempty
  by_cases meets : chunk.bottom < other.stop ∧ other.bottom < chunk.stop
  · have same : chunk.block = other.block :=
      settled.carved.tiles.eq_of_meet inRow otherRow meets.1 meets.2
    have sameBottom : chunk.bottom = other.bottom := congrArg Block.bottom same
    exact absurd ⟨Nat.le_of_eq sameBottom, meets.2⟩ notInside
  · omega

/-- All chunks that are held are apart. -/
theorem Allocator.Sound.pairwise_apart (sound : allocator.Sound uses held) :
    held.Pairwise Chunk.Apart := by
  rw [List.pairwise_iff_forall_sublist]
  intro first second sublist
  obtain ⟨most, back, rfl, inMost, inBack⟩ := List.cons_sublist_iff.mp sublist
  obtain ⟨front, middle, rfl⟩ := List.append_of_mem inMost
  have perm : ((front ++ first :: middle) ++ back).Perm (first :: ((front ++ middle) ++ back)) :=
    List.perm_middle.append_right back
  exact (sound.of_perm perm).apart (List.mem_append_right _ (List.singleton_sublist.mp inBack))

/-- The row of the node of a chunk that is held has all chunks of the node, held or free. -/
theorem Allocator.Sound.exists_row (sound : allocator.Sound uses held) (isHeld : chunk ∈ held)
    {space : Space} (isThere : other ∈ held ++ (allocator.arena space).pool.chunks)
    (sameNode : other.container = chunk.container) :
    ∃ node row, Node.Carved node row ∧ chunk.block ∈ row ∧ other.block ∈ row := by
  obtain ⟨node, row, _, _, owned, _, _, settled, inRow⟩ := sound.exists_node isHeld
  have container : other.container = node.id := sameNode.trans owned.container
  have inStock : other ∈ (allocator.arena chunk.container.space).pool.chunks ++
      inSpace chunk.container.space held := by
    rcases List.mem_append.mp isThere with otherHeld | inPool
    · exact List.mem_append_right _ (mem_inSpace.mpr ⟨otherHeld, by rw [sameNode]⟩)
    · have arenaSound := sound.arena space
      obtain ⟨home, inList, isHome⟩ := arenaSound.live other (List.mem_append_left _ inPool)
      have isSpace : chunk.container.space = space := by
        rw [← sameNode, ← isHome]
        exact (arenaSound.ordered.space home inList).trans (sound.space space)
      rw [isSpace]
      exact List.mem_append_left _ inPool
  exact ⟨node, row, settled.carved, inRow, settled.toStock.mem_row inStock container⟩

/-- A chunk that is held is apart from all free ones. -/
theorem Allocator.Sound.apart_free (sound : allocator.Sound uses held) (isHeld : chunk ∈ held)
    {space : Space} (isFree : other ∈ (allocator.arena space).pool.chunks) : chunk.Apart other := by
  intro sameNode
  obtain ⟨node, row, carved, inRow, otherRow⟩ :=
    sound.exists_row isHeld (List.mem_append_right held isFree) sameNode.symm
  obtain ⟨_, _, _, _, _, used, _⟩ := sound.exists_node isHeld
  by_cases meets : chunk.bottom < other.stop ∧ other.bottom < chunk.stop
  · have same : chunk.block = other.block :=
      carved.tiles.eq_of_meet inRow otherRow meets.1 meets.2
    have sameFlag : chunk.isFree = other.isFree := congrArg Block.isFree same
    rw [used, ((sound.arena space).poolSound.holds other isFree).free] at sameFlag
    cases sameFlag
  · omega

/-- The header of a chunk that is held or free is not in the words after the header of a chunk that is
held. -/
theorem Allocator.Sound.header_apart (sound : allocator.Sound uses held) (isHeld : chunk ∈ held)
    {space : Space} (isThere : other ∈ held ++ (allocator.arena space).pool.chunks)
    (sameNode : other.container = chunk.container) {offset : Nat} (lower : other.bottom ≤ offset)
    (upper : offset < other.payload) : ¬(chunk.payload ≤ offset ∧ offset < chunk.stop) := by
  rintro ⟨payloadLe, below⟩
  obtain ⟨node, row, carved, inRow, otherRow⟩ := sound.exists_row isHeld isThere sameNode
  have payload : chunk.payload = chunk.bottom + Header.words := rfl
  have otherPayload : other.payload = other.bottom + Header.words := rfl
  have otherStop : other.stop = other.bottom + other.size := rfl
  have headerLt : Header.words < other.size := (carved.sound _ otherRow).suits.header_lt
  have same : chunk.block = other.block := carved.tiles.eq_of_meet inRow otherRow
    (show chunk.bottom < other.stop by omega) (show other.bottom < chunk.stop by omega)
  have sameBottom : chunk.bottom = other.bottom := congrArg Block.bottom same
  omega

/-- A word in a range that was handed out from a sound holding lies after the header of its chunk. -/
theorem Holding.Sound.bounds (sound : holding.Sound allocator) {grant : Grant}
    (member : grant ∈ holding.grants) (covers : grant.Covers place) :
    place.node = holding.chunk.container ∧ holding.chunk.payload ≤ place.offset ∧
      place.offset < holding.chunk.top := by
  obtain ⟨range, inGranted, rfl⟩ := List.mem_map.mp member
  obtain ⟨sameNode, lower, upper⟩ := covers
  obtain ⟨payloadLe, leTop⟩ := sound.inside range inGranted
  exact ⟨sameNode, Nat.le_trans payloadLe lower, Nat.lt_of_lt_of_le upper leTop⟩

/-- No word was handed out twice from one holding. -/
theorem Holding.Sound.grants_apart (sound : holding.Sound allocator) :
    holding.grants.Pairwise fun first second => ∀ place, first.Covers place →
      ¬second.Covers place := by
  unfold grants
  rw [List.pairwise_map]
  apply sound.apart.imp
  rintro later earlier above place ⟨_, lower, _⟩ ⟨_, _, upper⟩
  change later.1 ≤ place.offset at lower
  change place.offset < earlier.1 + earlier.2 at upper
  omega

namespace Session

variable {options : Options} {session start reached : Session} {operations : List Operation}

/-- The chunk of a holding is held. -/
theorem mem_chunks (member : holding ∈ session.held) : holding.chunk ∈ session.chunks :=
  List.mem_map_of_mem member

/-- The top of a chunk that is held is not past its end. -/
theorem Sound.top_le (sound : session.Sound uses) (member : holding ∈ session.held) :
    holding.chunk.top ≤ holding.chunk.stop := by
  obtain ⟨_, _, _, _, owned, _⟩ := sound.allocator.exists_node (mem_chunks member)
  exact owned.sound.top_le

/-- No word was handed out twice. -/
theorem Sound.grants_apart (sound : session.Sound uses) :
    session.grants.Pairwise fun first second => ∀ place, first.Covers place →
      ¬second.Covers place := by
  unfold grants
  rw [List.pairwise_flatMap]
  refine ⟨fun holding member => (sound.holdings holding member).grants_apart, ?_⟩
  have apart : session.held.Pairwise fun holding other => holding.chunk.Apart other.chunk :=
    List.pairwise_map.mp sound.allocator.pairwise_apart
  apply apart.imp_of_mem
  intro holding other inHeld otherHeld isApart first firstMember second secondMember place
    firstCovers secondCovers
  obtain ⟨node, lower, upper⟩ := (sound.holdings holding inHeld).bounds firstMember firstCovers
  obtain ⟨otherNode, otherLower, otherUpper⟩ :=
    (sound.holdings other otherHeld).bounds secondMember secondCovers
  have topLe := sound.top_le inHeld
  have otherTopLe := sound.top_le otherHeld
  have payload : holding.chunk.payload = holding.chunk.bottom + Header.words := rfl
  have otherPayload : other.chunk.payload = other.chunk.bottom + Header.words := rfl
  have disjoint := isApart (node.symm.trans otherNode)
  omega

/-- A sound session is isolated. -/
theorem Sound.isolated (sound : session.Sound uses) : session.Isolated where
  apart := sound.grants_apart
  noHeader grant member space chunk isThere place sameNode lower upper covers := by
    obtain ⟨holding, isHeld, inGrants⟩ := List.mem_flatMap.mp member
    obtain ⟨node, payloadLe, below⟩ := (sound.holdings holding isHeld).bounds inGrants covers
    have topLe := sound.top_le isHeld
    exact sound.allocator.header_apart (mem_chunks isHeld) isThere (sameNode.symm.trans node) lower
      upper ⟨payloadLe, Nat.lt_of_lt_of_le below topLe⟩
  kept holding member place length allots := by
    have read : Ensures False (session.allocator.readWords holding.chunk place length) fun words =>
        ∃ node, session.allocator.node? holding.chunk.container = some node ∧
          words.length = length ∧ ∀ index < length,
            words[index]? = some (node.words.word (place.offset + index)) :=
      sound.allocator.readWords_ensures (mem_chunks member) fun _ => allots
    obtain ⟨words, done, node, found, sameLength, isRead⟩ := read.exists_ok
    refine ⟨words, done, sameLength, ?_⟩
    intro index below value isWritten
    obtain ⟨_, _, isValue⟩ := (sound.holdings holding member).written node found _ value isWritten
    rw [isRead index below, isValue]

/-- In every session that a run reaches, nothing that users hold is disturbed. -/
theorem reached_isolated (words : options.WordsBelow (2 ^ 55)) (made : ofOptions options = .ok start)
    (done : start.run operations = .ok reached) : reached.Isolated := by
  have chunkWords : options.ChunkWordsBelow Header.sizeLimit := words.chunkWords (by decide)
  obtain ⟨sound, _⟩ := reached_sound made done chunkWords (Or.inr words)
  exact sound.isolated

/-- After the short run four words are handed out, and three of them were written. -/
theorem sample_isolated : ∃ start reached : Session, ofOptions Options.smallest = .ok start ∧
    start.run sample = .ok reached ∧ reached.grants.map Grant.length = [4] ∧
    reached.held.map (fun holding => [2, 3, 4, 5].map holding.written) =
      [[some 7, some 8, some 9, none], [none, none, none, none]] ∧ reached.Isolated := by
  have evaluated : (ofOptions Options.smallest >>= fun session => session.run sample).toOption.map
      (fun reached => (reached.grants.map Grant.length,
        reached.held.map fun holding => [2, 3, 4, 5].map holding.written)) =
      some ([4], [[some 7, some 8, some 9, none], [none, none, none, none]]) := by decide +kernel
  obtain ⟨start, reached, made, done, view⟩ := exists_reached evaluated
  obtain ⟨granted, written⟩ := Prod.mk.inj view
  exact ⟨start, reached, made, done, granted, written,
    reached_isolated Options.smallest_wordsBelow made done⟩

end Session

end CollectorMemory
