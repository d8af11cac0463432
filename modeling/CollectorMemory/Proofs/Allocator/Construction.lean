import CollectorMemory.Proofs.Allocator.Sound

/-!
# Construction of an allocator

An allocator that could be made from options is sound before any chunk is held. Its dimensions are
those of the options, rounded up to granules, so they are small where the options are.
-/

namespace CollectorMemory

variable {options : Options} {space : Space} {bound : Nat}

/-- Whether an option is the size of a chunk. -/
def CountField.isChunkWords : CountField → Bool
  | specializedChunkWords | smallChunkWords | mediumChunkWords => true
  | classSpecializedChunkWords | classSmallChunkWords | classMediumChunkWords => true
  | _ => false

/-- Whether an option is a number of words. -/
def CountField.isWords : CountField → Bool
  | nodeWords | maxWords | classSpaceWords | commitGranuleWords => true
  | field => field.isChunkWords

/-- All chunk sizes are below a bound. -/
def Options.ChunkWordsBelow (options : Options) (bound : Nat) : Prop :=
  ∀ field : CountField, field.isChunkWords = true → options.count field < bound

/-- All numbers of words are below a bound. -/
def Options.WordsBelow (options : Options) (bound : Nat) : Prop :=
  ∀ field : CountField, field.isWords = true → options.count field < bound

/-- Chunk sizes are numbers of words. -/
theorem Options.WordsBelow.chunkWords {larger : Nat} (below : options.WordsBelow bound)
    (le : bound ≤ larger) : options.ChunkWordsBelow larger := by
  intro field isChunk
  have isWords : field.isWords = true := by
    cases field <;> first | exact isChunk | exact absurd isChunk Bool.false_ne_true
  exact Nat.lt_of_lt_of_le (below field isWords) le

/-- The option that is the largest fixed chunk size of a space. -/
def CountField.medium : Space → CountField
  | .nonClass => mediumChunkWords
  | .classOnly => classMediumChunkWords

/-- The sizes that are made from three numbers are these numbers. -/
theorem ChunkSizes.ofWords_ensures {specialized small medium : Nat} :
    Ensures True (ChunkSizes.ofWords specialized small medium) fun sizes =>
      sizes.medium = medium := by
  unfold ChunkSizes.ofWords
  split
  · split
    · split
      · rfl
      · trivial
    · trivial
  · trivial

/-- The chunk sizes of a space are those of the options. -/
theorem ChunkSizes.ofOptions_ensures : Ensures True (ChunkSizes.ofOptions options space)
    fun sizes => sizes.medium = options.count (.medium space) := by
  cases space with
  | nonClass => exact ChunkSizes.ofWords_ensures
  | classOnly => exact ChunkSizes.ofWords_ensures

/-- Dimensions of a node list that follow options whose numbers of words are below a bound. -/
structure NodeList.Within (list : NodeList) (bound : Nat) : Prop where
  /-- The largest fixed size is below the bound. -/
  medium : list.sizes.medium < bound
  /-- The granule is below the bound. -/
  granule : list.granule < bound
  /-- New nodes are below the bound, up to a granule. -/
  nodeWords : list.nodeWords < bound + bound
  /-- The limit is below the bound, up to a granule. -/
  limit : list.limit < bound + bound

/-- A list that stays alike stays within its bound. -/
theorem NodeList.Within.of_alike {list list' : NodeList} (within : list.Within bound)
    (alike : list.Alike list') : list'.Within bound where
  medium := by rw [alike.sizes]; exact within.medium
  granule := by rw [alike.granule]; exact within.granule
  nodeWords := by rw [alike.nodeWords]; exact within.nodeWords
  limit := by rw [alike.limit]; exact within.limit

/-- The dimensions of a space are those of the options, up to a granule. A node of the class space is of
the size of the limit. -/
theorem NodeList.dimensions_ensures :
    Ensures True (NodeList.dimensions options space) fun (nodeWords, limit) =>
      0 < options.commitGranuleWords ∧ (space.isClass = true → nodeWords = limit) ∧
        ∀ bound, options.WordsBelow bound → nodeWords < bound + bound ∧ limit < bound + bound := by
  cases space with
  | nonClass =>
    unfold NodeList.dimensions
    apply Ensures.bind (Count.roundUp_ensures (absurd trivial) (absurd trivial))
    rintro words ⟨positive, _, _, wordsLt, _⟩
    refine ⟨positive, nofun, fun bound below => ?_⟩
    have nodeWords : options.nodeWords < bound := below .nodeWords rfl
    have maxWords : options.maxWords < bound := below .maxWords rfl
    have granule : options.commitGranuleWords < bound := below .commitGranuleWords rfl
    omega
  | classOnly =>
    unfold NodeList.dimensions
    apply Ensures.bind (Count.roundUp_ensures (absurd trivial) (absurd trivial))
    rintro words ⟨positive, _, _, wordsLt, _⟩
    refine ⟨positive, fun _ => rfl, fun bound below => ?_⟩
    have classSpaceWords : options.classSpaceWords < bound := below .classSpaceWords rfl
    have granule : options.commitGranuleWords < bound := below .commitGranuleWords rfl
    omega

/-- An arena without nodes is sound. -/
theorem Arena.sound_empty {list : NodeList} {audited : Bool} (none_ : list.nodes = #[])
    (short : list.sizes.medium < Header.sizeLimit) (positive : 0 < list.granule)
    (whole : list.granule % list.sizes.specialized = 0) :
    Arena.Sound 0 ⟨list, Pool.empty list.space.isClass list.sizes audited⟩ [] := by
  have noNode : ∀ node, node ∉ list.nodes.toList := by
    intro node
    rw [none_]
    exact List.not_mem_nil
  have noChunk : (Pool.empty list.space.isClass list.sizes audited).chunks ++ [] = [] := rfl
  exact {
    ordered := ⟨fun node member => absurd member (noNode node), by rw [none_]; exact List.Pairwise.nil⟩
    numbered := fun node member => absurd member (noNode node)
    nodeSizes := fun node member => absurd member (noNode node)
    short := short
    granule_pos := positive
    granule_whole := whole
    limited := by
      unfold NodeList.total
      rw [none_]
      exact Nat.zero_le _
    poolSound := Pool.sound_empty 0 _ _ _
    poolSizes := rfl
    poolClass := rfl
    live := by
      intro chunk member
      rw [noChunk] at member
      exact absurd member List.not_mem_nil
    settled := fun node member => absurd member (noNode node) }

/-- The node list of a space under some options, with an empty pool, is sound, and a class space has its
node. -/
theorem NodeList.ofOptions_ensures (audited : Bool)
    (short : options.count (.medium space) < Header.sizeLimit) :
    Ensures True (NodeList.ofOptions space options).outcome fun list =>
      Arena.Sound 0 ⟨list, Pool.empty space.isClass list.sizes audited⟩ [] ∧ list.space = space ∧
        list.nextIndex ≤ 1 ∧ list.Whole ∧
          ∀ bound, options.WordsBelow bound → list.Within bound := by
  unfold NodeList.ofOptions
  refine Ensures.bindRun ChunkSizes.ofOptions_ensures ?_
  intro sizes isMedium
  dsimp only
  refine Ensures.bindRun (ensures_require (absurd trivial)) ?_
  intro _ whole
  refine Ensures.bindRun NodeList.dimensions_ensures ?_
  rintro ⟨nodeWords, limit⟩ ⟨positive, oneNode, dimensions⟩
  dsimp only
  have empty : Arena.Sound 0 ⟨⟨space, sizes, options.audited, #[], 0, nodeWords, limit,
      options.commitGranuleWords⟩, Pool.empty space.isClass sizes audited⟩ [] :=
    Arena.sound_empty rfl (by rw [isMedium]; exact short) positive (beq_iff_eq.mp whole)
  have within : ∀ bound, options.WordsBelow bound → NodeList.Within ⟨space, sizes, options.audited,
      #[], 0, nodeWords, limit, options.commitGranuleWords⟩ bound := by
    intro bound below
    obtain ⟨nodeWordsLt, limitLt⟩ := dimensions bound below
    have mediumLt : options.count (.medium space) < bound := by
      apply below
      cases space <;> rfl
    exact ⟨by rw [isMedium]; exact mediumLt, below .commitGranuleWords rfl, nodeWordsLt, limitLt⟩
  refine Ensures.bindRun (empty.reserve_ensures (absurd trivial) (absurd trivial)) ?_
  rintro (_ | list) reserved
  · refine ensures_note ?_
    refine ⟨empty, rfl, Nat.zero_le _, fun isClass => ?_, within⟩
    rcases reserved with ⟨_, notEmpty⟩ | beyond
    · exact absurd rfl notEmpty
    · have small : limit < 0 + nodeWords := beyond
      have same := oneNode isClass
      omega
  · obtain ⟨follows, _, _, node, nodes, nodeReserved, _⟩ := reserved
    have alike := follows.spares.list
    have sameSizes : list.sizes = sizes := alike.sizes
    have sameLimit : list.limit = limit := alike.limit
    have whole : list.Whole := by
      intro isClass
      unfold NodeList.isClass at isClass
      rw [alike.space] at isClass
      exact ⟨node, nodes, by rw [nodeReserved, oneNode isClass, sameLimit]⟩
    refine ⟨?_, alike.space, follows.number, whole, fun bound below =>
      (within bound below).of_alike alike⟩
    rw [sameSizes]
    exact follows.sound

/-- The arena of a space under some options is sound. -/
theorem Arena.ofOptions_ensures (short : options.count (.medium space) < Header.sizeLimit) :
    Ensures True (Arena.ofOptions space options).outcome fun arena =>
      Arena.Sound 0 arena [] ∧ arena.list.space = space ∧ arena.list.nextIndex ≤ 1 ∧
        arena.list.Whole ∧ ∀ bound, options.WordsBelow bound → arena.list.Within bound := by
  unfold Arena.ofOptions
  refine Ensures.bindRun (NodeList.ofOptions_ensures options.audited short) ?_
  rintro list built
  exact built

/-- An allocator that was made from options is sound, and its dimensions are small where the options
are. -/
theorem Allocator.ofOptions_ensures (short : options.ChunkWordsBelow Header.sizeLimit) :
    Ensures True (Allocator.ofOptions options).outcome fun allocator =>
      allocator.Sound 0 [] ∧ allocator.options = options ∧ ∀ bound, options.WordsBelow bound →
        ∀ space, (allocator.arena space).list.Within bound := by
  unfold Allocator.ofOptions
  refine Ensures.bindRun (Arena.ofOptions_ensures (short .mediumChunkWords rfl)) ?_
  rintro nonClass ⟨firstSound, firstSpace, firstNumber, firstWhole, firstWithin⟩
  refine Ensures.bindRun (Arena.ofOptions_ensures (short .classMediumChunkWords rfl)) ?_
  rintro classOnly ⟨secondSound, secondSpace, secondNumber, secondWhole, secondWithin⟩
  refine ensures_note ?_
  refine ⟨⟨?_, ?_, ?_, ?_⟩, rfl, ?_⟩
  · rintro (_ | _)
    · exact firstSpace
    · exact secondSpace
  · rintro (_ | _)
    · exact firstWhole
    · exact secondWhole
  · rintro (_ | _)
    · exact firstNumber
    · exact secondNumber
  · rintro (_ | _)
    · exact firstSound
    · exact secondSound
  · rintro bound below (_ | _)
    · exact firstWithin bound below
    · exact secondWithin bound below

end CollectorMemory
