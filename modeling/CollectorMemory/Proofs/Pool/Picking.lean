import CollectorMemory.Proofs.Node.Split
import CollectorMemory.Proofs.Pool.Sound
import CollectorMemory.Proofs.Serving

/-!
# The free chunk that a request picks

A request picks the least free chunk of its kind, which for a humongous one is the least that is large
enough. Where a fixed size has none, the least chunk of the next larger kind that has one is split, and
the part at its start is picked. `Pool.Picks` says which chunk this is and what is free afterwards,
without the lists of the pool.
-/

namespace CollectorMemory

variable {excuse : Prop} {uses : Nat} {sizes : ChunkSizes} {pool after : Pool} {node node' : Node}
  {kind target : Kind} {size : Nat} {chunk area free first larger other : Chunk}
  {chunks pieces rest left : List Chunk} {front back : List Block}

/-- The first chunk in some order of those in a list that pass a test. -/
structure Least (order : Chunk → Chunk → Ordering) (test : Chunk → Prop) (chunks : List Chunk)
    (chunk : Chunk) : Prop where
  /-- The chunk is in the list. -/
  member : chunk ∈ chunks
  /-- The chunk passes the test. -/
  passes : test chunk
  /-- The chunk is before all others that pass the test. -/
  least : ∀ other ∈ chunks, test other → other = chunk ∨ order chunk other = .lt

/-- A chunk that a request can be given as it is: of its kind and, if that is humongous, large
enough. -/
def Chunk.Suffices (kind : Kind) (size : Nat) (chunk : Chunk) : Prop :=
  chunk.kind = kind ∧ (kind = .humongous → size ≤ chunk.size)

/-- The parts of a free chunk that is split for a smaller kind: a chunk of that kind at its start, and
pieces that are each of the largest kind below that of the chunk that is aligned where they start. -/
structure Splits (sizes : ChunkSizes) (target : Kind) (larger first : Chunk)
    (pieces : List Chunk) : Prop where
  /-- The first part is of the target kind. -/
  kind : first.kind = target
  /-- The parts tile the chunk. -/
  tiles : Tiles larger.bottom ((first :: pieces).map Chunk.block) larger.stop
  /-- The parts belong to the node of the chunk. -/
  container : ∀ part ∈ first :: pieces, part.container = larger.container
  /-- The parts are free. -/
  free : ∀ part ∈ first :: pieces, part.isFree = true
  /-- The parts are of fixed sizes. -/
  fixed : ∀ part ∈ first :: pieces, sizes.fixedSize part.kind = .ok part.size
  /-- The parts are aligned to their sizes. -/
  aligned : ∀ part ∈ first :: pieces, part.bottom % part.size = 0
  /-- The pieces are of kinds below that of the chunk. -/
  below : ∀ piece ∈ pieces, piece.kind ∈ larger.kind.below
  /-- No piece could be of a larger kind below that of the chunk. -/
  largest : ∀ piece ∈ pieces, ∀ other size, other ∈ larger.kind.below →
    sizes.fixedSize other = .ok size → piece.bottom % size = 0 → other.code ≤ piece.kind.code

/-- The free chunk that a request picks, the free chunk at whose start it is, and what is left free. -/
inductive Pool.Picks (pool : Pool) (kind : Kind) (size : Nat) : Chunk → Chunk → List Chunk → Prop
  /-- The least chunk that suffices is picked as it is. -/
  | whole {chunk : Chunk} {left : List Chunk}
      (least : Least (Chunk.freeOrder kind) (Chunk.Suffices kind size) pool.chunks chunk)
      (others : pool.chunks.Perm (chunk :: left)) : Picks pool kind size chunk chunk left
  /-- The least chunk of the smallest larger kind that has one is split. -/
  | part {larger first : Chunk} {pieces rest left : List Chunk} (fixed : kind ≠ .humongous)
      (noneThere : ∀ other ∈ pool.chunks, other.kind ≠ kind) (above : larger.kind ∈ kind.above)
      (least : Least (Chunk.freeOrder larger.kind) (fun other => other.kind = larger.kind) pool.chunks
        larger)
      (smallest : ∀ other ∈ pool.chunks, other.kind ∈ kind.above →
        larger.kind.code ≤ other.kind.code)
      (splits : Splits pool.sizes kind larger first pieces)
      (others : pool.chunks.Perm (larger :: rest)) (freed : left.Perm (pieces ++ rest)) :
      Picks pool kind size larger first left

/-- The words of the parts of a chunk are those of the chunk. -/
theorem Splits.words (splits : Splits sizes target larger first pieces) :
    first.size + wordsOf pieces = larger.size := by
  have sum := splits.tiles.sum_size
  have end_ : larger.stop = larger.bottom + larger.size := rfl
  rw [List.map_map] at sum
  change larger.bottom + wordsOf (first :: pieces) = larger.stop at sum
  rw [wordsOf_cons] at sum
  omega

/-- Picking a chunk takes its words out of the pool. -/
theorem Pool.Picks.words (picks : pool.Picks kind size area free left) :
    wordsOf left + free.size = wordsOf pool.chunks := by
  cases picks with
  | whole _ others =>
    rw [wordsOf_perm others, wordsOf_cons]
    omega
  | part _ _ _ _ _ splits others freed =>
    have parts := splits.words
    rw [wordsOf_perm others, wordsOf_perm freed, wordsOf_cons, wordsOf_append]
    omega

/-- A chunk that is picked is of the kind of the request, and large enough if it is humongous. -/
theorem Pool.Picks.suffices (picks : pool.Picks kind size area free left) :
    free.Suffices kind size := by
  cases picks with
  | whole least _ => exact least.passes
  | part fixed _ _ _ _ splits _ _ =>
    exact ⟨splits.kind, fun humongous => absurd humongous fixed⟩

/-- Where a chunk is picked there is one that serves the request. -/
theorem Pool.Picks.serves (picks : pool.Picks kind size area free left) :
    ∃ chunk ∈ pool.chunks, chunk.block.Serves kind size := by
  refine ⟨area, ?_⟩
  cases picks with
  | whole least _ =>
    obtain ⟨isKind, enough⟩ := least.passes
    refine ⟨least.member, ?_⟩
    unfold Block.Serves
    split
    · next humongous => exact ⟨isKind.trans humongous, enough humongous⟩
    · exact List.mem_cons.mpr (Or.inl isKind)
  | part fixed _ above least _ _ _ _ =>
    refine ⟨least.member, ?_⟩
    unfold Block.Serves
    rw [if_neg fixed]
    exact List.mem_cons_of_mem _ above

/-- The parts of a chunk that a node was divided at. -/
theorem Node.Divided.splits (divided : node.Divided node' front back larger first pieces)
    (isKind : first.kind = target) (fixed : target ≠ .humongous)
    (container : larger.container = node.id) :
    Splits node.sizes target larger first pieces := by
  have owned : ∀ part ∈ first :: pieces, node.Owns part := by
    intro part member
    rcases List.mem_cons.mp member with isFirst | inPieces
    · rw [isFirst]
      exact divided.owned
    · exact (divided.isPiece part inPieces).owned
  have notHumongous : ∀ part ∈ first :: pieces, part.kind ≠ .humongous := by
    intro part member
    rcases List.mem_cons.mp member with isFirst | inPieces
    · rw [isFirst, isKind]
      exact fixed
    · exact Kind.ne_humongous_of_mem_below (divided.isPiece part inPieces).below
  exact {
    kind := isKind
    tiles := divided.tiles
    container := fun part member => (owned part member).container.trans container.symm
    free := fun part member => by
      rcases List.mem_cons.mp member with isFirst | inPieces
      · rw [isFirst]
        exact divided.free
      · exact (divided.isPiece part inPieces).free
    fixed := fun part member =>
      (owned part member).sound.block.suits.fixedSize (notHumongous part member)
    aligned := fun part member =>
      (owned part member).sound.block.bottom_aligned (notHumongous part member)
    below := fun piece member => (divided.isPiece piece member).below
    largest := fun piece member => (divided.isPiece piece member).largest }

namespace Pool

/-- The chunk that a test of the list of a kind finds first is the least one of the kind that
passes. -/
theorem Filed.least_takeFirst? {test : Chunk → Bool} (filed : pool.Filed)
    (found : takeFirst? test (pool.ofKind kind) = some (chunk, rest)) :
    Least (Chunk.freeOrder kind) (fun other => other.kind = kind ∧ test other = true) pool.chunks
      chunk := by
  obtain ⟨passes, perm⟩ := takeFirst?_eq_some found
  have inList : chunk ∈ pool.ofKind kind := perm.mem_iff.mpr List.mem_cons_self
  refine ⟨mem_chunks.mpr ⟨kind, inList⟩, ⟨filed.kind kind chunk inList, passes⟩, ?_⟩
  rintro other member ⟨rfl, otherPasses⟩
  exact (filed.ascending other.kind).takeFirst?_least found (filed.mem_ofKind member) otherPasses

/-- The first chunk of the list of a kind is the least one of the kind. -/
theorem Filed.least_head (filed : pool.Filed) (isList : pool.ofKind kind = chunk :: rest) :
    Least (Chunk.freeOrder kind) (fun other => other.kind = kind) pool.chunks chunk := by
  have inList : chunk ∈ pool.ofKind kind := by
    rw [isList]
    exact List.mem_cons_self
  refine ⟨mem_chunks.mpr ⟨kind, inList⟩, filed.kind kind chunk inList, ?_⟩
  rintro other member rfl
  have ascending := filed.ascending other.kind
  have otherInList := filed.mem_ofKind member
  rw [isList] at ascending otherInList
  exact (List.mem_cons.mp otherInList).imp_right ((List.pairwise_cons.mp ascending).1 other)

/-- The chunk that is taken from the first list that has one is the least of its kind, and its kind is
the first of those that are there. -/
theorem Filed.least_firstOf? {kinds : List Kind} (filed : pool.Filed)
    (ordered : kinds.Pairwise fun left right => left.code ≤ right.code)
    (found : pool.firstOf? kinds = some (after, chunk)) :
    Least (Chunk.freeOrder chunk.kind) (fun other => other.kind = chunk.kind) pool.chunks chunk ∧
      ∀ other ∈ pool.chunks, other.kind ∈ kinds → chunk.kind.code ≤ other.kind.code := by
  induction kinds with
  | nil => cases found
  | cons kind larger ih =>
    obtain ⟨least, restOrdered⟩ := List.pairwise_cons.mp ordered
    unfold firstOf? at found
    split at found
    · next head rest isList =>
      cases found
      have isLeast := filed.least_head isList
      have isKind : chunk.kind = kind := isLeast.passes
      rw [isKind]
      refine ⟨isLeast, fun other member inKinds => ?_⟩
      rcases List.mem_cons.mp inKinds with same | above
      · rw [same]
        exact UInt8.le_refl _
      · exact least other.kind above
    · next isEmpty =>
      obtain ⟨isLeast, smallest⟩ := ih restOrdered found
      refine ⟨isLeast, fun other member inKinds => ?_⟩
      rcases List.mem_cons.mp inKinds with same | above
      · have inList := filed.mem_ofKind member
        rw [same, isEmpty] at inList
        exact absurd inList List.not_mem_nil
      · exact smallest other member above

end Pool

end CollectorMemory
