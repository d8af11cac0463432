import CollectorMemory.Proofs.Coalesced

/-!
# What serves a request

A request is served from a free block of its kind or of a larger one, or by carving an aligned chunk
where there is room for it. While a node is carved further, its free blocks are merged but never
moved, so its row becomes coarser (`Coarser`). If nothing in a coalesced row serves a request and
there is no room for it, a block of a coarser row that serves it must have been merged across the
old top.
-/

namespace CollectorMemory

/-- An aligned chunk of a kind and a size fits between two offsets. -/
def ChunkSizes.Fits (sizes : ChunkSizes) (kind : Kind) (size low high : Nat) : Prop :=
  Count.nextMultiple low (sizes.alignment kind size) + size ≤ high

instance (sizes : ChunkSizes) (kind : Kind) (size low high : Nat) :
    Decidable (sizes.Fits kind size low high) := inferInstanceAs (Decidable (_ ≤ _))

/-- A block of which a request for a kind and a size can have a part or all: for a humongous chunk a
humongous block that is large enough, for another chunk a block of its kind or of a larger fixed
size. -/
def Block.Serves (kind : Kind) (size : Nat) (block : Block) : Prop :=
  if kind = .humongous then block.kind = .humongous ∧ size ≤ block.size
  else block.kind ∈ kind :: kind.above

instance (kind : Kind) (size : Nat) (block : Block) : Decidable (block.Serves kind size) := by
  unfold Block.Serves
  infer_instance

/-- What a request for a kind and a size asks of a chunk: it is of the kind and large enough, and no
word of it is handed out. -/
structure Chunk.Answers (kind : Kind) (size : Nat) (chunk : Chunk) : Prop where
  /-- The chunk is of the kind. -/
  kind : chunk.kind = kind
  /-- The chunk has as many words at least. -/
  size_le : size ≤ chunk.size
  /-- No word of the chunk is handed out. -/
  empty : chunk.top = chunk.payload

/-- Every block of a later row that starts below an offset starts where a block of the row did, and
if it is humongous it is of the same size as before. -/
def Coarser (row after : List Block) (top : Nat) : Prop :=
  ∀ block ∈ after, block.bottom < top → ∃ old ∈ row, old.bottom = block.bottom ∧
    (block.kind = .humongous → old.kind = .humongous ∧ old.size = block.size)

variable {sizes : ChunkSizes} {row middle after front back area fresh : List Block}
  {block old : Block} {kind : Kind} {size start top stop low high : Nat}

/-- A chunk fits where it can start at some aligned offset. -/
theorem ChunkSizes.Suits.fits (suits : sizes.Suits kind size)
    (aligned : start % sizes.alignment kind size = 0) (lower : low ≤ start)
    (upper : start + size ≤ high) : sizes.Fits kind size low high := by
  have least := Count.nextMultiple_le suits.alignment_pos aligned lower
  unfold Fits
  omega

/-- A row is coarser than itself. -/
theorem Coarser.refl (row : List Block) (top : Nat) : Coarser row row top :=
  fun block member _ => ⟨block, member, rfl, fun humongous => ⟨humongous, rfl⟩⟩

/-- A row that becomes coarser twice becomes coarser. -/
theorem Coarser.trans (first : Coarser row middle low) (second : Coarser middle after high)
    (le : low ≤ high) : Coarser row after low := by
  intro block member below
  obtain ⟨between, inMiddle, sameBottom, sameKind⟩ := second block member (by omega)
  obtain ⟨old, inRow, oldBottom, oldKind⟩ := first between inMiddle (by omega)
  refine ⟨old, inRow, oldBottom.trans sameBottom, ?_⟩
  intro humongous
  obtain ⟨betweenKind, betweenSize⟩ := sameKind humongous
  obtain ⟨isHumongous, sameSize⟩ := oldKind betweenKind
  exact ⟨isHumongous, sameSize.trans betweenSize⟩

/-- A row is as coarse with blocks at its end. -/
theorem Coarser.of_append (above : ∀ block ∈ fresh, top ≤ block.bottom) :
    Coarser row (row ++ fresh) top := by
  intro block member below
  rcases List.mem_append.mp member with inRow | inFresh
  · exact Coarser.refl row top block inRow below
  · have := above block inFresh
    omega

/-- A row becomes coarser where the blocks of an area are replaced by one that starts there. -/
theorem Coarser.of_replace (inArea : old ∈ area) (bottom : old.bottom = block.bottom)
    (same : block.kind = .humongous → old.kind = .humongous ∧ old.size = block.size) :
    Coarser (front ++ area ++ back) (front ++ [block] ++ back) top := by
  intro other member below
  rcases List.mem_append.mp member with inMost | inBack
  · rcases List.mem_append.mp inMost with inFront | isBlock
    · exact ⟨other, List.mem_append_left _ (List.mem_append_left _ inFront), rfl,
        fun humongous => ⟨humongous, rfl⟩⟩
    · rw [List.mem_singleton.mp isBlock]
      exact ⟨old, List.mem_append_left _ (List.mem_append_right _ inArea), bottom, same⟩
  · exact ⟨other, List.mem_append_right _ inBack, rfl, fun humongous => ⟨humongous, rfl⟩⟩

/-- A kind that is neither humongous nor serves another kind is below it. -/
theorem Kind.code_lt_of_not_mem_above {other : Kind} (fixed : kind ≠ .humongous)
    (otherFixed : other ≠ .humongous) (below : other ∉ kind :: kind.above) :
    other.code < kind.code := by
  cases kind <;> cases other <;> simp [Kind.above, Kind.code] at fixed otherFixed below ⊢

/-- A sound block that serves a request starts where a chunk of that kind can, and is large enough.
-/
theorem Block.Serves.aligned (serves : block.Serves kind size) (sound : block.Sound sizes)
    (suits : sizes.Suits kind size) :
    block.bottom % sizes.alignment kind size = 0 ∧ size ≤ block.size ∧
      (kind ≠ .humongous → block.kind ≠ .humongous ∧ size ∣ block.size) := by
  unfold Block.Serves at serves
  by_cases humongous : kind = .humongous
  · subst humongous
    rw [if_pos rfl] at serves
    have aligned := sound.aligned
    rw [serves.1] at aligned
    exact ⟨aligned, serves.2, fun fixed => absurd rfl fixed⟩
  · rw [if_neg humongous] at serves
    have fixed : block.kind ≠ .humongous ∧ kind.code ≤ block.kind.code := by
      cases kind <;> cases isKind : block.kind <;> simp [isKind, Kind.above, Kind.code] at serves ⊢
      exact humongous rfl
    have nested := ChunkSizes.dvd_of_code_le (suits.fixedSize humongous)
      (sound.suits.fixedSize fixed.1) fixed.2
    have blockAligned := Nat.dvd_of_mod_eq_zero (sound.bottom_aligned fixed.1)
    have positive : 0 < block.size := by
      have headerLt := sound.suits.header_lt
      omega
    rw [ChunkSizes.alignment_eq humongous]
    exact ⟨Nat.mod_eq_zero_of_dvd (Nat.dvd_trans nested blockAligned), Nat.le_of_dvd positive nested,
      fun _ => ⟨fixed.1, nested⟩⟩

/-- A row before and after more words were carved and free blocks were merged: blocks in use stay,
and the row becomes coarser below its old top. -/
structure Grown (sizes : ChunkSizes) (row : List Block) (top : Nat) (after : List Block)
    (stop : Nat) : Prop where
  /-- The row tiles the words that were carved before. -/
  tiles : Tiles 0 row top
  /-- The later row tiles the words that are carved then. -/
  afterTiles : Tiles 0 after stop
  /-- No word is given back. -/
  le : top ≤ stop
  /-- The blocks are sound. -/
  sound : ∀ block ∈ row, block.Sound sizes
  /-- The later blocks are sound. -/
  afterSound : ∀ block ∈ after, block.Sound sizes
  /-- Blocks in use stay. -/
  kept : ∀ block ∈ row, block.isFree = false → block ∈ after
  /-- The row becomes coarser. -/
  coarser : Coarser row after top

namespace Grown

/-- What a free block of the later row meets was free before. -/
theorem free_of_meet (grown : Grown sizes row top after stop) (member : block ∈ after)
    (free : block.isFree = true) (inRow : old ∈ row) (oldFirst : old.bottom < block.stop)
    (blockFirst : block.bottom < old.stop) : old.isFree = true := by
  by_contra notFree
  have used : old.isFree = false := by simpa using notFree
  have same := grown.afterTiles.eq_of_meet (grown.kept old inRow used) member oldFirst blockFirst
  rw [same] at used
  exact Bool.false_ne_true (used.symm.trans free)

/-- Where a block of the later row starts below the old top, so did a block of the row. -/
theorem bottom_bound (grown : Grown sizes row top after stop) (member : block ∈ after)
    (below : block.bottom < top) : IsBound row top block.bottom := by
  obtain ⟨old, inRow, bottom, _⟩ := grown.coarser block member below
  exact Or.inr ⟨old, inRow, bottom⟩

/-- Where a block of the later row ends below the old top, a block of the row started. -/
theorem stop_bound (grown : Grown sizes row top after stop) (member : block ∈ after)
    (below : block.stop < top) : IsBound row top block.stop := by
  have le := grown.le
  have nonempty := (grown.afterTiles.bounds member).2.1
  obtain ⟨next, inAfter, lower, upper⟩ :=
    grown.afterTiles.cover (Nat.zero_le block.stop) (show block.stop < stop by omega)
  have starts : next.bottom = block.stop := by
    by_contra differs
    have same := grown.afterTiles.eq_of_meet inAfter member (by omega) (by omega)
    rw [same] at upper
    omega
  rw [← starts]
  exact grown.bottom_bound inAfter (by omega)

/-- A block of the row that meets one of the later row lies in it, if that one starts below the old
top. -/
theorem enclosed (grown : Grown sizes row top after stop) (member : block ∈ after)
    (below : block.bottom < top) (inRow : old ∈ row) (oldFirst : old.bottom < block.stop)
    (blockFirst : block.bottom < old.stop) :
    block.bottom ≤ old.bottom ∧ old.stop ≤ block.stop := by
  have inside := grown.tiles.bounds inRow
  have lower := grown.tiles.bound_apart (grown.bottom_bound member below) inRow
  rcases Nat.lt_trichotomy block.stop top with before | atTop | after
  · have upper := grown.tiles.bound_apart (grown.stop_bound member before) inRow
    omega
  · omega
  · omega

/-- Where nothing in the row serves a request for a fixed size, a free block that serves it later is
made of free blocks of smaller kinds. -/
theorem lesser_of_meet (grown : Grown sizes row top after stop) (suits : sizes.Suits kind size)
    (noneServes : ∀ block ∈ row, block.isFree = true → ¬block.Serves kind size)
    (fixed : kind ≠ .humongous) (member : block ∈ after) (free : block.isFree = true)
    (serves : block.Serves kind size) (below : block.bottom < top) (inRow : old ∈ row)
    (oldFirst : old.bottom < block.stop) (blockFirst : block.bottom < old.stop) :
    old.kind ≠ .humongous ∧ old.kind.code < kind.code := by
  have oldFree := grown.free_of_meet member free inRow oldFirst blockFirst
  have inside := grown.enclosed member below inRow oldFirst blockFirst
  have sound := grown.afterSound block member
  have blockFixed := ((serves.aligned sound suits).2.2 fixed).1
  have blockLe := ChunkSizes.le_medium_of_fixedSize (sound.suits.fixedSize blockFixed)
  have oldFixed : old.kind ≠ .humongous := by
    intro humongous
    have oldSuits := (grown.sound old inRow).suits
    rw [humongous] at oldSuits
    have above : sizes.medium < old.size := oldSuits.1
    unfold Block.stop at inside
    omega
  refine ⟨oldFixed, Kind.code_lt_of_not_mem_above fixed oldFixed ?_⟩
  have refused := noneServes old inRow oldFree
  unfold Block.Serves at refused
  rw [if_neg fixed] at refused
  exact refused

/-- Under the same conditions, an area of the size of the request at the start of such a block could
be merged before, unless it crosses the old top. -/
theorem mergeable (grown : Grown sizes row top after stop) (suits : sizes.Suits kind size)
    (noneServes : ∀ block ∈ row, block.isFree = true → ¬block.Serves kind size)
    (fixed : kind ≠ .humongous) (member : block ∈ after) (free : block.isFree = true)
    (serves : block.Serves kind size) (below : block.bottom < top)
    (inside : block.bottom + size ≤ top) : Mergeable row top block.bottom size := by
  obtain ⟨aligned, sizeLe, _⟩ := serves.aligned (grown.afterSound block member) suits
  rw [ChunkSizes.alignment_eq fixed] at aligned
  have end_ : block.stop = block.bottom + block.size := rfl
  have headerLt := suits.header_lt
  refine ⟨inside, grown.bottom_bound member below, ?_, ?_⟩
  · rcases Nat.lt_or_eq_of_le inside with before | atTop
    · obtain ⟨old, inRow, lower, upper⟩ := grown.tiles.cover (Nat.zero_le _) before
      by_contra notBound
      have differs : old.bottom ≠ block.bottom + size := fun same =>
        notBound (Or.inr ⟨old, inRow, same⟩)
      obtain ⟨oldFixed, lesser⟩ := grown.lesser_of_meet suits noneServes fixed member free serves
        below inRow (by omega) (by omega)
      have oldSound := grown.sound old inRow
      have oldFits := ChunkSizes.fits_of_aligned (oldSound.suits.fixedSize oldFixed)
        (suits.fixedSize fixed) (UInt8.le_of_lt lesser) (oldSound.bottom_aligned oldFixed)
        (show (block.bottom + size) % size = 0 by rw [Nat.add_mod_right]; exact aligned) (by omega)
      unfold Block.stop at upper
      omega
    · exact Or.inl atTop
  · intro old inRow oldFirst blockFirst
    exact grown.free_of_meet member free inRow (by omega) blockFirst

/-- Where nothing in a coalesced row serves a request and there is no room for it, a free block that
serves it later has exactly its size and was merged across the old top. -/
theorem straddles (grown : Grown sizes row top after stop) (coalesced : Coalesced sizes row top)
    (suits : sizes.Suits kind size)
    (noneServes : ∀ block ∈ row, block.isFree = true → ¬block.Serves kind size)
    (noRoom : ¬sizes.Fits kind size top stop) (member : block ∈ after) (free : block.isFree = true)
    (serves : block.Serves kind size) :
    block.size = size ∧ block.bottom < top ∧ top < block.stop := by
  obtain ⟨aligned, sizeLe, nested⟩ := serves.aligned (grown.afterSound block member) suits
  have headerLt := suits.header_lt
  have inside := grown.afterTiles.bounds member
  have end_ : block.stop = block.bottom + block.size := rfl
  have below : block.bottom < top := by
    by_contra above
    exact noRoom (suits.fits aligned (by omega) (by omega))
  by_cases humongous : kind = .humongous
  · subst humongous
    obtain ⟨isHumongous, enough⟩ := serves
    obtain ⟨old, inRow, bottom, same⟩ := grown.coarser block member below
    obtain ⟨oldHumongous, sameSize⟩ := same isHumongous
    have oldInside := (grown.tiles.bounds inRow).2.1
    have oldFree := grown.free_of_meet member free inRow (by omega) (by omega)
    exact absurd ⟨oldHumongous, by omega⟩ (noneServes old inRow oldFree)
  · obtain ⟨_, divides⟩ := nested humongous
    have crosses : top < block.bottom + size := by
      by_contra notCrossing
      have mergeable := grown.mergeable suits noneServes humongous member free serves below (by omega)
      obtain ⟨first, inRow, bottom, _⟩ := grown.coarser block member below
      have firstInside := (grown.tiles.bounds inRow).2.1
      have lesser := (grown.lesser_of_meet suits noneServes humongous member free serves below inRow
        (by omega) (by omega)).2
      have target : kind = .small ∨ kind = .medium := by
        cases kind with
        | specialized => cases isKind : first.kind <;> simp [isKind, Kind.code] at lesser
        | small => exact Or.inl rfl
        | medium => exact Or.inr rfl
        | humongous => exact absurd rfl humongous
      rw [ChunkSizes.alignment_eq humongous] at aligned
      obtain ⟨found, inRow, foundBottom, isKind⟩ :=
        coalesced kind block.bottom size ⟨target, suits.fixedSize humongous, aligned⟩ mergeable
      have foundInside := (grown.tiles.bounds inRow).2.1
      apply noneServes found inRow (mergeable.free found inRow (by omega) (by omega))
      unfold Block.Serves
      rw [if_neg humongous, isKind]
      exact List.mem_cons_self
    refine ⟨?_, below, by omega⟩
    -- A larger block would leave room behind its first part.
    by_contra differs
    obtain ⟨count, isCount⟩ := divides
    have twice : 2 * size ≤ block.size := by
      rw [isCount, Nat.mul_comm]
      apply Nat.mul_le_mul_left
      by_contra few
      have : count = 0 ∨ count = 1 := by omega
      rcases this with none_ | one
      · rw [none_] at isCount
        omega
      · rw [one, Nat.mul_one] at isCount
        exact differs isCount
    have next : (block.bottom + size) % sizes.alignment kind size = 0 := by
      rw [ChunkSizes.alignment_eq humongous] at aligned ⊢
      rw [Nat.add_mod_right]
      exact aligned
    exact noRoom (suits.fits next (by omega) (by omega))

end Grown

end CollectorMemory
