import CollectorMemory.Proofs.Tiling

/-!
# Coalesced rows

An area of the size of a small or a medium chunk, aligned to that size, can be merged if it begins
and ends at bounds of a row and meets free blocks only. A row is coalesced if every such area is a
single block of that kind already. Where a block becomes free, only areas around it can become
mergeable, so a row stays coalesced except at an offset of that block until these areas were looked
at (`CoalescedExceptAt`).
-/

namespace CollectorMemory

/-- An aligned area of the size of a small or a medium chunk. -/
structure Area (sizes : ChunkSizes) (kind : Kind) (start size : Nat) : Prop where
  /-- Specialized and humongous chunks are not merged into. -/
  target : kind = .small ∨ kind = .medium
  /-- The size is that of the kind. -/
  fixed : sizes.fixedSize kind = .ok size
  /-- The area is aligned to its size. -/
  aligned : start % size = 0

/-- An area that begins and ends at bounds of a row and meets free blocks only. -/
structure Mergeable (row : List Block) (top start size : Nat) : Prop where
  /-- The area is carved. -/
  inside : start + size ≤ top
  /-- The area begins at a bound. -/
  start_bound : IsBound row top start
  /-- The area ends at a bound. -/
  stop_bound : IsBound row top (start + size)
  /-- The area meets free blocks only. -/
  free : ∀ block ∈ row, block.bottom < start + size → start < block.stop → block.isFree = true

/-- Every area that can be merged and does not contain an offset is a single block. -/
def CoalescedExceptAt (sizes : ChunkSizes) (row : List Block) (top offset : Nat) : Prop :=
  ∀ kind start size, Area sizes kind start size → Mergeable row top start size →
    ¬(start ≤ offset ∧ offset < start + size) →
      ∃ block ∈ row, block.bottom = start ∧ block.kind = kind

/-- Every area that can be merged is a single block. -/
def Coalesced (sizes : ChunkSizes) (row : List Block) (top : Nat) : Prop :=
  ∀ kind start size, Area sizes kind start size → Mergeable row top start size →
    ∃ block ∈ row, block.bottom = start ∧ block.kind = kind

/-- No area around an offset that is of a larger kind than some kind can be merged. -/
def NoneLarger (sizes : ChunkSizes) (row : List Block) (top offset : Nat) (kind : Kind) : Prop :=
  ∀ larger size, Area sizes larger (offset / size * size) size → kind.code < larger.code →
    ¬Mergeable row top (offset / size * size) size

variable {sizes : ChunkSizes} {row front back area fresh : List Block} {block : Block}
  {kind : Kind} {start size top low high offset : Nat}

/-- The size of an area is that of its kind. -/
theorem Area.suits (isArea : Area sizes kind start size) : sizes.Suits kind size :=
  ChunkSizes.suits_of_fixedSize isArea.fixed

/-- A chunk of the kind of an area has its size. -/
theorem Area.eq_size {other : Nat} (isArea : Area sizes kind start size)
    (suits : sizes.Suits kind other) : other = size :=
  Except.ok.inj
    ((suits.fixedSize (ChunkSizes.ne_humongous_of_fixedSize isArea.fixed)).symm.trans isArea.fixed)

/-- Areas are not empty. -/
theorem Area.positive (isArea : Area sizes kind start size) : 0 < size :=
  sizes.pos_of_fixedSize isArea.fixed

/-- No area is larger than a medium chunk. -/
theorem Area.le_medium (isArea : Area sizes kind start size) : size ≤ sizes.medium :=
  ChunkSizes.le_medium_of_fixedSize isArea.fixed

/-- An area starts where a chunk of its kind can start. -/
theorem Area.alignment (isArea : Area sizes kind start size) :
    start % sizes.alignment kind size = 0 := by
  rw [ChunkSizes.alignment_of_fixedSize isArea.fixed]
  exact isArea.aligned

/-- A kind above the small one that areas can have is the medium one. -/
theorem Area.eq_medium (isArea : Area sizes kind start size)
    (above : Kind.small.code < kind.code) : kind = .medium := by
  rcases isArea.target with small | medium
  · rw [small] at above
    exact absurd above (by decide)
  · exact medium

/-- No kind that areas can have is above the medium one. -/
theorem Area.not_above {other : Kind} (isArea : Area sizes kind start size)
    (least : Kind.medium.code ≤ other.code) : ¬other.code < kind.code := by
  have most : kind.code ≤ Kind.medium.code := by
    rcases isArea.target with small | medium
    · rw [small]
      decide
    · rw [medium]
      decide
  exact UInt8.not_lt.mpr (UInt8.le_trans most least)

/-- Of two aligned ranges that meet, the one of the finer size lies in the other one. -/
theorem aligned_nested {coarse other : Nat} (nested : size ∣ coarse) (aligned : size ∣ start)
    (otherAligned : coarse ∣ other) (startFirst : start < other + coarse)
    (otherFirst : other < start + size) : other ≤ start ∧ start + size ≤ other + coarse := by
  have otherFine := Nat.dvd_trans nested otherAligned
  have lower : other ≤ start := Nat.le_of_lt_add_of_dvd otherFirst otherFine aligned
  have upper : start + size ≤ other + coarse :=
    Nat.le_of_lt_add_of_dvd (show start + size < other + coarse + size by omega)
      (Nat.dvd_add aligned (Nat.dvd_refl size)) (Nat.dvd_add otherFine nested)
  exact ⟨lower, upper⟩

/-- The aligned range around an offset is the one that starts where the offset is rounded down to. -/
theorem eq_div_mul_of_aligned (aligned : start % size = 0) (lower : start ≤ offset)
    (upper : offset < start + size) : start = offset / size * size := by
  obtain ⟨count, rfl⟩ := Nat.dvd_of_mod_eq_zero aligned
  have quotient : offset / size = count := by
    apply Nat.div_eq_of_lt_le
    · rw [Nat.mul_comm]
      exact lower
    · rw [Nat.succ_mul, Nat.mul_comm]
      exact upper
  rw [quotient, Nat.mul_comm]

/-- No bound lies inside of a block. -/
theorem Tiles.bound_apart (tiles : Tiles start row top) (bound : IsBound row top offset)
    (member : block ∈ row) : offset ≤ block.bottom ∨ block.stop ≤ offset := by
  have inside := tiles.bounds member
  rcases bound with atTop | ⟨other, otherMember, bottom⟩
  · exact Or.inr (by omega)
  · by_cases same : other = block
    · rw [← bottom, same]
      exact Or.inl (Nat.le_refl _)
    · have otherInside := tiles.bounds otherMember
      rcases Nat.lt_or_ge other.bottom block.stop with before | after
      · rcases Nat.lt_or_ge block.bottom other.stop with meets | apart
        · exact absurd (tiles.eq_of_meet otherMember member before meets) same
        · exact Or.inl (by omega)
      · exact Or.inr (by omega)

/-- A block that meets an area between two bounds lies in it. -/
theorem Mergeable.encloses (mergeable : Mergeable row top start size) (tiles : Tiles 0 row top)
    (member : block ∈ row) (blockFirst : block.bottom < start + size)
    (startFirst : start < block.stop) : start ≤ block.bottom ∧ block.stop ≤ start + size := by
  have lower := tiles.bound_apart mergeable.start_bound member
  have upper := tiles.bound_apart mergeable.stop_bound member
  omega

/-- An area that can be merged is tiled by free blocks of the row. -/
theorem Mergeable.split (mergeable : Mergeable row top start size) (tiles : Tiles 0 row top) :
    ∃ front area back, row = front ++ area ++ back ∧ Tiles 0 front start ∧
      Tiles start area (start + size) ∧ Tiles (start + size) back top ∧
        ∀ block ∈ area, block.isFree = true := by
  obtain ⟨front, area, back, rfl, frontTiles, areaTiles, backTiles⟩ := tiles.split_area
    (Nat.le_add_right start size) mergeable.start_bound mergeable.stop_bound
  refine ⟨front, area, back, rfl, frontTiles, areaTiles, backTiles, ?_⟩
  intro block member
  have inside := areaTiles.bounds member
  exact mergeable.free block (List.mem_append_left _ (List.mem_append_right _ member)) (by omega)
    (by omega)

/-- A coalesced row is coalesced except at any offset. -/
theorem Coalesced.exceptAt (coalesced : Coalesced sizes row top) (offset : Nat) :
    CoalescedExceptAt sizes row top offset :=
  fun kind start size isArea mergeable _ => coalesced kind start size isArea mergeable

/-- A row that is coalesced except at an offset is coalesced if the offset is in use. -/
theorem Coalesced.of_inUse (except : CoalescedExceptAt sizes row top offset) (member : block ∈ row)
    (used : block.isFree = false) (lower : block.bottom ≤ offset) (upper : offset < block.stop) :
    Coalesced sizes row top := by
  intro kind start size isArea mergeable
  apply except kind start size isArea mergeable
  rintro ⟨startLe, below⟩
  have free := mergeable.free block member (by omega) (by omega)
  rw [used] at free
  exact Bool.false_ne_true free

/-- A row that is coalesced except at an offset is coalesced if the two areas around the offset are
single blocks or cannot be merged. -/
theorem Coalesced.of_around (except : CoalescedExceptAt sizes row top offset)
    (around : ∀ kind size, Area sizes kind (offset / size * size) size →
      Mergeable row top (offset / size * size) size →
        ∃ block ∈ row, block.bottom = offset / size * size ∧ block.kind = kind) :
    Coalesced sizes row top := by
  intro kind start size isArea mergeable
  by_cases contains : start ≤ offset ∧ offset < start + size
  · have same := eq_div_mul_of_aligned isArea.aligned contains.1 contains.2
    subst same
    exact around kind size isArea mergeable
  · exact except kind start size isArea mergeable contains

/-- The medium area around an offset. -/
theorem Area.around_medium (sizes : ChunkSizes) (offset : Nat) :
    Area sizes .medium (offset / sizes.medium * sizes.medium) sizes.medium :=
  ⟨Or.inr rfl, rfl, Nat.mul_mod_left _ _⟩

/-- The small area around an offset. -/
theorem Area.around_small (sizes : ChunkSizes) (offset : Nat) :
    Area sizes .small (offset / sizes.small * sizes.small) sizes.small :=
  ⟨Or.inl rfl, rfl, Nat.mul_mod_left _ _⟩

/-- There are no areas of larger kinds than medium. -/
theorem NoneLarger.of_medium_le (least : Kind.medium.code ≤ kind.code) :
    NoneLarger sizes row top offset kind :=
  fun _ _ isArea above => absurd above (isArea.not_above least)

/-- Where the medium area around an offset cannot be merged, no area larger than small can be. -/
theorem NoneLarger.of_small
    (medium : ¬Mergeable row top (offset / sizes.medium * sizes.medium) sizes.medium) :
    NoneLarger sizes row top offset .small := by
  intro kind size isArea above
  have isMedium := isArea.eq_medium above
  subst isMedium
  rw [show size = sizes.medium from isArea.suits]
  exact medium

/-- Where neither area around an offset can be merged, none can be. -/
theorem NoneLarger.of_both
    (medium : ¬Mergeable row top (offset / sizes.medium * sizes.medium) sizes.medium)
    (small : ¬Mergeable row top (offset / sizes.small * sizes.small) sizes.small) :
    NoneLarger sizes row top offset kind := by
  intro larger size isArea _
  rcases isArea.target with isSmall | isMedium
  · subst isSmall
    rw [show size = sizes.small from isArea.suits]
    exact small
  · subst isMedium
    rw [show size = sizes.medium from isArea.suits]
    exact medium

/-- A row that is coalesced except at an offset of a block is coalesced if no area around the offset
that is larger than the block can be merged. -/
theorem Coalesced.of_noneLarger (except : CoalescedExceptAt sizes row top offset)
    (tiles : Tiles 0 row top) (member : block ∈ row) (sound : block.Sound sizes)
    (lower : block.bottom ≤ offset) (upper : offset < block.stop)
    (noneLarger : NoneLarger sizes row top offset block.kind) : Coalesced sizes row top := by
  have end_ : block.stop = block.bottom + block.size := rfl
  apply Coalesced.of_around except
  intro kind size isArea mergeable
  have suits := isArea.suits
  have start := Nat.div_mul_le_self offset size
  have stop := Nat.lt_div_mul_add isArea.positive (a := offset)
  by_cases larger : block.kind.code < kind.code
  · exact absurd mergeable (noneLarger kind size isArea larger)
  · by_cases same : block.kind = kind
    · refine ⟨block, member, ?_, same⟩
      have blockSuits := sound.suits
      rw [same] at blockSuits
      have sameSize : block.size = size := isArea.eq_size blockSuits
      have aligned := sound.aligned
      rw [same, sameSize, ChunkSizes.alignment_of_fixedSize isArea.fixed] at aligned
      exact eq_div_mul_of_aligned aligned lower (by omega)
    · -- A block of a larger kind does not fit into the area.
      have below : kind.code < block.kind.code := by
        rcases isArea.target with small | medium
        · subst small
          cases isKind : block.kind <;> simp_all [Kind.code]
        · subst medium
          cases isKind : block.kind <;> simp_all [Kind.code]
      have less := suits.lt_of_code_lt sound.suits below
      have enclosed := mergeable.encloses tiles member (by omega) (by omega)
      omega

/-- A row stays coalesced where a block in use is added at its end. -/
theorem Coalesced.extend (coalesced : Coalesced sizes row top) (bottom : block.bottom = top)
    (nonempty : block.bottom < block.stop) (used : block.isFree = false) :
    Coalesced sizes (row ++ [block]) block.stop := by
  intro kind start size isArea mergeable
  have positive := isArea.positive
  have inside := mergeable.inside
  have last : block ∈ row ++ [block] := List.mem_append_right row List.mem_cons_self
  have below : start + size ≤ top := by
    by_contra above
    have free := mergeable.free block last (by omega) (by omega)
    rw [used] at free
    exact Bool.false_ne_true free
  have boundOf : ∀ offset, IsBound (row ++ [block]) block.stop offset → offset ≤ top →
      IsBound row top offset := by
    intro offset bound le
    rcases bound with atStop | ⟨other, member, isBottom⟩
    · exact Or.inl (by omega)
    · rcases List.mem_append.mp member with inRow | isBlock
      · exact Or.inr ⟨other, inRow, isBottom⟩
      · rw [List.mem_singleton.mp isBlock] at isBottom
        exact Or.inl (by omega)
  have inRow : Mergeable row top start size := by
    refine ⟨below, boundOf _ mergeable.start_bound (by omega),
      boundOf _ mergeable.stop_bound below, ?_⟩
    intro other member
    exact mergeable.free other (List.mem_append_left _ member)
  obtain ⟨found, member, isThere⟩ := coalesced kind start size isArea inRow
  exact ⟨found, List.mem_append_left _ member, isThere⟩

/-- Bounds outside of an area stay bounds where the blocks of the area are replaced. -/
theorem isBound_of_replace (areaTiles : Tiles low area high) (backTiles : Tiles high back top)
    (freshTiles : Tiles low fresh high) (bound : IsBound (front ++ fresh ++ back) top offset)
    (outside : offset ≤ low ∨ high ≤ offset) : IsBound (front ++ area ++ back) top offset := by
  rcases bound with atTop | ⟨block, member, isBottom⟩
  · exact Or.inl atTop
  · rcases List.mem_append.mp member with inMost | inBack
    · rcases List.mem_append.mp inMost with inFront | inFresh
      · exact Or.inr ⟨block, List.mem_append_left _ (List.mem_append_left _ inFront), isBottom⟩
      · have inside := freshTiles.bounds inFresh
        have atLow : offset = low := by omega
        rw [atLow, List.append_assoc]
        rcases (areaTiles.append backTiles).isBound_start with atTop | ⟨first, inRest, firstBottom⟩
        · exact Or.inl atTop
        · exact Or.inr ⟨first, List.mem_append_right _ inRest, firstBottom⟩
    · exact Or.inr ⟨block, List.mem_append_right _ inBack, isBottom⟩

/-- An area that does not meet what was replaced could be merged before, and consists of the same
blocks as before. -/
theorem Mergeable.of_replace_apart (areaTiles : Tiles low area high)
    (backTiles : Tiles high back top) (freshTiles : Tiles low fresh high)
    (mergeable : Mergeable (front ++ fresh ++ back) top start size) (positive : 0 < size)
    (apart : start + size ≤ low ∨ high ≤ start) :
    Mergeable (front ++ area ++ back) top start size := by
  have ordered := areaTiles.le
  refine ⟨mergeable.inside, ?_, ?_, ?_⟩
  · exact isBound_of_replace areaTiles backTiles freshTiles mergeable.start_bound (by omega)
  · exact isBound_of_replace areaTiles backTiles freshTiles mergeable.stop_bound (by omega)
  · intro block member blockFirst startFirst
    rcases List.mem_append.mp member with inMost | inBack
    · rcases List.mem_append.mp inMost with inFront | inArea
      · exact mergeable.free block (List.mem_append_left _ (List.mem_append_left _ inFront))
          blockFirst startFirst
      · have inside := areaTiles.bounds inArea
        omega
    · exact mergeable.free block (List.mem_append_right _ inBack) blockFirst startFirst

/-- An area around what was replaced could be merged before, if what was replaced is free. -/
theorem Mergeable.of_replace_around (areaTiles : Tiles low area high)
    (backTiles : Tiles high back top) (freshTiles : Tiles low fresh high)
    (areaFree : ∀ block ∈ area, block.isFree = true)
    (mergeable : Mergeable (front ++ fresh ++ back) top start size) (lower : start ≤ low)
    (upper : high ≤ start + size) : Mergeable (front ++ area ++ back) top start size := by
  refine ⟨mergeable.inside, ?_, ?_, ?_⟩
  · exact isBound_of_replace areaTiles backTiles freshTiles mergeable.start_bound (Or.inl lower)
  · exact isBound_of_replace areaTiles backTiles freshTiles mergeable.stop_bound (Or.inr upper)
  · intro block member blockFirst startFirst
    rcases List.mem_append.mp member with inMost | inBack
    · rcases List.mem_append.mp inMost with inFront | inArea
      · exact mergeable.free block (List.mem_append_left _ (List.mem_append_left _ inFront))
          blockFirst startFirst
      · exact areaFree block inArea
    · exact mergeable.free block (List.mem_append_right _ inBack) blockFirst startFirst

/-- A row stays coalesced except at an offset of an area whose blocks are replaced, if areas that
meet the new blocks but not the offset are single blocks. -/
theorem CoalescedExceptAt.replace
    (except : CoalescedExceptAt sizes (front ++ area ++ back) top offset)
    (areaTiles : Tiles low area high) (backTiles : Tiles high back top)
    (freshTiles : Tiles low fresh high)
    (around : ∀ kind start size, Area sizes kind start size →
      Mergeable (front ++ fresh ++ back) top start size → start < high → low < start + size →
        ¬(start ≤ offset ∧ offset < start + size) →
          ∃ block ∈ fresh, block.bottom = start ∧ block.kind = kind) :
    CoalescedExceptAt sizes (front ++ fresh ++ back) top offset := by
  intro kind start size isArea mergeable awayFrom
  have positive := isArea.positive
  by_cases meets : start < high ∧ low < start + size
  · obtain ⟨block, member, isThere⟩ :=
      around kind start size isArea mergeable meets.1 meets.2 awayFrom
    exact ⟨block, List.mem_append_left _ (List.mem_append_right _ member), isThere⟩
  · have before := mergeable.of_replace_apart areaTiles backTiles freshTiles positive (by omega)
    obtain ⟨block, member, bottom, isKind⟩ := except kind start size isArea before awayFrom
    rcases List.mem_append.mp member with inMost | inBack
    · rcases List.mem_append.mp inMost with inFront | inArea
      · exact ⟨block, List.mem_append_left _ (List.mem_append_left _ inFront), bottom, isKind⟩
      · have inside := areaTiles.bounds inArea
        omega
    · exact ⟨block, List.mem_append_right _ inBack, bottom, isKind⟩

/-- A row stays coalesced except at an offset where the blocks of a range around the offset are
replaced by a single one. -/
theorem CoalescedExceptAt.replace_single
    (except : CoalescedExceptAt sizes (front ++ area ++ back) top offset)
    (frontTiles : Tiles 0 front low) (areaTiles : Tiles low area high)
    (backTiles : Tiles high back top) (freshTiles : Tiles low [block] high) (lower : low ≤ offset)
    (upper : offset < high) : CoalescedExceptAt sizes (front ++ [block] ++ back) top offset := by
  apply except.replace areaTiles backTiles freshTiles
  intro kind start size isArea mergeable beforeHigh afterLow awayFrom
  have tiles := (frontTiles.append freshTiles).append backTiles
  obtain ⟨bottom, _, stop⟩ := freshTiles
  have isStop : block.stop = high := stop
  have member : block ∈ front ++ [block] ++ back :=
    List.mem_append_left _ (List.mem_append_right _ List.mem_cons_self)
  have enclosed := mergeable.encloses tiles member (by omega) (by omega)
  omega

/-- A row stays coalesced except at the bottom of a block where the block is split into blocks that
are small wherever a smaller area could be. -/
theorem CoalescedExceptAt.split {larger : Block}
    (coalesced : Coalesced sizes (front ++ [larger] ++ back) top) (frontTiles : Tiles 0 front low)
    (areaTiles : Tiles low [larger] high) (backTiles : Tiles high back top)
    (freshTiles : Tiles low fresh high) (fixed : sizes.fixedSize larger.kind = .ok larger.size)
    (aligned : larger.bottom % larger.size = 0)
    (pieces : ∀ piece ∈ fresh, piece.bottom ≠ larger.bottom → piece.bottom % sizes.small = 0 →
      larger.kind = .medium → piece.kind = .small) :
    CoalescedExceptAt sizes (front ++ fresh ++ back) top larger.bottom := by
  have positive := sizes.pos_of_fixedSize fixed
  have suits := ChunkSizes.suits_of_fixedSize fixed
  have stop : larger.bottom + larger.size = high := areaTiles.2.2
  have bottom : larger.bottom = low := areaTiles.1
  apply (coalesced.exceptAt larger.bottom).replace areaTiles backTiles freshTiles
  intro kind start size isArea mergeable beforeHigh afterLow awayFrom
  have areaPositive := isArea.positive
  by_cases coarse : larger.size ∣ size
  · have nested := aligned_nested coarse (Nat.dvd_of_mod_eq_zero aligned)
      (Nat.dvd_of_mod_eq_zero isArea.aligned) (by omega) (by omega)
    omega
  · -- Only a small area is finer than the block, and only if the block is medium.
    have finer : kind = .small ∧ larger.kind = .medium := by
      have notAbove : ¬larger.kind.code ≤ kind.code :=
        fun above => coarse (ChunkSizes.dvd_of_code_le fixed isArea.fixed above)
      have notHumongous := ChunkSizes.ne_humongous_of_fixedSize fixed
      rcases isArea.target with small | medium
      · subst small
        refine ⟨rfl, ?_⟩
        cases isLarger : larger.kind <;> simp_all [Kind.code]
      · subst medium
        cases isLarger : larger.kind <;> simp_all [Kind.code]
    have small : size = sizes.small := by
      have areaSuits := isArea.suits
      rw [finer.1] at areaSuits
      exact areaSuits
    have medium : larger.size = sizes.medium := by
      rw [finer.2] at suits
      exact suits
    have nested := aligned_nested (by rw [small, medium]; exact sizes.small_dvd_medium)
      (Nat.dvd_of_mod_eq_zero isArea.aligned) (Nat.dvd_of_mod_eq_zero aligned) (by omega)
      (by omega)
    have backLe := backTiles.le
    rcases mergeable.start_bound with atTop | ⟨piece, member, isBottom⟩
    · omega
    · rcases List.mem_append.mp member with inMost | inBack
      · rcases List.mem_append.mp inMost with inFront | inFresh
        · have inside := frontTiles.bounds inFront
          omega
        · have isSmall := pieces piece inFresh (by omega)
            (by rw [isBottom, ← small]; exact isArea.aligned) finer.2
          exact ⟨piece, inFresh, isBottom, by rw [isSmall, finer.1]⟩
      · have inside := backTiles.bounds inBack
        omega

end CollectorMemory
