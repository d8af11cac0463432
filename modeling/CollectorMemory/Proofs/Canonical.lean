import CollectorMemory.Proofs.Serving
import Mathlib.Data.List.Nodup

/-!
# Coalesced rows are canonical

Free blocks of a row can be merged in many orders. As long as blocks are merged but never moved, the
coalesced row that comes out depends only on the row at the start and on the blocks in use that are
left (`Reduced.shape_perm`): a free block of one outcome lies in a block of any other outcome, since
otherwise the area of the block could be merged there.
-/

namespace CollectorMemory

/-- A coalesced row that a row became by merging blocks. -/
structure Reduced (sizes : ChunkSizes) (row : List Block) (top : Nat) (after : List Block) :
    Prop where
  /-- The row tiles the carved words. -/
  tiles : Tiles 0 row top
  /-- The later row tiles the same words. -/
  afterTiles : Tiles 0 after top
  /-- The later blocks are sound. -/
  afterSound : ∀ block ∈ after, block.Sound sizes
  /-- The later row is coalesced. -/
  coalesced : Coalesced sizes after top
  /-- The row became coarser. -/
  coarser : Coarser row after top

/-- What is the same of a block in every order of merging: its range, its kind and whether it is
free. -/
def Block.shape (block : Block) : Nat × Nat × Kind × Bool :=
  (block.bottom, block.size, block.kind, block.isFree)

variable {sizes : ChunkSizes} {row after left right : List Block} {block other : Block}
  {start stop top offset : Nat}

/-- A block of a tiling ends at a bound. -/
theorem Tiles.isBound_stop (tiles : Tiles start row stop) (member : block ∈ row) :
    IsBound row stop block.stop := by
  obtain ⟨front, back, rfl⟩ := exists_around member
  obtain ⟨_, _, backTiles⟩ := tiles.around
  cases backTiles.isBound_start with
  | inl atStop => exact Or.inl atStop
  | inr starts =>
    obtain ⟨next, inBack, bottom⟩ := starts
    exact Or.inr ⟨next, List.mem_append_right _ inBack, bottom⟩

/-- Every bound of a coarser row was one before. -/
theorem Coarser.isBound (coarser : Coarser row after top) (tiles : Tiles 0 after top)
    (bound : IsBound after top offset) : IsBound row top offset := by
  cases bound with
  | inl atTop => exact Or.inl atTop
  | inr starts =>
    obtain ⟨block, member, bottom⟩ := starts
    have inside := tiles.bounds member
    obtain ⟨old, inRow, same, _⟩ := coarser block member (by omega)
    exact Or.inr ⟨old, inRow, same.trans bottom⟩

namespace Reduced

/-- A humongous block is never merged, so it is not cut by any bound of the row at the start. -/
theorem humongous_apart (reduced : Reduced sizes row top after) (member : block ∈ after)
    (humongous : block.kind = .humongous) (bound : IsBound row top offset) :
    offset ≤ block.bottom ∨ block.stop ≤ offset := by
  have inside := reduced.afterTiles.bounds member
  obtain ⟨old, inRow, sameBottom, same⟩ := reduced.coarser block member (by omega)
  have sameSize := (same humongous).2
  have apart := reduced.tiles.bound_apart bound inRow
  unfold Block.stop at apart ⊢
  omega

variable (first : Reduced sizes row top left) (second : Reduced sizes row top right)
  (sameUse : ∀ block : Block, block.isFree = false → (block ∈ left ↔ block ∈ right))

include first sameUse in
/-- What a free block of one outcome meets in the other is free. -/
theorem free_of_meet (member : block ∈ left) (free : block.isFree = true) (inRight : other ∈ right)
    (otherFirst : other.bottom < block.stop) (blockFirst : block.bottom < other.stop) :
    other.isFree = true := by
  by_contra notFree
  have used : other.isFree = false := by simpa using notFree
  have inLeft := (sameUse other used).mpr inRight
  have same := first.afterTiles.eq_of_meet member inLeft blockFirst otherFirst
  rw [same] at free
  exact notFree free

include first second in
/-- A block of one outcome that cuts an end of a block of the other contains that block. -/
theorem encloses_of_cut (member : block ∈ left) (fixed : block.kind ≠ .humongous)
    (inRight : other ∈ right) (isEnd : offset = block.bottom ∨ offset = block.stop)
    (lower : other.bottom < offset) (upper : offset < other.stop) :
    other.bottom ≤ block.bottom ∧ block.stop ≤ other.stop := by
  have blockSound := first.afterSound block member
  have otherSound := second.afterSound other inRight
  have nonempty := blockSound.bottom_lt_stop
  have isBound : IsBound left top offset := by
    cases isEnd with
    | inl atBottom => exact Or.inr ⟨block, member, atBottom.symm⟩
    | inr atStop =>
      rw [atStop]
      exact first.afterTiles.isBound_stop member
  have otherFixed : other.kind ≠ .humongous := by
    intro humongous
    have apart := second.humongous_apart inRight humongous
      (first.coarser.isBound first.afterTiles isBound)
    omega
  have blockSize := blockSound.suits.fixedSize fixed
  have otherSize := otherSound.suits.fixedSize otherFixed
  have blockAligned := Nat.dvd_of_mod_eq_zero (blockSound.bottom_aligned fixed)
  have otherAligned := Nat.dvd_of_mod_eq_zero (otherSound.bottom_aligned otherFixed)
  unfold Block.stop at *
  cases UInt8.le_total block.kind.code other.kind.code with
  | inl smaller =>
    have nested := ChunkSizes.dvd_of_code_le blockSize otherSize smaller
    exact aligned_nested nested blockAligned otherAligned (by omega) (by omega)
  | inr larger =>
    -- The ends of a coarser block are multiples of the finer size, so nothing finer cuts them.
    have nested := ChunkSizes.dvd_of_code_le otherSize blockSize larger
    have bottomFine := Nat.dvd_trans nested blockAligned
    have endFine : other.size ∣ offset := by
      cases isEnd with
      | inl atBottom =>
        rw [atBottom]
        exact bottomFine
      | inr atStop =>
        rw [atStop]
        exact Nat.dvd_add bottomFine nested
    have notCut := Nat.le_of_lt_add_of_dvd upper endFine otherAligned
    omega

include first second sameUse in
/-- A free block of one outcome between two bounds of the other is a block there. -/
theorem exists_of_bounds (member : block ∈ left) (free : block.isFree = true)
    (target : block.kind = .small ∨ block.kind = .medium)
    (startBound : IsBound right top block.bottom) (stopBound : IsBound right top block.stop) :
    ∃ other ∈ right, other.bottom ≤ block.bottom ∧ block.stop ≤ other.stop := by
  have sound := first.afterSound block member
  have inside := first.afterTiles.bounds member
  have fixed : block.kind ≠ .humongous := by
    intro humongous
    rw [humongous] at target
    simp at target
  have isArea : Area sizes block.kind block.bottom block.size :=
    ⟨target, sound.suits.fixedSize fixed, sound.bottom_aligned fixed⟩
  have mergeable : Mergeable right top block.bottom block.size :=
    ⟨inside.2.2, startBound, stopBound, fun other inRight otherFirst blockFirst =>
      first.free_of_meet sameUse member free inRight otherFirst blockFirst⟩
  obtain ⟨found, inRight, sameBottom, sameKind⟩ := second.coalesced _ _ _ isArea mergeable
  have suits := (second.afterSound found inRight).suits
  rw [sameKind] at suits
  have sameSize := isArea.eq_size suits
  refine ⟨found, inRight, Nat.le_of_eq sameBottom, ?_⟩
  unfold Block.stop
  omega

include first second sameUse in
/-- Every block of one outcome lies in a block of the other. -/
theorem exists_enclosing (member : block ∈ left) :
    ∃ other ∈ right, other.bottom ≤ block.bottom ∧ block.stop ≤ other.stop := by
  have sound := first.afterSound block member
  have inside := first.afterTiles.bounds member
  cases isFree : block.isFree with
  | false => exact ⟨block, (sameUse block isFree).mp member, Nat.le_refl _, Nat.le_refl _⟩
  | true =>
    obtain ⟨other, inRight, lower, upper⟩ :=
      second.afterTiles.cover (Nat.zero_le _) (show block.bottom < top by omega)
    have otherSound := second.afterSound other inRight
    have ofTarget : block.kind = .small ∨ block.kind = .medium →
        ∃ other ∈ right, other.bottom ≤ block.bottom ∧ block.stop ≤ other.stop := by
      intro target
      have fixed : block.kind ≠ .humongous := by
        intro humongous
        rw [humongous] at target
        simp at target
      by_cases startBound : IsBound right top block.bottom
      · by_cases stopBound : IsBound right top block.stop
        · exact first.exists_of_bounds second sameUse member isFree target startBound stopBound
        · have below : block.stop < top :=
            Nat.lt_of_le_of_ne inside.2.2 fun atTop => stopBound (Or.inl atTop)
          obtain ⟨last, inLast, lastLower, lastUpper⟩ :=
            second.afterTiles.cover (Nat.zero_le _) below
          have cuts : last.bottom ≠ block.stop := fun same => stopBound (Or.inr ⟨last, inLast, same⟩)
          exact ⟨last, inLast, first.encloses_of_cut second member fixed inLast (Or.inr rfl)
            (Nat.lt_of_le_of_ne lastLower cuts) lastUpper⟩
      · have cuts : other.bottom ≠ block.bottom :=
          fun same => startBound (Or.inr ⟨other, inRight, same⟩)
        exact ⟨other, inRight, first.encloses_of_cut second member fixed inRight (Or.inl rfl)
          (Nat.lt_of_le_of_ne lower cuts) upper⟩
    cases isKind : block.kind with
    | small => exact ofTarget (Or.inl isKind)
    | medium => exact ofTarget (Or.inr isKind)
    | humongous =>
      have apart := first.humongous_apart member isKind
        (second.coarser.isBound second.afterTiles (second.afterTiles.isBound_stop inRight))
      exact ⟨other, inRight, lower, by omega⟩
    | specialized =>
      -- No block is finer than a specialized one.
      have suits := sound.suits
      rw [isKind] at suits
      have size : block.size = sizes.specialized := suits
      have upperWhole := Nat.le_of_lt_add_of_dvd
        (show block.bottom + sizes.specialized < other.stop + sizes.specialized by omega)
        (Nat.dvd_add (Nat.dvd_of_mod_eq_zero sound.bottom_whole) (Nat.dvd_refl _))
        (Nat.dvd_of_mod_eq_zero otherSound.stop_whole)
      refine ⟨other, inRight, lower, ?_⟩
      unfold Block.stop at upperWhole ⊢
      omega

include first second sameUse in
/-- Every block of one outcome has the shape of a block of the other. -/
theorem exists_shape (member : block ∈ left) : ∃ other ∈ right, other.shape = block.shape := by
  obtain ⟨other, inRight, lower, upper⟩ := first.exists_enclosing second sameUse member
  obtain ⟨again, inLeft, againLower, againUpper⟩ := second.exists_enclosing first
    (fun block used => (sameUse block used).symm) inRight
  have nonempty := (first.afterTiles.bounds member).2.1
  have same : again = block :=
    first.afterTiles.eq_of_meet inLeft member (by omega) (by omega)
  subst same
  have sameBottom : other.bottom = again.bottom := by omega
  have sameSize : other.size = again.size := by
    unfold Block.stop at upper againUpper
    omega
  have suits := (second.afterSound other inRight).suits
  rw [sameSize] at suits
  have sameKind := suits.kind_eq (first.afterSound again member).suits
  have sameFree : other.isFree = again.isFree := by
    cases isFree : other.isFree with
    | false =>
      have otherLeft := (sameUse other isFree).mpr inRight
      have isBlock := first.afterTiles.eq_of_meet otherLeft member (by omega) (by omega)
      rw [← isBlock, isFree]
    | true =>
      exact (second.free_of_meet (fun block used => (sameUse block used).symm) inRight isFree member
        (by omega) (by omega)).symm
  refine ⟨other, inRight, ?_⟩
  unfold Block.shape
  rw [sameBottom, sameSize, sameKind, sameFree]

include first second sameUse in
/-- Two outcomes with the same blocks in use have blocks of the same shapes. -/
theorem shape_perm : (left.map Block.shape).Perm (right.map Block.shape) := by
  have nodup : ∀ {row : List Block}, Tiles 0 row top → (row.map Block.shape).Nodup := by
    intro row tiles
    apply List.Nodup.of_map Prod.fst
    rw [List.map_map]
    exact tiles.nodup_bottom
  rw [List.perm_ext_iff_of_nodup (nodup first.afterTiles) (nodup second.afterTiles)]
  intro shape
  rw [List.mem_map, List.mem_map]
  constructor
  · intro ⟨block, member, isShape⟩
    obtain ⟨other, inRight, same⟩ := first.exists_shape second sameUse member
    exact ⟨other, inRight, same.trans isShape⟩
  · intro ⟨block, member, isShape⟩
    obtain ⟨other, inLeft, same⟩ := second.exists_shape first
      (fun block used => (sameUse block used).symm) member
    exact ⟨other, inLeft, same.trans isShape⟩

end Reduced

end CollectorMemory
