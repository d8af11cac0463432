import CollectorMemory.Proofs.Chunk.Block

/-!
# Tilings

The chunks of a node lie side by side from its bottom to its top. `Tiles start row stop` says so of
a row of blocks. A tiling covers every offset once, so blocks that meet are equal, and it can be cut
at every offset at which a block starts.
-/

namespace CollectorMemory

/-- The blocks of a row follow each other without a gap, from `start` to `stop`. -/
def Tiles : Nat → List Block → Nat → Prop
  | start, [], stop => start = stop
  | start, block :: rest, stop => block.bottom = start ∧ 0 < block.size ∧ Tiles block.stop rest stop

/-- An offset at which a block of a row starts, or at which the row ends. -/
def IsBound (row : List Block) (stop offset : Nat) : Prop :=
  offset = stop ∨ ∃ block ∈ row, block.bottom = offset

variable {row front back : List Block} {start middle stop : Nat}

/-- A block of a row stands between what is before and after it. -/
theorem exists_around {block : Block} (member : block ∈ row) :
    ∃ front back, row = front ++ [block] ++ back := by
  obtain ⟨front, back, split⟩ := List.append_of_mem member
  rw [List.append_cons] at split
  exact ⟨front, back, split⟩

/-- Two rows tile a range together if each tiles a part of it. -/
theorem tiles_append :
    Tiles start (front ++ back) stop ↔
      ∃ middle, Tiles start front middle ∧ Tiles middle back stop := by
  induction front generalizing start with
  | nil => exact ⟨fun tiles => ⟨start, rfl, tiles⟩, fun ⟨_, same, tiles⟩ => same ▸ tiles⟩
  | cons head rest ih =>
    constructor
    · rintro ⟨bottom, positive, tiles⟩
      obtain ⟨middle, first, second⟩ := ih.mp tiles
      exact ⟨middle, ⟨bottom, positive, first⟩, second⟩
    · rintro ⟨middle, ⟨bottom, positive, first⟩, second⟩
      exact ⟨bottom, positive, ih.mpr ⟨middle, first, second⟩⟩

/-- Two tilings side by side. -/
theorem Tiles.append (first : Tiles start front middle) (second : Tiles middle back stop) :
    Tiles start (front ++ back) stop :=
  tiles_append.mpr ⟨middle, first, second⟩

/-- A single block tiles its own range. -/
theorem tiles_singleton {block : Block} (bottom : block.bottom = start) (positive : 0 < block.size)
    (end_ : block.stop = stop) : Tiles start [block] stop :=
  ⟨bottom, positive, end_⟩

/-- The sizes of a row add up to what it tiles. -/
theorem Tiles.sum_size (tiles : Tiles start row stop) :
    start + (row.map Block.size).sum = stop := by
  induction row generalizing start with
  | nil => exact tiles
  | cons head rest ih =>
    obtain ⟨bottom, _, later⟩ := tiles
    have rest := ih later
    rw [List.map_cons, List.sum_cons]
    unfold Block.stop at rest
    omega

/-- A tiling ends where it starts or later. -/
theorem Tiles.le (tiles : Tiles start row stop) : start ≤ stop := by
  have sum := tiles.sum_size
  omega

/-- The blocks of a tiling lie in what it tiles. -/
theorem Tiles.bounds (tiles : Tiles start row stop) {block : Block} (member : block ∈ row) :
    start ≤ block.bottom ∧ block.bottom < block.stop ∧ block.stop ≤ stop := by
  induction row generalizing start with
  | nil => exact absurd member List.not_mem_nil
  | cons head rest ih =>
    obtain ⟨bottom, positive, later⟩ := tiles
    have headStop : head.stop = head.bottom + head.size := rfl
    have restLe := later.le
    rcases List.mem_cons.mp member with same | inRest
    · rw [same]
      omega
    · have inside := ih later inRest
      omega

/-- Every offset of what is tiled is in a block. -/
theorem Tiles.cover (tiles : Tiles start row stop) {offset : Nat} (lower : start ≤ offset)
    (upper : offset < stop) : ∃ block ∈ row, block.bottom ≤ offset ∧ offset < block.stop := by
  induction row generalizing start with
  | nil =>
    have same : start = stop := tiles
    omega
  | cons head rest ih =>
    obtain ⟨bottom, _, later⟩ := tiles
    by_cases inHead : offset < head.stop
    · exact ⟨head, List.mem_cons_self, by omega, inHead⟩
    · obtain ⟨block, member, inside⟩ := ih later (by omega)
      exact ⟨block, List.mem_cons_of_mem head member, inside⟩

/-- Blocks of a tiling that share an offset are equal. -/
theorem Tiles.eq_of_meet (tiles : Tiles start row stop) {left right : Block} (inLeft : left ∈ row)
    (inRight : right ∈ row) (leftFirst : left.bottom < right.stop)
    (rightFirst : right.bottom < left.stop) : left = right := by
  induction row generalizing start with
  | nil => exact absurd inLeft List.not_mem_nil
  | cons head rest ih =>
    obtain ⟨_, _, later⟩ := tiles
    rcases List.mem_cons.mp inLeft with leftHead | leftRest
    · rcases List.mem_cons.mp inRight with rightHead | rightRest
      · rw [leftHead, rightHead]
      · have inside := later.bounds rightRest
        rw [leftHead] at rightFirst
        omega
    · rcases List.mem_cons.mp inRight with rightHead | rightRest
      · have inside := later.bounds leftRest
        rw [rightHead] at leftFirst
        omega
      · exact ih later leftRest rightRest

/-- Blocks tile a range in one order only. -/
theorem Tiles.eq_of_perm {left right : List Block} (first : Tiles start left stop)
    (second : Tiles start right stop) (perm : left.Perm right) : left = right := by
  induction left generalizing right start with
  | nil => exact perm.nil_eq
  | cons head rest ih =>
    have inRight : head ∈ right := perm.mem_iff.mp List.mem_cons_self
    cases right with
    | nil => exact absurd inRight List.not_mem_nil
    | cons other others =>
      have headInside := first.bounds List.mem_cons_self
      have otherInside := second.bounds List.mem_cons_self
      have headBottom := first.1
      have otherBottom := second.1
      have same := second.eq_of_meet inRight List.mem_cons_self (by omega) (by omega)
      subst same
      rw [ih first.2.2 second.2.2 perm.cons_inv]

/-- No two blocks of a tiling start at the same offset. -/
theorem Tiles.nodup_bottom (tiles : Tiles start row stop) : (row.map Block.bottom).Nodup := by
  induction row generalizing start with
  | nil => exact List.nodup_nil
  | cons head rest ih =>
    obtain ⟨_, positive, later⟩ := tiles
    rw [List.map_cons, List.nodup_cons]
    refine ⟨?_, ih later⟩
    intro repeated
    obtain ⟨block, member, same⟩ := List.mem_map.mp repeated
    have inside := later.bounds member
    unfold Block.stop at inside
    omega

/-- The first block of a tiling starts where it does, and an empty tiling ends there. -/
theorem Tiles.isBound_start (tiles : Tiles start row stop) : IsBound row stop start := by
  cases row with
  | nil => exact Or.inl tiles
  | cons head rest => exact Or.inr ⟨head, List.mem_cons_self, tiles.1⟩

/-- A tiling is cut at every bound. -/
theorem Tiles.split (tiles : Tiles start row stop) (bound : IsBound row stop middle) :
    ∃ front back, row = front ++ back ∧ Tiles start front middle ∧ Tiles middle back stop := by
  rcases bound with same | ⟨block, member, bottom⟩
  · exact ⟨row, [], (List.append_nil row).symm, same ▸ tiles, same⟩
  · obtain ⟨front, back, rfl⟩ := List.append_of_mem member
    obtain ⟨cut, first, second⟩ := tiles_append.mp tiles
    have same : cut = middle := second.1.symm.trans bottom
    exact ⟨front, block :: back, rfl, same ▸ first, same ▸ second⟩

/-- The parts of a row before, at and after a block tile what is before, in and after its range. -/
theorem Tiles.around {block : Block} (tiles : Tiles start (front ++ [block] ++ back) stop) :
    Tiles start front block.bottom ∧ Tiles block.bottom [block] block.stop ∧
      Tiles block.stop back stop := by
  obtain ⟨high, mostTiles, backTiles⟩ := tiles_append.mp tiles
  obtain ⟨low, frontTiles, bottom, positive, isStop⟩ := tiles_append.mp mostTiles
  have isHigh : block.stop = high := isStop
  subst bottom isHigh
  exact ⟨frontTiles, ⟨rfl, positive, rfl⟩, backTiles⟩

/-- The area between two bounds of a tiling is tiled by a part of the row. -/
theorem Tiles.split_area (tiles : Tiles start row stop) {low high : Nat} (ordered : low ≤ high)
    (lowBound : IsBound row stop low) (highBound : IsBound row stop high) :
    ∃ front area back, row = front ++ area ++ back ∧ Tiles start front low ∧
      Tiles low area high ∧ Tiles high back stop := by
  obtain ⟨most, back, rfl, mostTiles, backTiles⟩ := tiles.split highBound
  have lowInMost : IsBound most high low := by
    rcases lowBound with atStop | ⟨block, member, bottom⟩
    · have le := backTiles.le
      exact Or.inl (by omega)
    · rcases List.mem_append.mp member with inMost | inBack
      · exact Or.inr ⟨block, inMost, bottom⟩
      · have inside := backTiles.bounds inBack
        exact Or.inl (by omega)
  obtain ⟨front, area, rfl, frontTiles, areaTiles⟩ := mostTiles.split lowInMost
  exact ⟨front, area, back, rfl, frontTiles, areaTiles, backTiles⟩

end CollectorMemory
