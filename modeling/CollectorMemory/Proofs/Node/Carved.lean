import CollectorMemory.Node.Basic
import CollectorMemory.Proofs.Node.Words
import CollectorMemory.Proofs.Occupancy.Granules
import CollectorMemory.Proofs.Tiling
import Mathlib.Algebra.BigOperators.Ring.List

/-!
# Carved nodes

`Node.Carved node row` says that a row of blocks is what a node consists of below its top: the row
tiles the carved words, and the node shows every block in its memory and in both layers of its map.
What a node shows of a block depends on the range of the block alone, so an operation that changes
the node inside of an area replaces the blocks of the area (`Carved.replace`), and carving adds a
block at the top (`Carved.extend`).
-/

namespace CollectorMemory

namespace Node

variable {excuse : Prop} {node after : Node} {row front area fresh back : List Block}
  {block : Block}

/-- A node whose bounds are in order and granular, with a map that covers it. -/
structure Regular (node : Node) : Prop where
  /-- What is carved is committed. -/
  top_le : node.top ≤ node.committed
  /-- What is committed is reserved. -/
  committed_le : node.committed ≤ node.reserved
  /-- Words are committed in granules. -/
  committed_whole : node.committed % node.sizes.specialized = 0
  /-- All fixed sizes fit a header. -/
  short : node.sizes.medium < Header.sizeLimit
  /-- The map is regular. -/
  map : node.map.Regular
  /-- The map covers the reserved words. -/
  map_words : node.map.words = node.reserved
  /-- The granule of the map is the specialized size. -/
  map_granule : node.map.granule = node.sizes.specialized

/-- What a node shows of a block: its header in memory, a start mark on its first granule and on no
other, and in-use marks on all of its granules or, if it is free, on none. -/
structure Shows (node : Node) (block : Block) : Prop where
  /-- The first word is the sentinel. -/
  sentinel : node.words.word block.bottom = Header.alive
  /-- The second word is packed from the block. -/
  packed : node.words.word (block.bottom + 1) = (block.header node.isClass).packed
  /-- The first granule alone is a start. -/
  starts : ∀ offset, offset % node.sizes.specialized = 0 → block.bottom ≤ offset →
    offset < block.stop → (node.map.marksStart offset = true ↔ offset = block.bottom)
  /-- All granules are in use, or all are free. -/
  inUse : ∀ offset, offset % node.sizes.specialized = 0 → block.bottom ≤ offset →
    offset < block.stop → node.map.marksInUse offset = !block.isFree

/-- The blocks of a row are what a node consists of below its top. -/
structure Carved (node : Node) (row : List Block) : Prop extends node.Regular where
  /-- The blocks tile the carved words. -/
  tiles : Tiles 0 row node.top
  /-- Every block is sound. -/
  sound : ∀ block ∈ row, block.Sound node.sizes
  /-- The node shows every block. -/
  shown : ∀ block ∈ row, node.Shows block
  /-- Nothing is marked from the top on. -/
  blank : ∀ offset, offset % node.sizes.specialized = 0 → node.top ≤ offset →
    node.map.marksStart offset = false ∧ node.map.marksInUse offset = false

/-- Two states of a node, the second of which has a regular map. -/
structure Alike (node after : Node) : Prop where
  /-- The handle stays. -/
  id : after.id = node.id
  /-- The chunk sizes stay. -/
  sizes : after.sizes = node.sizes
  /-- The reserved range stays. -/
  reserved : after.reserved = node.reserved
  /-- Whether the node is audited stays. -/
  audited : after.audited = node.audited
  /-- The committed range stays. -/
  committed : after.committed = node.committed
  /-- The map has the same shape. -/
  map : node.map.Alike after.map

/-- Two states of a node have the same word and the same marks at an offset. -/
structure SameAt (node after : Node) (offset : Nat) : Prop where
  /-- The word stays. -/
  word : after.words.word offset = node.words.word offset
  /-- The start mark stays. -/
  starts : offset % node.sizes.specialized = 0 →
    after.map.marksStart offset = node.map.marksStart offset
  /-- The in-use mark stays. -/
  inUse : offset % node.sizes.specialized = 0 →
    after.map.marksInUse offset = node.map.marksInUse offset

/-- What is marked in one place and nowhere else is marked exactly there. -/
theorem marked_iff {here : Prop} [Decidable here] {elsewhere : Bool}
    (unmarked : ¬here → elsewhere = false) : (if here then true else elsewhere) = true ↔ here := by
  by_cases isHere : here
  · rw [if_pos isHere]
    exact ⟨fun _ => isHere, fun _ => rfl⟩
  · rw [if_neg isHere, unmarked isHere]
    exact ⟨fun marked => absurd marked Bool.false_ne_true, fun place => absurd place isHere⟩

/-- A node with a regular map is like itself. -/
theorem Alike.refl (regular : node.Regular) : node.Alike node :=
  ⟨rfl, rfl, rfl, rfl, rfl, Occupancy.Alike.refl regular.map⟩

/-- A node that stays alike in two steps stays alike. -/
theorem Alike.trans {middle : Node} (first : node.Alike middle) (second : middle.Alike after) :
    node.Alike after where
  id := second.id.trans first.id
  sizes := second.sizes.trans first.sizes
  reserved := second.reserved.trans first.reserved
  audited := second.audited.trans first.audited
  committed := second.committed.trans first.committed
  map := first.map.trans second.map

/-- A node that stays alike stays in its space. -/
theorem Alike.isClass (alike : node.Alike after) : after.isClass = node.isClass := by
  unfold Node.isClass
  rw [alike.id]

/-- A node is the same as itself at every offset. -/
theorem SameAt.refl (node : Node) (offset : Nat) : node.SameAt node offset :=
  ⟨rfl, fun _ => rfl, fun _ => rfl⟩

/-- A node that stays the same at an offset in two steps stays the same there. -/
theorem SameAt.trans {middle : Node} {offset : Nat} (alike : node.Alike middle)
    (first : node.SameAt middle offset) (second : middle.SameAt after offset) :
    node.SameAt after offset where
  word := second.word.trans first.word
  starts whole := (second.starts (by rw [alike.sizes]; exact whole)).trans (first.starts whole)
  inUse whole := (second.inUse (by rw [alike.sizes]; exact whole)).trans (first.inUse whole)

/-- A regular node that stays alike stays regular, wherever its top moves. -/
theorem Regular.of_alike (regular : node.Regular) (alike : node.Alike after)
    (top : after.top ≤ node.committed) : after.Regular where
  top_le := by rw [alike.committed]; exact top
  committed_le := by rw [alike.committed, alike.reserved]; exact regular.committed_le
  committed_whole := by rw [alike.committed, alike.sizes]; exact regular.committed_whole
  short := by rw [alike.sizes]; exact regular.short
  map := alike.map.regular
  map_words := by rw [alike.map.words, alike.reserved]; exact regular.map_words
  map_granule := by rw [alike.map.granule, alike.sizes]; exact regular.map_granule

/-- A node that shows a block before and after has the same marks in its range. -/
theorem Shows.sameAt {offset : Nat} (shown : node.Shows block) (shownAfter : after.Shows block)
    (sizes : after.sizes = node.sizes) (lower : block.bottom ≤ offset) (upper : offset < block.stop)
    (word : after.words.word offset = node.words.word offset) : node.SameAt after offset where
  word := word
  starts whole := by
    have starts := shown.starts offset whole lower upper
    rw [← sizes] at whole
    exact Bool.eq_iff_iff.mpr ((shownAfter.starts offset whole lower upper).trans starts.symm)
  inUse whole := by
    have inUse := shown.inUse offset whole lower upper
    rw [← sizes] at whole
    exact (shownAfter.inUse offset whole lower upper).trans inUse.symm

/-- A node that is the same in the range of a block still shows it. -/
theorem Shows.frame (shown : node.Shows block) (sound : block.Sound node.sizes)
    (alike : node.Alike after)
    (same : ∀ offset, block.bottom ≤ offset → offset < block.stop → node.SameAt after offset) :
    after.Shows block := by
  have headerLt : 2 < block.size := sound.suits.header_lt
  have end_ : block.stop = block.bottom + block.size := rfl
  refine ⟨?_, ?_, ?_, ?_⟩
  · rw [(same _ (Nat.le_refl _) (by omega)).word]
    exact shown.sentinel
  · rw [(same (block.bottom + 1) (by omega) (by omega)).word, alike.isClass]
    exact shown.packed
  · intro offset whole lower upper
    rw [alike.sizes] at whole
    rw [(same offset lower upper).starts whole]
    exact shown.starts offset whole lower upper
  · intro offset whole lower upper
    rw [alike.sizes] at whole
    rw [(same offset lower upper).inUse whole]
    exact shown.inUse offset whole lower upper

/-- The offsets of a regular node are counts. -/
theorem Regular.reserved_lt (regular : node.Regular) : node.reserved < wordLimit := by
  rw [← regular.map_words]
  exact regular.map.counted

/-- The blocks of an area can be replaced by other blocks that tile it, if the node shows them and
stays the same outside of the area. -/
theorem Carved.replace {low high : Nat} (carved : node.Carved (front ++ area ++ back))
    (frontTiles : Tiles 0 front low) (backTiles : Tiles high back node.top)
    (alike : node.Alike after) (top : after.top = node.top) (freshTiles : Tiles low fresh high)
    (sound : ∀ block ∈ fresh, block.Sound node.sizes) (shown : ∀ block ∈ fresh, after.Shows block)
    (same : ∀ offset, offset < low ∨ high ≤ offset → node.SameAt after offset) :
    after.Carved (front ++ fresh ++ back) := by
  have regular := carved.toRegular.of_alike alike (by rw [top]; exact carved.top_le)
  have highLe := backTiles.le
  refine { regular with tiles := ?_, sound := ?_, shown := ?_, blank := ?_ }
  · rw [top]
    exact (frontTiles.append freshTiles).append backTiles
  · intro block member
    rw [alike.sizes]
    rcases List.mem_append.mp member with inMost | inBack
    · rcases List.mem_append.mp inMost with inFront | inFresh
      · exact carved.sound block (List.mem_append_left _ (List.mem_append_left _ inFront))
      · exact sound block inFresh
    · exact carved.sound block (List.mem_append_right _ inBack)
  · intro block member
    rcases List.mem_append.mp member with inMost | inBack
    · rcases List.mem_append.mp inMost with inFront | inFresh
      · have old := List.mem_append_left back (List.mem_append_left area inFront)
        have inside := frontTiles.bounds inFront
        apply (carved.shown block old).frame (carved.sound block old) alike
        intro offset _ upper
        exact same offset (Or.inl (by omega))
      · exact shown block inFresh
    · have old := List.mem_append_right (front ++ area) inBack
      have inside := backTiles.bounds inBack
      apply (carved.shown block old).frame (carved.sound block old) alike
      intro offset lower _
      exact same offset (Or.inr (by omega))
  · intro offset whole above
    rw [alike.sizes] at whole
    rw [top] at above
    have unchanged := same offset (Or.inr (by omega))
    rw [unchanged.starts whole, unchanged.inUse whole]
    exact carved.blank offset whole above

/-- A block can be added at the top, if the node shows it and stays the same elsewhere. -/
theorem Carved.extend (carved : node.Carved row) (alike : node.Alike after)
    (bottom : block.bottom = node.top) (top : after.top = block.stop)
    (room : block.stop ≤ node.committed) (sound : block.Sound node.sizes)
    (shown : after.Shows block)
    (same : ∀ offset, offset < node.top ∨ block.stop ≤ offset → node.SameAt after offset) :
    after.Carved (row ++ [block]) := by
  have regular := carved.toRegular.of_alike alike (by rw [top]; exact room)
  have nonempty := sound.bottom_lt_stop
  have positive : 0 < block.size := by
    unfold Block.stop at nonempty
    omega
  refine { regular with tiles := ?_, sound := ?_, shown := ?_, blank := ?_ }
  · exact carved.tiles.append (tiles_singleton bottom positive top.symm)
  · intro other member
    rw [alike.sizes]
    rcases List.mem_append.mp member with inRow | isBlock
    · exact carved.sound other inRow
    · rw [List.mem_singleton.mp isBlock]
      exact sound
  · intro other member
    rcases List.mem_append.mp member with inRow | isBlock
    · have inside := carved.tiles.bounds inRow
      apply (carved.shown other inRow).frame (carved.sound other inRow) alike
      intro offset _ upper
      exact same offset (Or.inl (by omega))
    · rw [List.mem_singleton.mp isBlock]
      exact shown
  · intro offset whole above
    rw [alike.sizes] at whole
    rw [top] at above
    have unchanged := same offset (Or.inr above)
    rw [unchanged.starts whole, unchanged.inUse whole]
    exact carved.blank offset whole (by omega)

/-- The top of a carved node is a multiple of the specialized size. -/
theorem Carved.top_whole (carved : node.Carved row) : node.top % node.sizes.specialized = 0 := by
  have sum := carved.tiles.sum_size
  have whole : ∀ size ∈ row.map Block.size, node.sizes.specialized ∣ size := by
    intro size member
    obtain ⟨block, inRow, rfl⟩ := List.mem_map.mp member
    exact Nat.dvd_of_mod_eq_zero (carved.sound block inRow).suits.whole
  rw [← sum, Nat.zero_add]
  exact Nat.mod_eq_zero_of_dvd (List.dvd_sum whole)

/-- The header at the bottom of a block is that of the block. -/
theorem Carved.headerAt_ensures (carved : node.Carved row) (member : block ∈ row) :
    Ensures excuse (node.words.headerAt block.bottom) fun header =>
      header = block.header node.isClass := by
  have sound := carved.sound block member
  have shown := carved.shown block member
  have inside := carved.tiles.bounds member
  have headerLt := sound.suits.header_lt
  have topLe := carved.top_le
  have end_ : block.stop = block.bottom + block.size := rfl
  have room : block.bottom + Header.words ≤ node.words.size := by
    unfold committed at topLe
    omega
  apply (Words.headerAt_ensures room).mono
  rintro header rfl
  rw [shown.sentinel, shown.packed]
  exact sound.decode_header node.isClass

/-- A start is marked exactly where a block starts. -/
theorem Carved.marksStart_iff (carved : node.Carved row) {offset : Nat}
    (whole : offset % node.sizes.specialized = 0) :
    node.map.marksStart offset = true ↔ ∃ block ∈ row, block.bottom = offset := by
  constructor
  · intro marked
    by_cases below : offset < node.top
    · obtain ⟨block, member, lower, upper⟩ := carved.tiles.cover (Nat.zero_le offset) below
      have isBottom := ((carved.shown block member).starts offset whole lower upper).mp marked
      exact ⟨block, member, isBottom.symm⟩
    · rw [(carved.blank offset whole (by omega)).1] at marked
      exact absurd marked Bool.false_ne_true
  · rintro ⟨block, member, rfl⟩
    have inside := carved.tiles.bounds member
    exact ((carved.shown block member).starts _ whole (Nat.le_refl _) inside.2.1).mpr rfl

/-- A granule is marked in use exactly where a block in use lies. -/
theorem Carved.marksInUse_iff (carved : node.Carved row) {offset : Nat}
    (whole : offset % node.sizes.specialized = 0) :
    node.map.marksInUse offset = true ↔
      ∃ block ∈ row, block.isFree = false ∧ block.bottom ≤ offset ∧ offset < block.stop := by
  constructor
  · intro marked
    by_cases below : offset < node.top
    · obtain ⟨block, member, lower, upper⟩ := carved.tiles.cover (Nat.zero_le offset) below
      rw [(carved.shown block member).inUse offset whole lower upper] at marked
      exact ⟨block, member, by simpa using marked, lower, upper⟩
    · rw [(carved.blank offset whole (by omega)).2] at marked
      exact absurd marked Bool.false_ne_true
  · rintro ⟨block, member, used, lower, upper⟩
    rw [(carved.shown block member).inUse offset whole lower upper, used]
    rfl

end Node

end CollectorMemory
