import CollectorMemory.Node.Audit
import CollectorMemory.Proofs.Node.Words
import CollectorMemory.Proofs.Occupancy.Verdict
import CollectorMemory.Proofs.Tiling

/-!
# What the audit of a node accepts

The audit of a node reads memory and map, of which nothing is assumed but that the map covers the node.
`Node.WellFormed` says what a node must be: a row of sound blocks tiles its carved words, memory holds the
header of every block, the map marks the blocks, and the node counts the blocks in use. The audit passes
on these nodes and on no others. The walk finds the row from the headers, and the check of the map goes
along the row from granule to granule, knowing the block that it is in (`Node.Tracks`).
-/

namespace CollectorMemory

/-- The number of blocks of a row that are in use. -/
def inUseCount (row : List Block) : Nat := row.countP fun block => !block.isFree

variable {α β : Type} {excuse : Prop} {node : Node} {row rest : List Block} {block : Block}

/-- Free blocks are not counted. -/
theorem inUseCount_eq_zero (free : ∀ block ∈ row, block.isFree = true) : inUseCount row = 0 := by
  apply List.countP_eq_zero.mpr
  intro block member
  rw [free block member]
  decide

/-- Blocks in use are all counted. -/
theorem inUseCount_eq_length (used : ∀ block ∈ row, block.isFree = false) :
    inUseCount row = row.length := by
  apply List.countP_eq_length.mpr
  intro block member
  rw [used block member]
  decide

/-- A row with a block in use has a positive count. -/
theorem inUseCount_pos (member : block ∈ row) (used : block.isFree = false) :
    0 < inUseCount row := by
  apply List.countP_pos_iff.mpr
  refine ⟨block, member, ?_⟩
  rw [used]
  decide

/-- The first block of a row is counted if it is in use. -/
theorem inUseCount_cons (block : Block) (rest : List Block) (inUse : Nat) :
    (if block.isFree then inUse else inUse + 1) + inUseCount rest =
      inUse + inUseCount (block :: rest) := by
  unfold inUseCount
  rw [List.countP_cons]
  cases block.isFree with
  | true => rfl
  | false =>
    rw [if_neg Bool.false_ne_true, if_pos Bool.not_false, Nat.add_right_comm, Nat.add_assoc inUse]

/-- A size that was read from a header word fits a header. -/
theorem Header.size_decode_lt (first second : UInt64) :
    (decode first second).size.toNat < sizeLimit := by
  have word := second.toNat_lt
  change (second >>> 8).toNat < sizeLimit
  rw [UInt64.toNat_shiftRight, Nat.shiftRight_eq_div_pow]
  exact Nat.div_lt_of_lt_mul (by simpa [sizeLimit] using word)

/-- A size that was read from memory fits a header. -/
theorem Words.size_headerAt_lt {words : Words} {offset : Nat} {header : Header}
    (read : words.headerAt offset = .ok header) : header.size.toNat < Header.sizeLimit := by
  obtain ⟨first, -, read⟩ := bind_eq_ok_iff.mp read
  obtain ⟨second, -, read⟩ := bind_eq_ok_iff.mp read
  cases read
  exact Header.size_decode_lt first second

/-- A code with a kind is the code of the kind. -/
theorem Kind.code_eq {code : UInt8} {kind : Kind} (found : ofCode? code = some kind) :
    code = kind.code := by
  unfold ofCode? at found
  have same := List.find?_some found
  exact (beq_iff_eq.mp same).symm

/-- A code with an origin is the code of the origin. -/
theorem Header.originCode_eq {header : Header} {origin : Origin}
    (found : header.origin? = some origin) : header.originCode = origin.code := by
  unfold Header.origin? at found
  split at found
  · unfold Origin.ofCode? at found
    have same := List.find?_some found
    exact (beq_iff_eq.mp same).symm
  · cases found

/-- Kinds with the same code are equal. -/
theorem Kind.eq_of_code {left right : Kind} (same : left.code = right.code) : left = right := by
  have found := Kind.ofCode?_code left
  rw [same, Kind.ofCode?_code right] at found
  exact (Option.some.inj found).symm

/-- Origins with the same code are equal. -/
theorem Origin.eq_of_code {left right : Origin} (same : left.code = right.code) : left = right := by
  have found := Origin.ofCode?_code left
  rw [same, Origin.ofCode?_code right] at found
  exact (Option.some.inj found).symm

/-- Sound blocks at one place that have the same header are equal. -/
theorem Block.eq_of_header {sizes : ChunkSizes} {isClass : Bool} {other : Block}
    (sound : block.Sound sizes) (otherSound : other.Sound sizes) (bottom : block.bottom = other.bottom)
    (same : block.header isClass = other.header isClass) : block = other := by
  have kind : block.kind = other.kind := Kind.eq_of_code (congrArg Header.kindCode same)
  have origin : block.origin = other.origin := Origin.eq_of_code (congrArg Header.originCode same)
  have isFree : block.isFree = other.isFree := congrArg Header.isFree same
  have size : block.size = other.size := by
    rw [← sound.toNat_size_header isClass, ← otherSound.toNat_size_header isClass, same]
  cases block
  cases other
  simp_all

/-- A header is that of a block if its fields are valid and say the same. -/
theorem Header.eq_header {header : Header} (isAlive : header.isAlive = true)
    (kind : header.kind? = some block.kind) (origin : header.origin? = some block.origin)
    (isFree : header.isFree = block.isFree) (size : header.size.toNat = block.size) :
    header = block.header header.isClass := by
  have sentinel : header.sentinel = Header.alive := beq_iff_eq.mp isAlive
  have kindCode := Kind.code_eq kind
  have originCode := Header.originCode_eq origin
  have sizeWord : header.size = UInt64.ofNat block.size := by rw [← size, UInt64.ofNat_toNat]
  obtain ⟨_, _, _, _, _, _⟩ := header
  simp_all [Block.header]

namespace Node

/-- A node whose map covers its reserved words in granules of the specialized size. -/
structure Dimensioned (node : Node) : Prop where
  /-- The map is regular. -/
  map : node.map.Regular
  /-- The map covers the reserved words. -/
  map_words : node.map.words = node.reserved
  /-- The granule of the map is the specialized size. -/
  map_granule : node.map.granule = node.sizes.specialized

/-- The headers in the memory of a node, from an offset to its top, are those of a row of sound blocks
that tile this range. -/
structure Laid (node : Node) (start : Nat) (row : List Block) : Prop where
  /-- The blocks tile the range. -/
  tiles : Tiles start row node.top
  /-- Every block has a size of its kind and is aligned. -/
  sound : ∀ block ∈ row, block.Sound node.sizes
  /-- The header of every block is at its bottom. -/
  headers : ∀ block ∈ row, node.words.headerAt block.bottom = .ok (block.header node.isClass)

/-- A node that consists of the blocks of a row. -/
structure Consists (node : Node) (row : List Block) : Prop extends node.Laid 0 row where
  /-- What is carved is committed. -/
  top_le : node.top ≤ node.committed
  /-- What is committed is reserved. -/
  committed_le : node.committed ≤ node.reserved
  /-- Below the top the starts are marked at the bottoms of the blocks. -/
  starts : ∀ offset, offset % node.sizes.specialized = 0 → offset < node.top →
    (node.map.marksStart offset = true ↔ ∃ block ∈ row, block.bottom = offset)
  /-- The granules of a block are in use or, if it is free, they are not. -/
  inUse : ∀ block ∈ row, ∀ offset, offset % node.sizes.specialized = 0 → block.bottom ≤ offset →
    offset < block.stop → node.map.marksInUse offset = !block.isFree

/-- A node that consists of the blocks of a row and counts those in use. -/
structure WellFormed (node : Node) (row : List Block) : Prop extends node.Consists row where
  /-- The count is that of the blocks in use. -/
  count : node.chunksInUse = inUseCount row

/-- The first block of a row is laid in front of the others. -/
theorem laid_cons {start : Nat} :
    node.Laid start (block :: rest) ↔ block.bottom = start ∧ block.Sound node.sizes ∧
      node.words.headerAt block.bottom = .ok (block.header node.isClass) ∧
        node.Laid block.stop rest := by
  constructor
  · intro laid
    obtain ⟨bottom, -, tiles⟩ := laid.tiles
    exact ⟨bottom, laid.sound block List.mem_cons_self, laid.headers block List.mem_cons_self, tiles,
      fun other member => laid.sound other (List.mem_cons_of_mem block member),
      fun other member => laid.headers other (List.mem_cons_of_mem block member)⟩
  · intro ⟨bottom, sound, header, laid⟩
    have positive : 0 < block.size := Nat.zero_lt_of_lt sound.suits.header_lt
    refine ⟨⟨bottom, positive, laid.tiles⟩, ?_, ?_⟩
    · intro other member
      rcases List.mem_cons.mp member with rfl | inRest
      · exact sound
      · exact laid.sound other inRest
    · intro other member
      rcases List.mem_cons.mp member with rfl | inRest
      · exact header
      · exact laid.headers other inRest

/-- No second row is laid from an offset to the top of a node. -/
theorem Laid.row_eq {start : Nat} {other : List Block} (laid : node.Laid start row)
    (otherLaid : node.Laid start other) : row = other := by
  induction row generalizing start other with
  | nil =>
    have empty : start = node.top := laid.tiles
    cases other with
    | nil => rfl
    | cons head rest =>
      have inside := otherLaid.tiles.bounds List.mem_cons_self
      omega
  | cons head rest ih =>
    cases other with
    | nil =>
      have empty : start = node.top := otherLaid.tiles
      have inside := laid.tiles.bounds List.mem_cons_self
      omega
    | cons otherHead otherRest =>
      obtain ⟨bottom, sound, header, restLaid⟩ := laid_cons.mp laid
      obtain ⟨otherBottom, otherSound, otherHeader, otherRestLaid⟩ := laid_cons.mp otherLaid
      have same : head = otherHead := by
        rw [bottom, ← otherBottom, otherHeader, Except.ok.injEq] at header
        exact Block.eq_of_header sound otherSound (bottom.trans otherBottom.symm) header.symm
      subst same
      rw [ih restLaid otherRestLaid]

/-- The header of a sound block passes the audit, which finds the size of the block. -/
theorem auditHeader_ensures (sound : block.Sound node.sizes) :
    Ensures excuse (node.auditHeader block.bottom (block.header node.isClass)) fun size =>
      size.val = block.size := by
  have fits : node.sizes.isChunkSize block.size := sound.suits.isChunkSize
  have size := sound.toNat_size_header node.isClass
  have kind := ChunkSizes.kindOfSize_eq_ok_iff.mpr sound.suits
  unfold auditHeader
  apply Ensures.bind (ensures_require fun _ => Block.isAlive_header block node.isClass)
  intro _ _
  simp only [Block.kind?_header, size]
  apply Ensures.bind (ensures_require fun _ => by rw [Block.origin?_header]; rfl)
  intro _ _
  apply Ensures.bind (ensures_require fun _ => beq_self_eq_true _)
  intro _ _
  rw [dif_pos fits, kind]
  apply Ensures.bind (ensures_require fun _ => beq_self_eq_true _)
  intro _ _
  apply Ensures.bind (Count.isMultiple_ensures sound.suits.alignment_pos)
  rintro aligned rfl
  apply Ensures.bind (ensures_require fun _ => beq_iff_eq.mpr sound.aligned)
  intro _ _
  rfl

/-- A header that passes the audit is that of a sound block. -/
theorem exists_block_of_auditHeader {offset : Nat} {header : Header}
    {size : { size : Nat // 0 < size }} (short : header.size.toNat < Header.sizeLimit)
    (passed : node.auditHeader offset header = .ok size) :
    ∃ block : Block, block.bottom = offset ∧ block.Sound node.sizes ∧
      header = block.header node.isClass ∧ size.val = block.size := by
  unfold auditHeader at passed
  obtain ⟨alive, passed⟩ := require_bind_eq_ok_iff.mp passed
  cases isKind : header.kind? with
  | none =>
    rw [isKind] at passed
    cases passed
  | some kind =>
    rw [isKind] at passed
    obtain ⟨hasOrigin, passed⟩ := require_bind_eq_ok_iff.mp passed
    obtain ⟨isClass, passed⟩ := require_bind_eq_ok_iff.mp passed
    obtain ⟨origin, isOrigin⟩ := Option.isSome_iff_exists.mp hasOrigin
    split at passed
    · next fits =>
      obtain ⟨found, isFound, passed⟩ := bind_eq_ok_iff.mp passed
      obtain ⟨same, passed⟩ := require_bind_eq_ok_iff.mp passed
      obtain ⟨multiple, isMultiple, passed⟩ := bind_eq_ok_iff.mp passed
      obtain ⟨aligned, passed⟩ := require_bind_eq_ok_iff.mp passed
      cases passed
      refine ⟨⟨offset, header.size.toNat, kind, origin, header.isFree⟩, rfl, ⟨?_, ?_, short⟩, ?_, rfl⟩
      · rw [beq_iff_eq] at same
        subst same
        exact ChunkSizes.kindOfSize_eq_ok_iff.mp isFound
      · obtain ⟨-, isMultiple⟩ := require_bind_eq_ok_iff.mp isMultiple
        cases isMultiple
        exact beq_iff_eq.mp aligned
      · rw [← beq_iff_eq.mp isClass]
        exact Header.eq_header alive isKind isOrigin rfl rfl
    · cases passed

/-- The walk from an offset comes to the top exactly if a row is laid from there, and it counts what is
in use in the row. -/
theorem walk_eq_ok_iff {offset inUse count : Nat} :
    node.walk offset inUse = .ok (node.top, count) ↔
      ∃ row, node.Laid offset row ∧ count = inUse + inUseCount row := by
  induction left : node.top - offset using Nat.strong_induction_on generalizing offset inUse with
  | _ left ih =>
    rw [walk]
    by_cases more : offset < node.top
    · rw [if_pos more]
      constructor
      · intro walked
        obtain ⟨header, read, walked⟩ := bind_eq_ok_iff.mp walked
        obtain ⟨⟨size, positive⟩, passed, walked⟩ := bind_eq_ok_iff.mp walked
        obtain ⟨block, rfl, sound, rfl, rfl⟩ :=
          exists_block_of_auditHeader (Words.size_headerAt_lt read) passed
        obtain ⟨rest, laid, counted⟩ := (ih _ (by omega) rfl).mp walked
        refine ⟨block :: rest, laid_cons.mpr ⟨rfl, sound, read, laid⟩, ?_⟩
        rw [← inUseCount_cons]
        exact counted
      · intro ⟨row, laid, counted⟩
        cases row with
        | nil =>
          have same : offset = node.top := laid.tiles
          omega
        | cons block rest =>
          obtain ⟨rfl, sound, read, laid⟩ := laid_cons.mp laid
          obtain ⟨⟨size, positive⟩, passed, same⟩ := (auditHeader_ensures sound).exists_ok
          change size = block.size at same
          subst same
          rw [read]
          change (node.auditHeader block.bottom _ >>= _) = _
          rw [passed]
          refine (ih _ (by omega) rfl).mpr ⟨rest, laid, ?_⟩
          rw [counted, ← inUseCount_cons]
          rfl
    · rw [if_neg more]
      constructor
      · intro walked
        cases walked
        exact ⟨[], ⟨rfl, nofun, nofun⟩, rfl⟩
      · intro ⟨row, laid, counted⟩
        cases row with
        | nil =>
          have same : offset = node.top := laid.tiles
          rw [same, counted]
          rfl
        | cons block rest =>
          have inside := laid.tiles.bounds List.mem_cons_self
          omega

/-- What the check of the map knows when it comes to an offset: where the next chunk must start, and
inside of a chunk the header of the chunk. -/
def Tracks (node : Node) (row : List Block) (offset : Nat)
    (covering : Option Occupancy.Covering) : Prop :=
  ∀ block ∈ row, block.bottom ≤ offset → offset < block.stop →
    if block.bottom = offset then covering.elim 0 Occupancy.Covering.stop = offset
    else ∃ cover, covering = some cover ∧ cover.stop = block.stop ∧
      cover.header = block.header node.isClass

/-- The header of a sound block passes the check of its alignment. -/
theorem auditAlignment_ensures (sound : block.Sound node.sizes) :
    Ensures excuse (Occupancy.auditAlignment block.bottom (block.header node.isClass))
      fun _ => True := by
  have headerLt := sound.suits.header_lt
  unfold Occupancy.auditAlignment
  rw [Block.kind?_header, sound.toNat_size_header node.isClass]
  by_cases humongous : block.kind = .humongous
  · rw [if_pos (congrArg some humongous)]
    trivial
  · rw [if_neg (by simpa using humongous)]
    apply Ensures.bind (Count.isMultiple_ensures (by omega))
    intro multiple isMultiple
    apply (ensures_require fun _ => ?_).mono fun _ _ => trivial
    rw [isMultiple]
    exact beq_iff_eq.mpr (sound.bottom_aligned humongous)

/-- The granule at an offset is covered by the block that the offset lies in. -/
theorem cover_ensures {offset : Nat} {covering : Option Occupancy.Covering} {isStart : Bool}
    (laid : node.Laid 0 row) (counted : node.top < wordLimit) (member : block ∈ row)
    (lower : block.bottom ≤ offset) (upper : offset < block.stop)
    (start : isStart = true ↔ offset = block.bottom) (tracks : node.Tracks row offset covering) :
    Ensures excuse (Occupancy.cover 0 node.top node.words.headerAt offset covering isStart)
      fun cover => cover.stop = block.stop ∧ cover.header = block.header node.isClass := by
  have sound := laid.sound block member
  have inside := laid.tiles.bounds member
  have size := sound.toNat_size_header node.isClass
  have end_ : block.stop = block.bottom + block.size := rfl
  have known := tracks block member lower upper
  unfold Occupancy.cover
  by_cases first : offset = block.bottom
  · subst first
    rw [if_pos rfl] at known
    rw [if_pos (start.mpr rfl)]
    unfold Occupancy.enter
    apply Ensures.bind (ensures_require fun _ => beq_iff_eq.mpr known)
    intro _ _
    apply Ensures.bind (ensures_eq (laid.headers block member))
    intro header isHeader
    subst isHeader
    apply Ensures.bind (ensures_require fun _ => Block.isAlive_header block node.isClass)
    intro _ _
    apply Ensures.bind (ensures_require fun _ => by rw [Block.kind?_header]; rfl)
    intro _ _
    apply Ensures.bind (auditAlignment_ensures sound)
    intro _ _
    rw [size]
    apply Ensures.bind (Count.add_ensures fun _ => by omega)
    intro stop ⟨isStop, _⟩
    subst isStop
    apply Ensures.bind (ensures_require fun _ => decide_eq_true (by omega))
    intro _ _
    exact ⟨rfl, rfl⟩
  · rw [if_neg (fun equal => first equal.symm)] at known
    obtain ⟨cover, rfl, stop, header⟩ := known
    rw [if_neg (by rw [start]; exact first)]
    unfold Occupancy.stay
    apply Ensures.bind (ensures_require fun _ => decide_eq_true (by omega))
    intro _ _
    exact ⟨stop, header⟩

/-- The granule at an offset is covered by a chunk only if the start there is marked as it should be. -/
theorem start_iff_of_cover {offset : Nat} {covering : Option Occupancy.Covering} {isStart : Bool}
    {cover : Occupancy.Covering} (member : block ∈ row)
    (lower : block.bottom ≤ offset) (upper : offset < block.stop)
    (tracks : node.Tracks row offset covering)
    (covered : Occupancy.cover 0 node.top node.words.headerAt offset covering isStart = .ok cover) :
    isStart = true ↔ offset = block.bottom := by
  have known := tracks block member lower upper
  unfold Occupancy.cover at covered
  cases isStart with
  | true =>
    rw [if_pos rfl] at covered
    obtain ⟨expected, -⟩ := require_bind_eq_ok_iff.mp covered
    rw [beq_iff_eq] at expected
    refine ⟨fun _ => ?_, fun _ => rfl⟩
    by_cases first : block.bottom = offset
    · exact first.symm
    · rw [if_neg first] at known
      obtain ⟨before, rfl, stop, -⟩ := known
      change before.stop = offset at expected
      omega
  | false =>
    rw [if_neg Bool.false_ne_true] at covered
    refine ⟨nofun, fun first => ?_⟩
    rw [if_pos first.symm] at known
    cases covering with
    | none => cases covered
    | some before =>
      obtain ⟨inside, -⟩ := require_bind_eq_ok_iff.mp covered
      have inside := of_decide_eq_true inside
      change before.stop = offset at known
      omega

/-- The map marks a granule as one of a block: as a start if it is the first one, and in use unless the
block is free. -/
def Marked (node : Node) (block : Block) (offset : Nat) : Prop :=
  (node.map.marksStart offset = true ↔ offset = block.bottom) ∧
    node.map.marksInUse offset = !block.isFree

/-- The map marks the granules of a row from an offset on. -/
def MarkedFrom (node : Node) (row : List Block) (offset : Nat) : Prop :=
  ∀ other, other % node.sizes.specialized = 0 → offset ≤ other → ∀ block ∈ row,
    block.bottom ≤ other → other < block.stop → node.Marked block other

/-- The granules from an offset on are the one at the offset and those from the next one on. -/
theorem markedFrom_iff (laid : node.Laid 0 row) {offset : Nat}
    (whole : offset % node.sizes.specialized = 0) (member : block ∈ row)
    (lower : block.bottom ≤ offset) (upper : offset < block.stop) :
    node.MarkedFrom row offset ↔
      node.Marked block offset ∧ node.MarkedFrom row (offset + node.sizes.specialized) := by
  constructor
  · intro marked
    refine ⟨marked offset whole (Nat.le_refl offset) block member lower upper, ?_⟩
    intro other otherWhole above
    exact marked other otherWhole (by omega)
  · intro ⟨here, later⟩ other otherWhole above next nextMember nextLower nextUpper
    by_cases same : other = offset
    · subst same
      have isBlock := laid.tiles.eq_of_meet nextMember member (by omega) (by omega)
      rw [isBlock]
      exact here
    · have step : offset + node.sizes.specialized ≤ other :=
        Nat.ModEq.add_le_of_lt (whole.trans otherWhole.symm) (by omega)
      exact later other otherWhole step next nextMember nextLower nextUpper

/-- What is known in one granule of a block leads to what is known in the next granule. -/
theorem Tracks.next (laid : node.Laid 0 row) {offset : Nat} {cover : Occupancy.Covering}
    (whole : offset % node.sizes.specialized = 0) (member : block ∈ row)
    (lower : block.bottom ≤ offset) (upper : offset < block.stop) (stop : cover.stop = block.stop)
    (header : cover.header = block.header node.isClass) :
    node.Tracks row (offset + node.sizes.specialized) (some cover) := by
  have positive := node.sizes.specialized_pos
  have nextWhole := Occupancy.add_whole whole (Nat.mod_self node.sizes.specialized)
  have notPast : offset + node.sizes.specialized ≤ block.stop :=
    Nat.le_of_lt_add_of_dvd (by omega) (Nat.dvd_of_mod_eq_zero nextWhole)
      (Nat.dvd_of_mod_eq_zero (laid.sound block member).stop_whole)
  intro other otherMember otherLower otherUpper
  by_cases same : other = block
  · subst same
    rw [if_neg (by omega)]
    exact ⟨cover, rfl, stop, header⟩
  · have apart : block.stop ≤ other.bottom := by
      by_cases meets : other.bottom < block.stop
      · exact absurd (laid.tiles.eq_of_meet otherMember member (by omega) (by omega)) same
      · omega
    rw [if_pos (by omega)]
    change cover.stop = _
    omega

/-- The check of the map passes from a granule on exactly if each granule from there to the top is marked
as one of the block that it lies in. -/
theorem auditFrom_eq_ok_iff (dimensioned : node.Dimensioned) (laid : node.Laid 0 row)
    (topLe : node.top ≤ node.reserved) {offset : Nat} {covering : Option Occupancy.Covering}
    (whole : offset % node.sizes.specialized = 0) (tracks : node.Tracks row offset covering) :
    node.map.auditFrom 0 node.top node.words.headerAt offset covering = .ok () ↔
      node.MarkedFrom row offset := by
  have positive := node.sizes.specialized_pos
  have counted := dimensioned.map.counted
  have words := dimensioned.map_words
  induction left : node.top - offset using Nat.strong_induction_on generalizing offset covering with
  | _ left ih =>
    by_cases more : offset < node.top
    · have granuleWhole : offset % node.map.granule = 0 := by
        rw [dimensioned.map_granule]
        exact whole
      obtain ⟨block, member, lower, upper⟩ := laid.tiles.cover (Nat.zero_le offset) more
      rw [Occupancy.auditFrom_step_iff dimensioned.map (by omega) granuleWhole more,
        markedFrom_iff laid whole member lower upper]
      have later : ∀ cover : Occupancy.Covering, cover.stop = block.stop →
          cover.header = block.header node.isClass →
          (node.map.auditFrom 0 node.top node.words.headerAt (offset + node.map.granule)
            (some cover) = .ok () ↔ node.MarkedFrom row (offset + node.sizes.specialized)) := by
        intro cover stop header
        rw [dimensioned.map_granule]
        exact ih (node.top - (offset + node.sizes.specialized)) (by omega)
          (Occupancy.add_whole whole (Nat.mod_self node.sizes.specialized))
          (Tracks.next laid whole member lower upper stop header) rfl
      by_cases start : node.map.marksStart offset = true ↔ offset = block.bottom
      · obtain ⟨cover, covered, stop, header⟩ :=
          (cover_ensures laid (by omega) member lower upper start tracks).exists_ok
        rw [covered]
        constructor
        · rintro ⟨other, same, agreed, passed⟩
          cases same
          rw [header] at agreed
          exact ⟨⟨start, agreed⟩, (later cover stop header).mp passed⟩
        · intro ⟨here, rest⟩
          refine ⟨cover, rfl, ?_, (later cover stop header).mpr rest⟩
          rw [header]
          exact here.2
      · constructor
        · intro ⟨cover, covered, _⟩
          exact absurd (start_iff_of_cover member lower upper tracks covered) start
        · intro ⟨here, _⟩
          exact absurd here.1 start
    · rw [Occupancy.auditFrom, if_neg more]
      refine ⟨fun _ other _ above block member _ upper => ?_, fun _ => rfl⟩
      have inside := laid.tiles.bounds member
      omega

/-- The map marks all granules of a row exactly if the starts and the granules in use are those of its
blocks. -/
theorem markedFrom_zero_iff (laid : node.Laid 0 row) :
    node.MarkedFrom row 0 ↔
      (∀ offset, offset % node.sizes.specialized = 0 → offset < node.top →
        (node.map.marksStart offset = true ↔ ∃ block ∈ row, block.bottom = offset)) ∧
      ∀ block ∈ row, ∀ offset, offset % node.sizes.specialized = 0 → block.bottom ≤ offset →
        offset < block.stop → node.map.marksInUse offset = !block.isFree := by
  constructor
  · intro marked
    refine ⟨fun offset whole below => ?_, fun block member offset whole lower upper => ?_⟩
    · obtain ⟨block, member, lower, upper⟩ := laid.tiles.cover (Nat.zero_le offset) below
      rw [(marked offset whole (Nat.zero_le offset) block member lower upper).1]
      constructor
      · exact fun same => ⟨block, member, same.symm⟩
      · intro ⟨other, otherMember, same⟩
        have otherInside := laid.tiles.bounds otherMember
        rw [← laid.tiles.eq_of_meet otherMember member (by omega) (by omega), same]
    · exact (marked offset whole (Nat.zero_le offset) block member lower upper).2
  · intro ⟨starts, inUse⟩ offset whole _ block member lower upper
    have inside := laid.tiles.bounds member
    refine ⟨?_, inUse block member offset whole lower upper⟩
    rw [starts offset whole (by omega)]
    constructor
    · intro ⟨other, otherMember, same⟩
      have otherInside := laid.tiles.bounds otherMember
      rw [← laid.tiles.eq_of_meet otherMember member (by omega) (by omega), same]
    · exact fun same => ⟨block, member, same.symm⟩

/-- The audit of a node passes exactly if the node consists of the blocks of some row. -/
theorem audit_eq_ok_iff (dimensioned : node.Dimensioned) :
    node.audit = .ok () ↔ ∃ row, node.WellFormed row := by
  have tracked : ∀ row, node.Laid 0 row → node.Tracks row 0 none := by
    intro row laid block member lower _
    rw [if_pos (by omega)]
    rfl
  have mapped : ∀ row, node.Laid 0 row → node.top ≤ node.reserved →
      (node.map.audit 0 node.top node.words.headerAt = .ok () ↔ node.MarkedFrom row 0) :=
    fun row laid topLe => auditFrom_eq_ok_iff dimensioned laid topLe (Nat.zero_mod _) (tracked row laid)
  unfold audit
  constructor
  · intro passed
    obtain ⟨bounds, walkPassed⟩ := require_bind_eq_ok_iff.mp passed
    obtain ⟨⟨stop, inUse⟩, walked, stopPassed⟩ := bind_eq_ok_iff.mp walkPassed
    obtain ⟨stops, countPassed⟩ := require_bind_eq_ok_iff.mp stopPassed
    obtain ⟨counts, mapPassed⟩ := require_bind_eq_ok_iff.mp countPassed
    simp only [Bool.and_eq_true, decide_eq_true_eq, beq_iff_eq] at bounds stops counts
    subst stops
    obtain ⟨row, laid, counted⟩ := walk_eq_ok_iff.mp walked
    have marked := (mapped row laid (by omega)).mp mapPassed
    obtain ⟨starts, marks⟩ := (markedFrom_zero_iff laid).mp marked
    exact ⟨row, ⟨laid, bounds.1, bounds.2, starts, marks⟩, by omega⟩
  · intro ⟨row, formed⟩
    have laid := formed.toLaid
    have topLe := formed.top_le
    have committedLe := formed.committed_le
    have walked : node.walk 0 0 = .ok (node.top, node.chunksInUse) :=
      walk_eq_ok_iff.mpr ⟨row, laid, by rw [formed.count, Nat.zero_add]⟩
    refine require_bind_eq_ok_iff.mpr ⟨by simp [topLe, committedLe], ?_⟩
    refine bind_eq_ok_iff.mpr ⟨_, walked, ?_⟩
    refine require_bind_eq_ok_iff.mpr ⟨beq_self_eq_true _, ?_⟩
    refine require_bind_eq_ok_iff.mpr ⟨beq_self_eq_true _, ?_⟩
    refine (mapped row laid (by omega)).mpr ?_
    exact (markedFrom_zero_iff laid).mpr ⟨formed.starts, formed.inUse⟩

/-- Whatever the memory, the top, the count and the map of a node say, the audit comes to a verdict: it
passes if the node consists of the blocks of some row, and fails if it does not. -/
theorem audit_verdict (dimensioned : node.Dimensioned) :
    ((∃ row, node.WellFormed row) → node.audit = .ok ()) ∧
      ((¬∃ row, node.WellFormed row) → ∃ fault, node.audit = .error fault) := by
  refine ⟨(audit_eq_ok_iff dimensioned).mpr, fun unformed => ?_⟩
  cases verdict : node.audit with
  | ok => exact absurd ((audit_eq_ok_iff dimensioned).mp verdict) unformed
  | error fault => exact ⟨fault, rfl⟩

/-- A node of two chunks, a small one in use and a specialized one that is free. -/
def pair : Node where
  id := ⟨.nonClass, 0⟩
  sizes := ⟨4, 8, 16, by decide, by decide, by decide, rfl, rfl⟩
  reserved := 32
  audited := true
  words := #[Header.alive, 0x811, 0, 0, 0, 0, 0, 0, Header.alive, 0x490, 0, 0, 0, 0, 0, 0]
  top := 12
  chunksInUse := 1
  map := ⟨32, 4, ⟨#[0b101]⟩, ⟨#[0b011]⟩, by decide⟩

/-- The map of the two chunks covers their node. -/
theorem pair_dimensioned : pair.Dimensioned := ⟨⟨rfl, by decide, by decide, by decide⟩, rfl, rfl⟩

/-- The node consists of the two chunks. -/
theorem pair_wellFormed : pair.WellFormed
    [⟨0, 8, .small, .normal, false⟩, ⟨8, 4, .specialized, .normal, true⟩] where
  tiles := ⟨rfl, by decide, rfl, by decide, rfl⟩
  sound := by
    have first : (⟨0, 8, .small, .normal, false⟩ : Block).Sound pair.sizes := ⟨rfl, rfl, by decide⟩
    have second : (⟨8, 4, .specialized, .normal, true⟩ : Block).Sound pair.sizes :=
      ⟨rfl, rfl, by decide⟩
    simp [first, second]
  headers := List.forall_mem_cons.mpr ⟨rfl, List.forall_mem_singleton.mpr rfl⟩
  top_le := by decide
  committed_le := by decide
  starts := by
    have marks : ∀ offset < 12, offset % 4 = 0 →
        (pair.map.marksStart offset = true ↔ offset = 0 ∨ offset = 8) := by decide
    intro offset whole below
    rw [marks offset below whole]
    simp [eq_comm]
  inUse := by
    have first : ∀ offset < 8, pair.map.marksInUse offset = true := by decide
    have second : ∀ offset < 12, 8 ≤ offset → pair.map.marksInUse offset = false := by decide
    refine List.forall_mem_cons.mpr ⟨?_, List.forall_mem_singleton.mpr ?_⟩
    · exact fun offset _ _ upper => first offset upper
    · exact fun offset _ lower upper => second offset upper lower
  count := rfl

/-- The audit passes on the two chunks, and fails where the top is not committed. -/
theorem pair_verdict : pair.audit = .ok () ∧
    ∃ fault, { pair with top := 20 }.audit = .error fault := by
  refine ⟨(audit_verdict pair_dimensioned).1 ⟨_, pair_wellFormed⟩, ?_⟩
  have dimensioned : { pair with top := 20 }.Dimensioned :=
    ⟨pair_dimensioned.map, rfl, rfl⟩
  apply (audit_verdict dimensioned).2
  intro ⟨row, formed⟩
  exact absurd formed.top_le (by decide)

end Node

end CollectorMemory
