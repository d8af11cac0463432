import CollectorMemory.Proofs.Node.WellFormed

/-!
# Handles that a node accepts

A handle may be stale or made up, and what a user wrote to a chunk may look like a header. The audit of a
handle still accepts the handles of the blocks of the node alone (`Node.Genuine`). A handle that passes
begins where a start is marked, which is at the bottom of a block, and the header that it is compared with
there is the header of this block.
-/

namespace CollectorMemory

variable {excuse : Prop} {node : Node} {row : List Block} {block : Block} {chunk : Chunk}

/-- A handle with the range and the header of a block is a handle of the block. -/
theorem Chunk.block_eq {isClass : Bool} (bottom : block.bottom = chunk.bottom)
    (size : block.size = chunk.size) (header : block.header isClass = chunk.header) :
    chunk.block = block := by
  have kind : block.kind = chunk.kind := Kind.eq_of_code (congrArg Header.kindCode header)
  have origin : block.origin = chunk.origin :=
    Origin.eq_of_code (congrArg Header.originCode header)
  have isFree : block.isFree = chunk.isFree := congrArg Header.isFree header
  unfold Chunk.block
  rw [← bottom, ← size, ← kind, ← origin, ← isFree]

/-- A start that a map shows is marked at a granule. -/
theorem Occupancy.marksStart_of_startsAt {map : Occupancy} {offset : Nat} (regular : map.Regular)
    (found : map.startsAt offset = .ok true) :
    offset % map.granule = 0 ∧ map.marksStart offset = true := by
  obtain ⟨position, isPosition, -⟩ := bind_eq_ok_iff.mp found
  obtain ⟨whole, belowPassed⟩ := require_bind_eq_ok_iff.mp isPosition
  obtain ⟨below, -⟩ := require_bind_eq_ok_iff.mp belowPassed
  simp only [beq_iff_eq, decide_eq_true_eq] at whole below
  obtain ⟨value, isValue, same⟩ := (startsAt_ensures regular whole below).exists_ok
  rw [found, Except.ok.injEq] at isValue
  exact ⟨whole, same ▸ isValue.symm⟩

namespace Node

/-- A handle of a block of a row: it names the node, the block has its range and its header, and its top
lies behind the header in the block. -/
structure Genuine (node : Node) (row : List Block) (chunk : Chunk) : Prop where
  /-- The handle names the node. -/
  container : chunk.container = node.id
  /-- A block has the range and the header of the handle. -/
  found : ∃ block ∈ row, block.bottom = chunk.bottom ∧ block.size = chunk.size ∧
    block.header node.isClass = chunk.header
  /-- The top is not in the header. -/
  payload_le : chunk.payload ≤ chunk.top
  /-- The top is not past the end. -/
  top_le : chunk.top ≤ chunk.stop

/-- The block of a genuine handle is in the row. -/
theorem Genuine.block_mem (genuine : node.Genuine row chunk) : chunk.block ∈ row := by
  obtain ⟨block, member, bottom, size, header⟩ := genuine.found
  rw [Chunk.block_eq bottom size header]
  exact member

/-- A genuine handle is sound and of the space of its node. -/
theorem Genuine.sound (laid : node.Laid 0 row) (genuine : node.Genuine row chunk) :
    chunk.Sound node.sizes ∧ chunk.isClass = node.isClass := by
  obtain ⟨block, -, -, -, header⟩ := genuine.found
  have sentinel : chunk.sentinel = Header.alive := (congrArg Header.sentinel header).symm
  have isClass : chunk.isClass = node.isClass := (congrArg Header.isClass header).symm
  exact ⟨⟨sentinel, laid.sound _ genuine.block_mem, genuine.payload_le, genuine.top_le⟩, isClass⟩

/-- The offsets below the top of a node are counts. -/
theorem Dimensioned.top_lt (dimensioned : node.Dimensioned) (consists : node.Consists row) :
    node.top ≤ node.map.words ∧ node.map.words < wordLimit := by
  have topLe := consists.top_le
  have committedLe := consists.committed_le
  rw [dimensioned.map_words]
  exact ⟨by omega, dimensioned.map_words ▸ dimensioned.map.counted⟩

/-- The map of a node shows no start inside of a block. -/
theorem Consists.auditInside_ensures (consists : node.Consists row) (dimensioned : node.Dimensioned)
    (member : chunk.block ∈ row) : Ensures excuse (node.map.auditInside chunk) fun _ => True := by
  have sound := consists.sound _ member
  have inside := consists.tiles.bounds member
  have granule := dimensioned.map_granule
  have positive := node.sizes.specialized_pos
  have counted := dimensioned.top_lt consists
  have bottomWhole : chunk.bottom % node.sizes.specialized = 0 := sound.bottom_whole
  have sizeWhole : chunk.size % node.sizes.specialized = 0 := sound.suits.whole
  have end_ : chunk.block.stop = chunk.bottom + chunk.size := rfl
  unfold Occupancy.auditInside
  rw [granule]
  by_cases larger : node.sizes.specialized < chunk.size
  · rw [if_pos larger]
    have secondWhole := Occupancy.add_whole bottomWhole (Nat.mod_self node.sizes.specialized)
    have restWhole : (chunk.size - node.sizes.specialized) % node.sizes.specialized = 0 := by
      rw [Nat.mod_eq_sub_mod (by omega)] at sizeWhole
      exact sizeWhole
    apply Ensures.bind (Count.add_ensures fun _ => by omega)
    intro second ⟨isSecond, _⟩
    subst isSecond
    apply Ensures.bind (Occupancy.range_ensures dimensioned.map (by rw [granule]; exact secondWhole)
      (by rw [granule]; exact restWhole) (by omega) (by omega))
    intro ⟨first, last⟩ same
    cases same
    have inRoom : (chunk.bottom + node.sizes.specialized) / node.map.granule +
        (chunk.size - node.sizes.specialized) / node.map.granule ≤
          node.map.words / node.map.granule :=
      Occupancy.region_le (by rw [granule]; exact secondWhole) (by omega)
    apply Ensures.bind (node.map.starts.anySet_ensures (Nat.le_add_right _ _)
      (Nat.le_trans inRoom dimensioned.map.starts_room))
    intro found exists_
    apply (ensures_require fun _ => ?_).mono fun _ _ => trivial
    cases found with
    | false => rfl
    | true =>
      rw [granule, Occupancy.exists_bit_iff positive secondWhole restWhole] at exists_
      obtain ⟨offset, whole, lower, upper, marked⟩ := exists_.mp rfl
      have marked' : node.map.marksStart offset = true := by
        unfold Occupancy.marksStart
        rw [granule]
        exact marked
      obtain ⟨other, otherMember, isBottom⟩ :=
        (consists.starts offset whole (by omega)).mp marked'
      have otherInside := consists.tiles.bounds otherMember
      have bottom : chunk.block.bottom = chunk.bottom := rfl
      have same := consists.tiles.eq_of_meet otherMember member (by omega) (by omega)
      rw [same] at isBottom
      omega
  · rw [if_neg larger]
    trivial

/-- The map of a node shows a block as it is. -/
theorem Consists.auditMap_ensures (consists : node.Consists row) (dimensioned : node.Dimensioned)
    (member : chunk.block ∈ row) : Ensures excuse (node.map.auditChunk chunk) fun _ => True := by
  have sound := consists.sound _ member
  have inside := consists.tiles.bounds member
  have counted := dimensioned.top_lt consists
  have granule := dimensioned.map_granule
  have bottomWhole : chunk.bottom % node.map.granule = 0 := by
    rw [granule]
    exact sound.bottom_whole
  have sizeWhole : chunk.size % node.map.granule = 0 := by
    rw [granule]
    exact sound.suits.whole
  have bottom : chunk.block.bottom = chunk.bottom := rfl
  have end_ : chunk.block.stop = chunk.bottom + chunk.size := rfl
  have marked : ∀ offset, offset % node.map.granule = 0 → chunk.bottom ≤ offset →
      offset < chunk.bottom + chunk.size → node.map.marksInUse offset = !chunk.isFree := by
    intro offset whole lower upper
    rw [granule] at whole
    exact consists.inUse _ member offset whole lower upper
  unfold Occupancy.auditChunk
  apply Ensures.bind (Occupancy.startsAt_ensures dimensioned.map bottomWhole (by omega))
  intro value isValue
  subst isValue
  apply Ensures.bind (ensures_require fun _ =>
    (consists.starts _ sound.bottom_whole (by omega)).mpr ⟨_, member, rfl⟩)
  intro _ _
  apply Ensures.bind (consists.auditInside_ensures dimensioned member)
  intro _ _
  cases free : chunk.isFree with
  | true =>
    apply Ensures.bind (Occupancy.anyInUse_ensures dimensioned.map bottomWhole sizeWhole (by omega)
      (by omega))
    intro found exists_
    apply (ensures_require fun _ => ?_).mono fun _ _ => trivial
    cases found with
    | false => rfl
    | true =>
      obtain ⟨offset, whole, lower, upper, inUse⟩ := exists_.mp rfl
      rw [marked offset whole lower upper, free] at inUse
      exact absurd inUse Bool.false_ne_true
  | false =>
    apply Ensures.bind (Occupancy.allInUse_ensures dimensioned.map bottomWhole sizeWhole (by omega)
      (by omega))
    intro all every
    apply (ensures_require fun _ => ?_).mono fun _ _ => trivial
    rw [every]
    intro offset whole lower upper
    rw [marked offset whole lower upper, free]
    rfl

/-- The audit of a genuine handle passes. -/
theorem Genuine.auditChunk_ensures (genuine : node.Genuine row chunk)
    (consists : node.Consists row) (dimensioned : node.Dimensioned) :
    Ensures excuse (node.auditChunk chunk) fun _ => True := by
  obtain ⟨sound, isClass⟩ := genuine.sound consists.toLaid
  have inside := consists.tiles.bounds genuine.block_mem
  have stop : chunk.stop = chunk.block.stop := rfl
  unfold auditChunk
  apply Ensures.bind sound.audit_ensures
  intro _ _
  apply Ensures.bind (ensures_require fun _ => beq_iff_eq.mpr genuine.container)
  intro _ _
  apply Ensures.bind (ensures_require fun _ => decide_eq_true (by omega))
  intro _ _
  apply Ensures.bind (ensures_eq (consists.headers _ genuine.block_mem))
  intro header isHeader
  subst isHeader
  apply Ensures.bind (ensures_require fun _ => by
    rw [Chunk.header_eq sound.alive, isClass]
    exact beq_self_eq_true _)
  intro _ _
  exact consists.auditMap_ensures dimensioned genuine.block_mem

/-- The audit of a handle passes for genuine handles only. -/
theorem genuine_of_auditChunk (consists : node.Consists row) (dimensioned : node.Dimensioned)
    (passed : node.auditChunk chunk = .ok ()) : node.Genuine row chunk := by
  have counted := dimensioned.top_lt consists
  unfold auditChunk Chunk.audit at passed
  obtain ⟨_, handlePassed, containerPassed⟩ := bind_eq_ok_iff.mp passed
  obtain ⟨-, sizePassed⟩ := require_bind_eq_ok_iff.mp handlePassed
  obtain ⟨_, -, topPassed⟩ := bind_eq_ok_iff.mp sizePassed
  obtain ⟨tops, -⟩ := require_bind_eq_ok_iff.mp topPassed
  obtain ⟨container, carvedPassed⟩ := require_bind_eq_ok_iff.mp containerPassed
  obtain ⟨carved, headerPassed⟩ := require_bind_eq_ok_iff.mp carvedPassed
  obtain ⟨header, read, samePassed⟩ := bind_eq_ok_iff.mp headerPassed
  obtain ⟨same, mapPassed⟩ := require_bind_eq_ok_iff.mp samePassed
  obtain ⟨isStart, started, startPassed⟩ := bind_eq_ok_iff.mp mapPassed
  obtain ⟨marked, -⟩ := require_bind_eq_ok_iff.mp startPassed
  simp only [Bool.and_eq_true, decide_eq_true_eq, beq_iff_eq] at tops container carved same
  have payload : chunk.payload = chunk.bottom + Header.words := rfl
  have headerWords : Header.words = 2 := rfl
  have stop : chunk.stop = chunk.bottom + chunk.size := rfl
  subst marked
  obtain ⟨whole, begins⟩ := Occupancy.marksStart_of_startsAt dimensioned.map started
  rw [dimensioned.map_granule] at whole
  -- The start at the bottom of the handle is that of a block, whose header is the one that was read.
  obtain ⟨block, member, bottom⟩ := (consists.starts _ whole (by omega)).mp begins
  rw [← bottom, consists.headers block member, Except.ok.injEq] at read
  have headers : block.header node.isClass = chunk.header := read.trans same
  have short := (consists.sound block member).toNat_size_header node.isClass
  rw [headers] at short
  have fits : chunk.size < wordLimit := by omega
  have size : chunk.header.size.toNat = chunk.size := UInt64.toNat_ofNat_of_lt' fits
  exact ⟨container, ⟨block, member, bottom, by omega, headers⟩, tops.1, tops.2⟩

/-- The audit of a handle passes exactly if the handle is genuine. -/
theorem auditChunk_eq_ok_iff (consists : node.Consists row) (dimensioned : node.Dimensioned) :
    node.auditChunk chunk = .ok () ↔ node.Genuine row chunk := by
  constructor
  · exact genuine_of_auditChunk consists dimensioned
  · intro genuine
    exact (genuine.auditChunk_ensures consists dimensioned).eq_ok fun _ _ => rfl

/-- A handle that begins in a block but is not the handle of its range is not genuine. -/
theorem Consists.not_genuine (consists : node.Consists row) (member : block ∈ row)
    (lower : block.bottom ≤ chunk.bottom) (upper : chunk.bottom < block.stop)
    (other : chunk.bottom ≠ block.bottom ∨ chunk.size ≠ block.size) :
    ¬node.Genuine row chunk := by
  intro genuine
  have bottom : chunk.block.bottom = chunk.bottom := rfl
  have size : chunk.block.size = chunk.size := rfl
  have inside := consists.tiles.bounds genuine.block_mem
  have same := consists.tiles.eq_of_meet genuine.block_mem member (by omega) (by omega)
  rw [same] at bottom size
  omega

/-- On a node that passes its audit, the audit of a handle comes to a verdict: it passes if the handle is
genuine and fails if not. It fails for all handles that begin in a block and do not have its range, be it
that the block took in the place of the handle or took a part of it. -/
theorem auditChunk_verdict (dimensioned : node.Dimensioned) (passes : node.audit = .ok ()) :
    ∃ row, node.WellFormed row ∧
      (∀ chunk, node.Genuine row chunk → node.auditChunk chunk = .ok ()) ∧
      (∀ chunk, ¬node.Genuine row chunk → ∃ fault, node.auditChunk chunk = .error fault) ∧
      ∀ chunk, ∀ block ∈ row, block.bottom ≤ chunk.bottom → chunk.bottom < block.stop →
        chunk.bottom ≠ block.bottom ∨ chunk.size ≠ block.size →
          ∃ fault, node.auditChunk chunk = .error fault := by
  obtain ⟨row, formed⟩ := (audit_eq_ok_iff dimensioned).mp passes
  have consists := formed.toConsists
  have rejects : ∀ chunk, ¬node.Genuine row chunk →
      ∃ fault, node.auditChunk chunk = .error fault := by
    intro chunk made
    cases verdict : node.auditChunk chunk with
    | ok => exact absurd ((auditChunk_eq_ok_iff consists dimensioned).mp verdict) made
    | error fault => exact ⟨fault, rfl⟩
  refine ⟨row, formed, ?_, rejects, ?_⟩
  · intro chunk genuine
    exact (auditChunk_eq_ok_iff consists dimensioned).mpr genuine
  · intro chunk block member lower upper other
    exact rejects chunk (consists.not_genuine member lower upper other)

/-- A free handle of the specialized chunk is accepted, and one of a small chunk at the same place is
not. -/
theorem pair_auditChunk_verdict :
    let chunk : Chunk := ⟨pair.id, 8, 4, 10, .specialized, false, Header.alive, .normal, 3, true⟩
    pair.auditChunk chunk = .ok () ∧
      ∃ fault, pair.auditChunk { chunk with size := 8, kind := .small } = .error fault := by
  have passes := (audit_eq_ok_iff pair_dimensioned).mpr ⟨_, pair_wellFormed⟩
  obtain ⟨row, formed, accepts, -, rejects⟩ := auditChunk_verdict pair_dimensioned passes
  have isRow := formed.toLaid.row_eq pair_wellFormed.toLaid
  subst isRow
  refine ⟨accepts _ ⟨rfl, ?_, by decide, by decide⟩, ?_⟩
  · exact ⟨⟨8, 4, .specialized, .normal, true⟩, by decide, rfl, rfl, rfl⟩
  · exact rejects _ ⟨8, 4, .specialized, .normal, true⟩ (by decide) (by decide) (by decide)
      (Or.inr (by decide))

end Node

end CollectorMemory
