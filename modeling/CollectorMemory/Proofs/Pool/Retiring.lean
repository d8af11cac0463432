import CollectorMemory.Proofs.Pool.Carving

/-!
# Retiring a node

A node that is given up carves all words that it has left, size by size from the largest one down, and
puts every chunk into the pool. A size is carved until it does not fit any more, and it does not fit
after that either, since the top only moves up. So whatever is carved at an offset, be it padding or
not, is the largest chunk that is aligned there and keeps to what is committed (`Fills`).
-/

namespace CollectorMemory

variable {excuse : Prop} {uses : Nat} {pool : Pool} {node : Node} {loose : List Chunk}
  {row : List Block} {sizes : ChunkSizes} {kind larger : Kind}
  {size largerSize low middle high limit start stop : Nat} {chunks rest : List Chunk}

/-- A block of the largest fixed size that is aligned where it starts and keeps to a limit. -/
structure Block.Largest (sizes : ChunkSizes) (limit : Nat) (block : Block) : Prop where
  /-- The block is of a fixed size. -/
  fixed : sizes.fixedSize block.kind = .ok block.size
  /-- The block is aligned to its size. -/
  aligned : block.bottom % block.size = 0
  /-- The block keeps to the limit. -/
  inside : block.stop ≤ limit
  /-- No larger size is aligned there and keeps to the limit. -/
  largest : ∀ kind size, sizes.fixedSize kind = .ok size → block.bottom % size = 0 →
    block.bottom + size ≤ limit → size ≤ block.size

/-- Chunks that fill an area in order, each the largest at its place that keeps to a limit. -/
structure Fills (sizes : ChunkSizes) (limit : Nat) (chunks : List Chunk) (start stop : Nat) :
    Prop where
  /-- The chunks tile the area. -/
  tiles : Tiles start (chunks.map Chunk.block) stop
  /-- Every chunk is as large as can be. -/
  largest : ∀ chunk ∈ chunks, chunk.block.Largest sizes limit

/-- No chunk of a fixed size above some size fits between two offsets. -/
def ChunkSizes.NoneFits (sizes : ChunkSizes) (size low high : Nat) : Prop :=
  ∀ kind larger, sizes.fixedSize kind = .ok larger → size < larger → ¬sizes.Fits kind larger low high

/-- What fits above an offset fits above a lower one. -/
theorem ChunkSizes.Fits.of_le (fits : sizes.Fits kind size middle high)
    (suits : sizes.Suits kind size) (le : low ≤ middle) : sizes.Fits kind size low high := by
  have bounds := Count.nextMultiple_bounds middle suits.alignment_pos
  exact suits.fits (Count.nextMultiple_mod middle (sizes.alignment kind size))
    (Nat.le_trans le bounds.1) fits

/-- A chunk does not fit into fewer words than it has. -/
theorem ChunkSizes.Suits.not_fits (suits : sizes.Suits kind size) (few : high < low + size) :
    ¬sizes.Fits kind size low high := by
  have bounds := Count.nextMultiple_bounds low suits.alignment_pos
  unfold Fits
  omega

/-- Two areas that are filled one after the other are filled together. -/
theorem Fills.append (first : Fills sizes limit chunks start low)
    (second : Fills sizes limit rest low stop) : Fills sizes limit (chunks ++ rest) start stop where
  tiles := by
    rw [List.map_append]
    exact first.tiles.append second.tiles
  largest chunk member := by
    rcases List.mem_append.mp member with inFirst | inSecond
    · exact first.largest chunk inFirst
    · exact second.largest chunk inSecond

/-- Padding up to the next multiple of a size fills the area in front of it. -/
theorem Pads.fills (pads : Pads sizes chunks low stop) (suits : sizes.Suits kind size)
    (isStop : stop = Count.nextMultiple low (sizes.alignment kind size)) (inside : stop ≤ limit) :
    Fills sizes limit chunks low stop := by
  refine ⟨pads.tiles, fun chunk member => ?_⟩
  have within := pads.tiles.bounds (List.mem_map_of_mem member)
  have sound := pads.sound chunk member
  have isKind : chunk.block.kind = sizes.paddingKind chunk.bottom := pads.kind chunk member
  have notHumongous : chunk.block.kind ≠ .humongous := by
    rw [isKind]
    unfold ChunkSizes.paddingKind
    split
    · exact Kind.noConfusion
    · exact Kind.noConfusion
  have fixed := sound.suits.fixedSize notHumongous
  refine ⟨fixed, sound.bottom_aligned notHumongous, Nat.le_trans within.2.2 inside, ?_⟩
  intro other otherSize otherFixed aligned _
  -- No offset before the next multiple is aligned to a medium chunk, which is a multiple as well.
  have notMedium : chunk.bottom % sizes.medium ≠ 0 := by
    intro whole
    have nested : sizes.alignment kind size ∣ sizes.medium := by
      by_cases humongous : kind = .humongous
      · subst humongous
        exact sizes.specialized_dvd_medium
      · rw [ChunkSizes.alignment_eq humongous]
        exact ChunkSizes.dvd_of_code_le (suits.fixedSize humongous)
          (show sizes.fixedSize .medium = .ok sizes.medium from rfl)
          (by cases kind <;> first | decide | exact absurd rfl humongous)
    have reached := Count.nextMultiple_le suits.alignment_pos (Nat.mod_eq_zero_of_dvd
      (Nat.dvd_trans nested (Nat.dvd_of_mod_eq_zero whole))) within.1
    change _ ∧ chunk.bottom < chunk.block.stop ∧ _ at within
    omega
  cases other with
  | specialized =>
    cases otherFixed
    exact sound.suits.specialized_le
  | small =>
    cases otherFixed
    rw [show sizes.paddingKind chunk.bottom = .small from if_pos aligned] at isKind
    rw [isKind] at fixed
    exact Nat.le_of_eq (Except.ok.inj fixed)
  | medium =>
    cases otherFixed
    exact absurd aligned notMedium
  | humongous => cases otherFixed

/-- A chunk at the next multiple of its size fills its own range, if no larger one fits. -/
theorem fills_singleton {chunk : Chunk} (fixed : sizes.fixedSize kind = .ok size)
    (noneFits : sizes.NoneFits size low limit) (isKind : chunk.kind = kind)
    (isSize : chunk.size = size) (isBottom : chunk.bottom = start) (aligned : start % size = 0)
    (lower : low ≤ start) (inside : start + size ≤ limit) :
    Fills sizes limit [chunk] start (start + size) := by
  have isStop : chunk.block.stop = start + size := by
    change chunk.bottom + chunk.size = _
    rw [isBottom, isSize]
  refine ⟨tiles_singleton isBottom ?_ isStop, List.forall_mem_singleton.mpr ⟨?_, ?_, ?_, ?_⟩⟩
  · change 0 < chunk.size
    rw [isSize]
    exact sizes.pos_of_fixedSize fixed
  · change sizes.fixedSize chunk.kind = .ok chunk.size
    rw [isKind, isSize]
    exact fixed
  · change chunk.bottom % chunk.size = 0
    rw [isBottom, isSize]
    exact aligned
  · rw [isStop]
    exact inside
  · intro other otherSize otherFixed otherAligned otherInside
    change chunk.bottom % otherSize = 0 at otherAligned
    change chunk.bottom + otherSize ≤ limit at otherInside
    change otherSize ≤ chunk.size
    rw [isBottom] at otherAligned otherInside
    rw [isSize]
    by_contra above
    apply noneFits other otherSize otherFixed (Nat.lt_of_not_le above)
    exact (ChunkSizes.suits_of_fixedSize otherFixed).fits
      (by rw [ChunkSizes.alignment_of_fixedSize otherFixed]; exact otherAligned) lower otherInside

/-- Where a size does not fit, neither does it above. -/
theorem ChunkSizes.NoneFits.of_le (noneFits : sizes.NoneFits size low high) (le : low ≤ middle) :
    sizes.NoneFits size middle high :=
  fun kind larger fixed above fits =>
    noneFits kind larger fixed above (fits.of_le (suits_of_fixedSize fixed) le)

/-- Carving chunks of one size and putting them back restocks the node. Done often enough, it leaves no
room for another one, and if no larger size fits, it fills what it carves. -/
theorem Stock.retireSize_ensures {rounds carvedCount : Nat}
    (stock : Stock uses pool node loose row) (room : Room excuse pool node)
    (suits : node.sizes.Suits kind size) (short : size < Header.sizeLimit)
    (fits : ¬excuse → size < wordLimit ∧
      node.reserved + 2 * node.sizes.alignment kind size < wordLimit) :
    Ensures excuse (node.retireSize pool size rounds carvedCount).account
      fun ((node', pool', _), told) =>
        (node.uncarved < (rounds + 1) * size →
          ¬node.sizes.Fits kind size node'.top node.committed) ∧
        (kind ≠ .humongous → node.sizes.NoneFits size node.top node.committed →
          Fills node.sizes node.committed told node.top node'.top) ∧
        ∃ after, Restocks uses loose pool node row pool' node' loose after := by
  induction rounds generalizing pool node row carvedCount with
  | zero =>
    refine ⟨?_, fun _ _ => ⟨rfl, List.forall_mem_nil _⟩, row, Restocks.refl stock⟩
    intro few
    unfold Node.uncarved at few
    exact suits.not_fits (by omega)
  | succ rounds ih =>
    have headerLt := suits.header_lt
    unfold Node.retireSize
    by_cases few : node.uncarved < size
    · rw [if_pos few]
      refine ⟨fun _ => ?_, fun _ _ => ⟨rfl, List.forall_mem_nil _⟩, row, Restocks.refl stock⟩
      unfold Node.uncarved at few
      exact suits.not_fits (by omega)
    · rw [if_neg few]
      refine Ensures.bindAccount (stock.carveAligned_ensures room suits (fun _ => short) fits) ?_
      rintro (_ | ⟨node', pool', chunk⟩) told carved
      · obtain ⟨noRoom, rfl⟩ := carved
        exact ⟨fun _ => noRoom, fun _ _ => ⟨rfl, List.forall_mem_nil _⟩, row, Restocks.refl stock⟩
      · obtain ⟨hasRoom, start, isStart, rfl, top, pads, after, restocks⟩ := carved
        have steady := restocks.steady
        refine Ensures.bindAccount (restocks.stock.putBack_ensures (room.of_steady steady)
          steady.nodeAlike.id.symm) ?_
        rintro ⟨backPool, back⟩ _ ⟨rfl, backTop, backRow, backRestocks⟩
        have throughBack := restocks.trans backRestocks
        have alike := throughBack.steady.nodeAlike
        have startLe := (Count.nextMultiple_bounds node.top suits.alignment_pos).1
        have backStart : back.top = start + size := backTop.trans top
        apply (ih throughBack.stock (room.of_steady throughBack.steady)
          (by rw [alike.sizes]; exact suits)
          (by rw [alike.reserved, alike.sizes]; exact fits)).mono
        rintro ⟨⟨last, lastPool, _⟩, more⟩ ⟨noRoom, fills, lastRow, lastRestocks⟩
        rw [alike.sizes, alike.committed] at noRoom fills
        refine ⟨fun enough => noRoom ?_, fun fixedKind noneFits => ?_, lastRow,
          throughBack.trans lastRestocks⟩
        · have committed := alike.committed
          unfold Node.uncarved at few enough ⊢
          rw [Nat.succ_mul] at enough
          omega
        · have fixed := suits.fixedSize fixedKind
          rw [ChunkSizes.alignment_eq fixedKind] at isStart startLe
          have aligned : start % size = 0 := by
            rw [isStart]
            exact Count.nextMultiple_mod node.top size
          have hasStart : start + size ≤ node.committed := by
            unfold ChunkSizes.Fits at hasRoom
            rw [ChunkSizes.alignment_eq fixedKind, ← isStart] at hasRoom
            exact hasRoom
          have padding := pads.fills suits (by rw [ChunkSizes.alignment_eq fixedKind]; exact isStart)
            (show start ≤ node.committed by omega)
          have one : Fills node.sizes node.committed
              [(node.chunkAt kind size start .leftover false).freed] start (start + size) :=
            fills_singleton fixed noneFits rfl rfl rfl aligned (by omega) hasStart
          rw [backStart] at fills
          have later := fills fixedKind (noneFits.of_le (by omega))
          exact padding.append (one.append later)

/-- Where there is no room for a chunk of the specialized size, fewer words than that are left. -/
theorem Node.Carved.uncarved_lt (carved : node.Carved row) (suits : node.sizes.Suits kind size)
    (isSpecialized : size = node.sizes.specialized)
    (noRoom : ¬node.sizes.Fits kind size node.top node.committed) : node.uncarved < size := by
  have topLe := carved.top_le
  have aligned : node.top % node.sizes.alignment kind size = 0 := by
    unfold ChunkSizes.alignment
    split
    · exact carved.top_whole
    · rw [isSpecialized]
      exact carved.top_whole
  by_contra enough
  unfold Node.uncarved at enough
  exact noRoom (suits.fits aligned (Nat.le_refl _) (by omega))

/-- Where there is no room for a chunk of the specialized size, nothing is left. -/
theorem Node.Carved.top_eq_committed (carved : node.Carved row)
    (noRoom : ¬node.sizes.Fits .specialized node.sizes.specialized node.top node.committed) :
    node.top = node.committed := by
  have few := carved.uncarved_lt (show node.sizes.Suits .specialized _ from rfl) rfl noRoom
  have topLe := carved.top_le
  unfold Node.uncarved at few
  have le := Nat.le_of_lt_add_of_dvd (show node.committed < node.top + _ by omega)
    (Nat.dvd_of_mod_eq_zero carved.committed_whole) (Nat.dvd_of_mod_eq_zero carved.top_whole)
  omega

/-- Retiring chunks of a fixed size, in a node that was restocked, leaves no room for another one. -/
theorem Restocks.retireSize_ensures {pool' : Pool} {node' : Node} {after : List Block}
    {carvedCount : Nat} (restocks : Restocks uses loose pool node row pool' node' loose after)
    (room : Room excuse pool node) (fixed : node.sizes.fixedSize kind = .ok size)
    (short : node.sizes.medium < Header.sizeLimit)
    (fits : ¬excuse → node.reserved + 2 * node.sizes.medium < wordLimit) :
    Ensures excuse (node'.retireSize pool' size (node'.uncarved / size) carvedCount).account
      fun ((last, lastPool, _), told) => ¬node.sizes.Fits kind size last.top node.committed ∧
        (node.sizes.NoneFits size node'.top node.committed →
          Fills node.sizes node.committed told node'.top last.top) ∧
        ∃ lastRow, Restocks uses loose pool node row lastPool last loose lastRow := by
  have alike := restocks.steady.nodeAlike
  have sizeLe := ChunkSizes.le_medium_of_fixedSize fixed
  have enough : node'.uncarved < (node'.uncarved / size + 1) * size := by
    rw [Nat.succ_mul]
    exact Nat.lt_div_mul_add (node.sizes.pos_of_fixedSize fixed)
  apply (restocks.stock.retireSize_ensures (room.of_steady restocks.steady)
    (by rw [alike.sizes]; exact ChunkSizes.suits_of_fixedSize fixed)
    (Nat.lt_of_le_of_lt sizeLe short) fun hard => by
      have := fits hard
      rw [alike.sizes, alike.reserved, ChunkSizes.alignment_of_fixedSize fixed]
      omega).mono
  rintro ⟨⟨last, lastPool, _⟩, told⟩ ⟨noRoom, fills, lastRow, lastRestocks⟩
  rw [alike.sizes, alike.committed] at noRoom fills
  exact ⟨noRoom enough, fills (ChunkSizes.ne_humongous_of_fixedSize fixed), lastRow,
    restocks.trans lastRestocks⟩

/-- Where neither a small nor a medium chunk fits, no chunk above the specialized size does. -/
theorem ChunkSizes.noneFits_specialized (noSmall : ¬sizes.Fits .small sizes.small low high)
    (noMedium : ¬sizes.Fits .medium sizes.medium low high) :
    sizes.NoneFits sizes.specialized low high := by
  intro kind larger fixed above
  cases kind with
  | specialized =>
    cases fixed
    exact absurd above (Nat.lt_irrefl _)
  | small =>
    cases fixed
    exact noSmall
  | medium =>
    cases fixed
    exact noMedium
  | humongous => cases fixed

/-- Where no medium chunk fits, no chunk above the small size does. -/
theorem ChunkSizes.noneFits_small (noMedium : ¬sizes.Fits .medium sizes.medium low high) :
    sizes.NoneFits sizes.small low high := by
  have specializedLt := sizes.specialized_lt
  intro kind larger fixed above
  cases kind with
  | specialized =>
    cases fixed
    omega
  | small =>
    cases fixed
    exact absurd above (Nat.lt_irrefl _)
  | medium =>
    cases fixed
    exact noMedium
  | humongous => cases fixed

/-- No fixed size is above the medium one. -/
theorem ChunkSizes.noneFits_medium (sizes : ChunkSizes) (low high : Nat) :
    sizes.NoneFits sizes.medium low high :=
  fun _ _ fixed above => absurd above (Nat.not_lt_of_le (le_medium_of_fixedSize fixed))

/-- Retiring a node restocks it with nothing left, and fills what was left. -/
theorem Stock.retire_ensures (stock : Stock uses pool node loose row) (room : Room excuse pool node)
    (fits : ¬excuse → node.reserved + 2 * node.sizes.medium < wordLimit) :
    Ensures excuse (node.retire pool).account fun ((node', pool'), told) =>
      node'.top = node.committed ∧ Fills node.sizes node.committed told node.top node.committed ∧
        ∃ after, Restocks uses loose pool node row pool' node' loose after := by
  have short := stock.carved.short
  have mediumFixed : node.sizes.fixedSize .medium = .ok node.sizes.medium := rfl
  have smallFixed : node.sizes.fixedSize .small = .ok node.sizes.small := rfl
  have specializedFixed : node.sizes.fixedSize .specialized = .ok node.sizes.specialized := rfl
  have begun : Restocks uses loose pool node row pool node loose row := Restocks.refl stock
  unfold Node.retire
  refine Ensures.bindSilent rfl (ensures_require fun _ => beq_iff_eq.mpr stock.isClass.symm) ?_
  intro _ _
  refine Ensures.bindAccount (begun.retireSize_ensures room mediumFixed short fits) ?_
  rintro ⟨first, firstPool, _⟩ medium ⟨noMedium, mediumFills, firstRow, firstRestocks⟩
  refine Ensures.bindAccount (firstRestocks.retireSize_ensures room smallFixed short fits) ?_
  rintro ⟨second, secondPool, _⟩ small ⟨noSmall, smallFills, secondRow, secondRestocks⟩
  refine Ensures.bindAccount (secondRestocks.retireSize_ensures room specializedFixed short fits) ?_
  rintro ⟨last, lastPool, _⟩ specialized ⟨noSpecialized, specializedFills, lastRow, lastRestocks⟩
  have filledMedium := mediumFills (node.sizes.noneFits_medium node.top node.committed)
  have filledSmall := smallFills (ChunkSizes.noneFits_small noMedium)
  have noMediumAfter : ¬node.sizes.Fits .medium node.sizes.medium second.top node.committed :=
    fun fits => noMedium (fits.of_le (ChunkSizes.suits_of_fixedSize mediumFixed) filledSmall.tiles.le)
  have filledSpecialized := specializedFills (ChunkSizes.noneFits_specialized noSmall noMediumAfter)
  have alike := lastRestocks.steady.nodeAlike
  have top : last.top = last.committed := lastRestocks.stock.carved.top_eq_committed (by
    rw [alike.sizes, alike.committed]
    exact noSpecialized)
  have nothing : last.uncarved = 0 := by
    unfold Node.uncarved
    omega
  refine Ensures.bindSilent rfl (ensures_require fun _ => beq_iff_eq.mpr nothing) ?_
  intro _ _
  refine Ensures.bindSilent rfl (ensures_eq (Run.outcome_note _)) ?_
  intro _ _
  rw [alike.committed] at top
  rw [top] at filledSpecialized
  refine ⟨top, ?_, lastRow, lastRestocks⟩
  change Fills _ _ (medium ++ (small ++ (specialized ++ []))) _ _
  rw [List.append_nil]
  exact filledMedium.append (filledSmall.append filledSpecialized)

/-- Carving chunks of one size and putting them back settles the stock; carving specialized ones often
enough leaves no words. -/
theorem Settled.retireSize_ensures {rounds carvedCount : Nat}
    (settled : Settled uses pool node loose row) (room : Room excuse pool node)
    (suits : node.sizes.Suits kind size) (short : size < Header.sizeLimit)
    (fits : ¬excuse → node.reserved + 2 * size < wordLimit) :
    Ensures excuse (node.retireSize pool size rounds carvedCount).outcome fun (node', pool', _) =>
      Steady loose pool node pool' node' ∧ node.top ≤ node'.top ∧
        (∃ after, Settled uses pool' node' loose after ∧ Coarser row after node.top) ∧
        (size = node.sizes.specialized → node.uncarved < (rounds + 1) * size →
          node'.uncarved < size) := by
  have alignmentLe := suits.alignment_le
  apply (settled.toStock.retireSize_ensures room suits short fun hard => by
    have := fits hard
    omega).outcome
  rintro ⟨node', pool', _⟩ told ⟨noRoom, _, after, restocks⟩
  have alike := restocks.steady.nodeAlike
  refine ⟨restocks.steady, restocks.top_le, ⟨after, restocks.settled settled, restocks.coarser⟩, ?_⟩
  intro isSpecialized enough
  apply restocks.stock.carved.uncarved_lt (by rw [alike.sizes]; exact suits)
    (by rw [alike.sizes]; exact isSpecialized)
  rw [alike.sizes, alike.committed]
  exact noRoom enough

/-- A node that is given up has no words left over, and all that was carved from it is in the pool. -/
theorem Settled.retire_ensures (settled : Settled uses pool node loose row)
    (room : Room excuse pool node)
    (fits : ¬excuse → node.reserved + 2 * node.sizes.medium < wordLimit) :
    Ensures excuse (node.retire pool).outcome fun (node', pool') =>
      Steady loose pool node pool' node' ∧ node'.top = node'.committed ∧
        ∃ after, Settled uses pool' node' loose after ∧ Coarser row after node.top := by
  apply (settled.toStock.retire_ensures room fits).outcome
  rintro ⟨node', pool'⟩ told ⟨top, _, after, restocks⟩
  exact ⟨restocks.steady, top.trans restocks.steady.nodeAlike.committed.symm, after,
    restocks.settled settled, restocks.coarser⟩

end CollectorMemory
