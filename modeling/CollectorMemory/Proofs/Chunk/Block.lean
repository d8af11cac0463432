import CollectorMemory.Chunk.Handle
import CollectorMemory.Proofs.Chunk.Codec
import CollectorMemory.Proofs.Ensures
import Mathlib.Data.Nat.ModEq

/-!
# Blocks

A block is what a node knows of one of its chunks: the range, the kind, the origin and the free flag,
without the words that a user took from it. A sound block has a size that suits its kind and fits a
header, and an offset that suits its alignment; its header is read back from memory as it was
written, and the audit of a sound handle passes.
-/

namespace CollectorMemory

namespace ChunkSizes

variable {sizes : ChunkSizes} {kind : Kind} {size : Nat}

/-- Whether chunks of a kind can have a size. -/
def Suits (sizes : ChunkSizes) : Kind → Nat → Prop
  | .specialized, size => size = sizes.specialized
  | .small, size => size = sizes.small
  | .medium, size => size = sizes.medium
  | .humongous, size => sizes.medium < size ∧ size % sizes.specialized = 0

/-- The small size is a multiple of the specialized one. -/
theorem specialized_dvd_small (sizes : ChunkSizes) : sizes.specialized ∣ sizes.small :=
  Nat.dvd_of_mod_eq_zero sizes.small_nested

/-- The medium size is a multiple of the small one. -/
theorem small_dvd_medium (sizes : ChunkSizes) : sizes.small ∣ sizes.medium :=
  Nat.dvd_of_mod_eq_zero sizes.medium_nested

/-- The medium size is a multiple of the specialized one. -/
theorem specialized_dvd_medium (sizes : ChunkSizes) : sizes.specialized ∣ sizes.medium :=
  Nat.dvd_trans sizes.specialized_dvd_small sizes.small_dvd_medium

/-- The kind of a size is the one that it suits. -/
theorem kindOfSize_eq_ok_iff : sizes.kindOfSize size = .ok kind ↔ sizes.Suits kind size := by
  have specializedLt := sizes.specialized_lt
  have smallLt := sizes.small_lt
  have humongous : sizes.isHumongousSize size = true ↔ sizes.Suits .humongous size := by
    simp [isHumongousSize, Suits]
  unfold kindOfSize
  constructor
  · intro found
    split at found
    · next same => cases found; exact same
    · split at found
      · next same => cases found; exact same
      · split at found
        · next same => cases found; exact same
        · split at found
          · next fits => cases found; exact humongous.mp fits
          · cases found
  · intro suits
    cases kind with
    | specialized =>
      have same : size = sizes.specialized := suits
      rw [if_pos same]
    | small =>
      have same : size = sizes.small := suits
      rw [if_neg (by omega), if_pos same]
    | medium =>
      have same : size = sizes.medium := suits
      rw [if_neg (by omega), if_neg (by omega), if_pos same]
    | humongous =>
      have above : sizes.medium < size := suits.1
      rw [if_neg (by omega), if_neg (by omega), if_neg (by omega), if_pos (humongous.mpr suits)]

/-- A size suits one kind at most. -/
theorem Suits.kind_eq {other : Kind} (suits : sizes.Suits kind size)
    (otherSuits : sizes.Suits other size) : kind = other := by
  have found := kindOfSize_eq_ok_iff.mpr suits
  rw [kindOfSize_eq_ok_iff.mpr otherSuits] at found
  exact (Except.ok.inj found).symm

/-- A size that chunks can have suits some kind. -/
theorem exists_suits_of_isChunkSize (fits : sizes.isChunkSize size) :
    ∃ kind, sizes.Suits kind size := by
  simp only [isChunkSize, isHumongousSize, Bool.or_eq_true, Bool.and_eq_true, beq_iff_eq,
    decide_eq_true_eq] at fits
  obtain ((specialized | small) | medium) | humongous := fits
  · exact ⟨.specialized, specialized⟩
  · exact ⟨.small, small⟩
  · exact ⟨.medium, medium⟩
  · exact ⟨.humongous, humongous⟩

/-- A size that suits some kind is a size that chunks can have. -/
theorem Suits.isChunkSize (suits : sizes.Suits kind size) : sizes.isChunkSize size := by
  unfold ChunkSizes.isChunkSize isHumongousSize
  cases kind <;> simp only [Suits] at suits <;> simp [suits]

/-- The fixed size of a kind suits it. -/
theorem suits_of_fixedSize (fixed : sizes.fixedSize kind = .ok size) : sizes.Suits kind size := by
  cases kind <;> simp only [fixedSize, Except.ok.injEq, reduceCtorEq] at fixed <;>
    exact fixed.symm

/-- Humongous chunks have no fixed size. -/
theorem ne_humongous_of_fixedSize (fixed : sizes.fixedSize kind = .ok size) :
    kind ≠ .humongous := by
  intro humongous
  rw [humongous] at fixed
  cases fixed

/-- No fixed size is above the medium one. -/
theorem le_medium_of_fixedSize (fixed : sizes.fixedSize kind = .ok size) :
    size ≤ sizes.medium := by
  have suits := suits_of_fixedSize fixed
  have specializedLt := sizes.specialized_lt
  have smallLt := sizes.small_lt
  cases kind with
  | specialized =>
    rw [show size = sizes.specialized from suits]
    omega
  | small =>
    rw [show size = sizes.small from suits]
    omega
  | medium => exact Nat.le_of_eq suits
  | humongous => cases fixed

/-- A kind that is not humongous has the one size that suits it. -/
theorem Suits.fixedSize (suits : sizes.Suits kind size) (fixed : kind ≠ .humongous) :
    sizes.fixedSize kind = .ok size := by
  cases kind with
  | humongous => exact absurd rfl fixed
  | _ => rw [show size = _ from suits]; rfl

/-- A kind that is not humongous has no second size that suits it. -/
theorem Suits.size_eq {other : Nat} (suits : sizes.Suits kind size)
    (otherSuits : sizes.Suits kind other) (fixed : kind ≠ .humongous) : size = other := by
  have found := suits.fixedSize fixed
  rw [otherSuits.fixedSize fixed] at found
  exact (Except.ok.inj found).symm

/-- The fixed size of a kind divides that of every larger kind. -/
theorem dvd_of_code_le {larger : Kind} {largerSize : Nat} (fixed : sizes.fixedSize kind = .ok size)
    (largerFixed : sizes.fixedSize larger = .ok largerSize) (ordered : kind.code ≤ larger.code) :
    size ∣ largerSize := by
  have suits := suits_of_fixedSize fixed
  have largerSuits := suits_of_fixedSize largerFixed
  cases kind <;> cases larger <;> simp only [Suits] at suits largerSuits <;>
    simp_all [Kind.code, specialized_dvd_small, small_dvd_medium, specialized_dvd_medium,
      ChunkSizes.fixedSize]

/-- Chunks of a larger kind are larger. -/
theorem Suits.lt_of_code_lt {larger : Kind} {largerSize : Nat} (suits : sizes.Suits kind size)
    (largerSuits : sizes.Suits larger largerSize) (below : kind.code < larger.code) :
    size < largerSize := by
  have specializedLt := sizes.specialized_lt
  have smallLt := sizes.small_lt
  cases kind <;> cases larger <;> simp only [Suits] at suits largerSuits <;>
    first
      | omega
      | exact absurd below (by decide)

/-- Every size is a multiple of the specialized one. -/
theorem Suits.whole (suits : sizes.Suits kind size) : size % sizes.specialized = 0 := by
  cases kind with
  | specialized => rw [show size = _ from suits, Nat.mod_self]
  | small => rw [show size = _ from suits, sizes.small_nested]
  | medium =>
    rw [show size = _ from suits]
    exact Nat.mod_eq_zero_of_dvd sizes.specialized_dvd_medium
  | humongous => exact suits.2

/-- Every size has room for more than a header. -/
theorem Suits.header_lt (suits : sizes.Suits kind size) : Header.words < size := by
  have headerLt := sizes.header_lt
  have specializedLt := sizes.specialized_lt
  have smallLt := sizes.small_lt
  cases kind <;> simp only [Suits] at suits <;> omega

/-- The specialized size is the least. -/
theorem Suits.specialized_le (suits : sizes.Suits kind size) : sizes.specialized ≤ size := by
  have specializedLt := sizes.specialized_lt
  have smallLt := sizes.small_lt
  cases kind <;> simp only [Suits] at suits <;> omega

/-- Chunks of a fixed size are aligned to it. -/
theorem alignment_eq (fixed : kind ≠ .humongous) : sizes.alignment kind size = size := by
  cases kind with
  | humongous => exact absurd rfl fixed
  | _ => rfl

/-- A chunk of fixed size is aligned to its size. -/
theorem alignment_of_fixedSize (fixed : sizes.fixedSize kind = .ok size) :
    sizes.alignment kind size = size :=
  alignment_eq (ne_humongous_of_fixedSize fixed)

/-- An aligned chunk of fixed size that starts in a range fits in it, if the range ends at a multiple
of a fixed size that is not smaller. -/
theorem fits_of_aligned {larger : Kind} {largerSize offset stop : Nat}
    (fixed : sizes.fixedSize kind = .ok size) (largerFixed : sizes.fixedSize larger = .ok largerSize)
    (within : kind.code ≤ larger.code) (aligned : offset % size = 0)
    (stopAligned : stop % largerSize = 0) (below : offset < stop) : offset + size ≤ stop := by
  have stopWhole : size ∣ stop := Nat.dvd_trans (dvd_of_code_le fixed largerFixed within)
    (Nat.dvd_of_mod_eq_zero stopAligned)
  have nextWhole : size ∣ offset + size :=
    Nat.dvd_add (Nat.dvd_of_mod_eq_zero aligned) (Nat.dvd_refl size)
  exact Nat.le_of_lt_add_of_dvd (show offset + size < stop + size by omega) nextWhole stopWhole

/-- Alignments are positive. -/
theorem Suits.alignment_pos (suits : sizes.Suits kind size) : 0 < sizes.alignment kind size := by
  have headerLt := suits.header_lt
  have specializedPos := sizes.specialized_pos
  unfold alignment
  split <;> omega

/-- No alignment is larger than the size that has it. -/
theorem Suits.alignment_le (suits : sizes.Suits kind size) : sizes.alignment kind size ≤ size := by
  have least := suits.specialized_le
  unfold alignment
  split <;> omega

/-- No alignment is larger than the medium size. -/
theorem Suits.alignment_le_medium (suits : sizes.Suits kind size) :
    sizes.alignment kind size ≤ sizes.medium := by
  by_cases humongous : kind = .humongous
  · have specializedLt := sizes.specialized_lt
    have smallLt := sizes.small_lt
    subst humongous
    change sizes.specialized ≤ sizes.medium
    omega
  · rw [alignment_eq humongous]
    exact le_medium_of_fixedSize (suits.fixedSize humongous)

/-- An offset that suits an alignment is a multiple of the specialized size. -/
theorem Suits.offset_whole (suits : sizes.Suits kind size) {offset : Nat}
    (aligned : offset % sizes.alignment kind size = 0) : offset % sizes.specialized = 0 := by
  have nested : sizes.specialized ∣ sizes.alignment kind size := by
    unfold alignment
    split
    · exact Nat.dvd_refl _
    · exact Nat.dvd_of_mod_eq_zero suits.whole
  exact Nat.mod_eq_zero_of_dvd (Nat.dvd_trans nested (Nat.dvd_of_mod_eq_zero aligned))

end ChunkSizes

/-- What a node knows of one of its chunks. -/
structure Block where
  /-- The offset of the first word. -/
  bottom : Nat
  /-- The number of words, header included. -/
  size : Nat
  /-- The size class. -/
  kind : Kind
  /-- How the chunk came about. -/
  origin : Origin
  /-- Whether the chunk is tagged free. -/
  isFree : Bool
deriving DecidableEq

/-- What the node of a chunk knows of it. -/
def Chunk.block (chunk : Chunk) : Block where
  bottom := chunk.bottom
  size := chunk.size
  kind := chunk.kind
  origin := chunk.origin
  isFree := chunk.isFree

namespace Block

variable {excuse : Prop} {sizes : ChunkSizes} {block : Block}

/-- The offset of the first word after the block. -/
def stop (block : Block) : Nat := block.bottom + block.size

/-- The header of a block in the class space or outside of it. -/
def header (isClass : Bool) (block : Block) : Header where
  sentinel := Header.alive
  kindCode := block.kind.code
  isClass
  originCode := block.origin.code
  isFree := block.isFree
  size := UInt64.ofNat block.size

/-- A block whose size suits its kind and fits a header, at an offset that suits its alignment. -/
structure Sound (sizes : ChunkSizes) (block : Block) : Prop where
  /-- The size suits the kind. -/
  suits : sizes.Suits block.kind block.size
  /-- The offset suits the alignment. -/
  aligned : block.bottom % sizes.alignment block.kind block.size = 0
  /-- The size fits a header. -/
  short : block.size < Header.sizeLimit

/-- The offset of a sound block is a multiple of the specialized size. -/
theorem Sound.bottom_whole (sound : block.Sound sizes) : block.bottom % sizes.specialized = 0 :=
  sound.suits.offset_whole sound.aligned

/-- The offset of a sound block of fixed size is a multiple of its size. -/
theorem Sound.bottom_aligned (sound : block.Sound sizes) (fixed : block.kind ≠ .humongous) :
    block.bottom % block.size = 0 := by
  have aligned := sound.aligned
  rw [ChunkSizes.alignment_eq fixed] at aligned
  exact aligned

/-- The end of a sound block is a multiple of the specialized size. -/
theorem Sound.stop_whole (sound : block.Sound sizes) : block.stop % sizes.specialized = 0 := by
  unfold stop
  rw [Nat.add_mod, sound.bottom_whole, sound.suits.whole, Nat.add_zero, Nat.zero_mod]

/-- A sound block is not empty. -/
theorem Sound.bottom_lt_stop (sound : block.Sound sizes) : block.bottom < block.stop := by
  have headerLt := sound.suits.header_lt
  unfold stop
  omega

/-- The header of a sound block holds its size. -/
theorem Sound.toNat_size_header (sound : block.Sound sizes) (isClass : Bool) :
    (block.header isClass).size.toNat = block.size := by
  have short := sound.short
  unfold Header.sizeLimit at short
  change (UInt64.ofNat block.size).toNat = block.size
  rw [UInt64.toNat_ofNat']
  exact Nat.mod_eq_of_lt (by omega)

/-- The header of a sound block is read back as it was written. -/
theorem Sound.decode_header (sound : block.Sound sizes) (isClass : Bool) :
    Header.decode Header.alive (block.header isClass).packed = block.header isClass := by
  apply Header.decode_encode (block.header isClass)
  · exact UInt8.lt_iff_toNat_lt.mp block.kind.code_lt
  · exact UInt8.lt_iff_toNat_lt.mp block.origin.code_lt
  · rw [sound.toNat_size_header isClass]
    exact sound.short

/-- The header of a block is that of a chunk that is alive. -/
@[simp] theorem isAlive_header (block : Block) (isClass : Bool) :
    (block.header isClass).isAlive = true := by
  simp [Header.isAlive, header]

/-- The header of a block holds its kind. -/
@[simp] theorem kind?_header (block : Block) (isClass : Bool) :
    (block.header isClass).kind? = some block.kind :=
  Kind.ofCode?_code block.kind

/-- The header of a block holds its origin. -/
@[simp] theorem origin?_header (block : Block) (isClass : Bool) :
    (block.header isClass).origin? = some block.origin := by
  have valid : Origin.isValid block.origin.code = true := by
    cases block.origin <;> decide
  unfold Header.origin?
  rw [if_pos (show Origin.isValid (block.header isClass).originCode = true from valid)]
  exact Origin.ofCode?_code block.origin

end Block

namespace Chunk

variable {excuse : Prop} {sizes : ChunkSizes} {chunk : Chunk}

/-- A handle of a chunk that is alive, whose block is sound and whose top lies in it. -/
structure Sound (sizes : ChunkSizes) (chunk : Chunk) : Prop where
  /-- The chunk is alive. -/
  alive : chunk.sentinel = Header.alive
  /-- The block is sound. -/
  block : chunk.block.Sound sizes
  /-- The top is not in the header. -/
  payload_le : chunk.payload ≤ chunk.top
  /-- The top is not past the end. -/
  top_le : chunk.top ≤ chunk.stop

/-- The header of a chunk that is alive is that of its block. -/
theorem header_eq (alive : chunk.sentinel = Header.alive) :
    chunk.header = chunk.block.header chunk.isClass := by
  unfold header Block.header
  rw [alive]
  rfl

/-- A fresh handle is empty, in use and of unremarkable origin. -/
theorem fresh_ensures {kind : Kind} {isClass : Bool} {size bottom : Nat} {container : NodeId}
    (room : Header.words < size) (fits : ¬excuse → bottom + Header.words < wordLimit) :
    Ensures excuse (fresh kind isClass size bottom container) fun chunk =>
      chunk = ⟨container, bottom, size, bottom + Header.words, kind, isClass, Header.alive,
        .normal, 0, false⟩ := by
  unfold fresh
  apply Ensures.bind (ensures_require fun _ => decide_eq_true room)
  intro _ _
  apply Ensures.bind (Count.add_ensures fits)
  rintro top ⟨rfl, _⟩
  rfl

/-- The audit of a sound handle passes. -/
theorem Sound.audit_ensures (sound : chunk.Sound sizes) :
    Ensures excuse (chunk.audit sizes) fun _ => True := by
  have suits : sizes.Suits chunk.kind chunk.size := sound.block.suits
  have sizeFits : Ensures excuse (chunk.auditSize sizes) fun _ => True := by
    unfold auditSize
    by_cases humongous : chunk.kind = .humongous
    · rw [if_pos (by rw [humongous]; rfl)]
      rw [humongous] at suits
      apply (ensures_require fun _ => ?_).mono fun _ _ => trivial
      simpa [ChunkSizes.isHumongousSize, ChunkSizes.Suits] using suits
    · rw [if_neg (by simpa [Kind.isHumongous] using humongous), suits.fixedSize humongous]
      exact (ensures_require fun _ => beq_self_eq_true _).mono fun _ _ => trivial
  unfold audit
  apply Ensures.bind (ensures_require fun _ => by simp [isAlive, sound.alive])
  intro _ _
  apply Ensures.bind sizeFits
  intro _ _
  apply Ensures.bind (ensures_require fun _ => by simp [sound.payload_le, sound.top_le])
  intro _ _
  apply Ensures.bind (Count.isMultiple_ensures suits.alignment_pos)
  rintro aligned rfl
  apply (ensures_require fun _ => ?_).mono fun _ _ => trivial
  exact beq_iff_eq.mpr sound.block.aligned

/-- Taking words back keeps a handle sound and empties it. -/
theorem Sound.emptied (sound : chunk.Sound sizes) : chunk.emptied.Sound sizes := by
  refine ⟨sound.alive, sound.block, Nat.le_refl _, ?_⟩
  have headerLt : Header.words < chunk.size := sound.block.suits.header_lt
  change chunk.bottom + Header.words ≤ chunk.bottom + chunk.size
  omega

/-- The free flag does not matter for soundness. -/
theorem Sound.withFree (sound : chunk.Sound sizes) (isFree : Bool) :
    (chunk.withFree isFree).Sound sizes :=
  ⟨sound.alive, ⟨sound.block.suits, sound.block.aligned, sound.block.short⟩, sound.payload_le,
    sound.top_le⟩

end Chunk

end CollectorMemory
