import CollectorMemory.Pool.Basic
import CollectorMemory.Proofs.Ensures
import CollectorMemory.Proofs.Chunk.Block
import CollectorMemory.Proofs.Pool.Order
import Mathlib.Algebra.BigOperators.Group.List.Basic

/-!
# Contents of a free pool

What a pool holds is a list of chunks up to order. Putting a chunk in or taking one out changes the
list of its kind, which is a permutation of what was there with that chunk more or less, and is in
order still. A chunk is looked up by its place, so places must not repeat.
-/

namespace CollectorMemory

/-- The number of words in a list of chunks. -/
def wordsOf (chunks : List Chunk) : Nat := (chunks.map Chunk.size).sum

@[simp] theorem wordsOf_nil : wordsOf [] = 0 := rfl

@[simp] theorem wordsOf_cons (chunk : Chunk) (chunks : List Chunk) :
    wordsOf (chunk :: chunks) = chunk.size + wordsOf chunks := by
  simp [wordsOf]

@[simp] theorem wordsOf_append (left right : List Chunk) :
    wordsOf (left ++ right) = wordsOf left + wordsOf right := by
  simp [wordsOf]

/-- The number of words does not depend on the order. -/
theorem wordsOf_perm {left right : List Chunk} (same : left.Perm right) :
    wordsOf left = wordsOf right :=
  (same.map Chunk.size).sum_nat

namespace Pool

variable {excuse : Prop} {pool after : Pool} {kind : Kind} {chunk : Chunk} {chunks : List Chunk}

/-- Two states of a pool that serve the same space. -/
structure Alike (pool after : Pool) : Prop where
  /-- The space stays. -/
  isClass : after.isClass = pool.isClass
  /-- The chunk sizes stay. -/
  sizes : after.sizes = pool.sizes
  /-- Whether the pool is audited stays. -/
  audited : after.audited = pool.audited

/-- Every chunk is in the list of its kind, and each list is in order. -/
structure Filed (pool : Pool) : Prop where
  /-- Every chunk is in the list of its kind. -/
  kind : ∀ kind, ∀ chunk ∈ pool.ofKind kind, chunk.kind = kind
  /-- Each list is in the order of its kind. -/
  ascending : ∀ kind, Ascending (Chunk.freeOrder kind) (pool.ofKind kind)

/-- A pool is like itself. -/
theorem Alike.refl (pool : Pool) : pool.Alike pool := ⟨rfl, rfl, rfl⟩

/-- A pool that stays alike in two steps stays alike. -/
theorem Alike.trans {middle : Pool} (first : pool.Alike middle) (second : middle.Alike after) :
    pool.Alike after :=
  ⟨second.isClass.trans first.isClass, second.sizes.trans first.sizes,
    second.audited.trans first.audited⟩

/-- The chunks of a pool are those of its lists. -/
theorem mem_chunks : chunk ∈ pool.chunks ↔ ∃ kind, chunk ∈ pool.ofKind kind := by
  unfold Pool.chunks
  rw [List.mem_flatMap]
  constructor
  · rintro ⟨kind, _, member⟩
    exact ⟨kind, member⟩
  · rintro ⟨kind, member⟩
    exact ⟨kind, by cases kind <;> decide, member⟩

/-- A chunk of a pool is in the list of its kind. -/
theorem Filed.mem_ofKind (filed : pool.Filed) (member : chunk ∈ pool.chunks) :
    chunk ∈ pool.ofKind chunk.kind := by
  obtain ⟨kind, inList⟩ := mem_chunks.mp member
  rw [filed.kind kind chunk inList]
  exact inList

@[simp] theorem words_withKind : (pool.withKind kind chunks).words = pool.words := by
  cases kind <;> rfl

@[simp] theorem count_withKind : (pool.withKind kind chunks).count = pool.count := by
  cases kind <;> rfl

/-- A pool stays alike where the list of a kind changes. -/
theorem alike_withKind : pool.Alike (pool.withKind kind chunks) := by
  cases kind <;> exact ⟨rfl, rfl, rfl⟩

/-- A pool stays alike where a chunk is put into a list. -/
theorem alike_push : pool.Alike (pool.push chunk) := alike_withKind

/-- A list of a kind after the list of some kind was replaced. -/
theorem ofKind_withKind (other : Kind) :
    (pool.withKind kind chunks).ofKind other = if other = kind then chunks else pool.ofKind other := by
  cases kind <;> cases other <;> rfl

/-- A change of the list of a kind is a change of the chunks of the pool. -/
theorem chunks_withKind_perm (left right : List Chunk)
    (same : (left ++ chunks).Perm (right ++ pool.ofKind kind)) :
    (left ++ (pool.withKind kind chunks).chunks).Perm (right ++ pool.chunks) := by
  rw [List.perm_iff_count] at same ⊢
  intro counted
  have counts := same counted
  cases kind <;>
    simp only [Pool.chunks, Kind.all, List.flatMap_cons, List.flatMap_nil, ofKind, withKind,
      List.count_append, List.count_nil] at counts ⊢ <;>
    omega

/-- A list in order whose chunks are of the right kind can replace a list. -/
theorem Filed.withKind (filed : pool.Filed) (right : ∀ chunk ∈ chunks, chunk.kind = kind)
    (ascending : Ascending (Chunk.freeOrder kind) chunks) : (pool.withKind kind chunks).Filed where
  kind other chunk member := by
    rw [ofKind_withKind] at member
    split at member
    · next same =>
      rw [same]
      exact right chunk member
    · exact filed.kind other chunk member
  ascending other := by
    rw [ofKind_withKind]
    split
    · next same =>
      rw [same]
      exact ascending
    · exact filed.ascending other

/-- Chunks are in the lists of their kinds whatever the numbers of the pool are. -/
theorem Filed.withNumbers (filed : pool.Filed) (words count : Nat) :
    Filed { pool with words, count } where
  kind kind chunk member := by
    apply filed.kind kind chunk
    cases kind <;> exact member
  ascending kind := by
    have ascending := filed.ascending kind
    cases kind <;> exact ascending

/-- A pool with a chunk whose place is new holds that chunk more. -/
theorem push_perm (filed : pool.Filed)
    (fresh : ∀ other ∈ pool.chunks, other.place ≠ chunk.place) :
    (pool.push chunk).chunks.Perm (chunk :: pool.chunks) ∧ (pool.push chunk).Filed := by
  have newKey : ∀ other ∈ pool.ofKind chunk.kind,
      Chunk.freeOrder chunk.kind chunk other ≠ .eq := fun other member same =>
    fresh other (mem_chunks.mpr ⟨chunk.kind, member⟩) (Chunk.place_eq_of_freeOrder same).symm
  have inserted := insertOrdered_perm newKey
  constructor
  · exact chunks_withKind_perm [] [chunk] inserted
  · apply filed.withKind
    · intro other member
      rcases List.mem_cons.mp (inserted.mem_iff.mp member) with isChunk | inList
      · rw [isChunk]
      · exact filed.kind chunk.kind other inList
    · exact (filed.ascending chunk.kind).insertOrdered newKey

/-- A pool without a chunk of a kind holds that chunk less. -/
theorem removed_perm (filed : pool.Filed) (perm : (pool.ofKind kind).Perm (chunk :: chunks))
    (part : chunks.Sublist (pool.ofKind kind)) :
    pool.chunks.Perm (chunk :: (pool.withKind kind chunks).chunks) ∧
      (pool.withKind kind chunks).Filed ∧ chunk.kind = kind := by
  refine ⟨(chunks_withKind_perm [chunk] [] perm.symm).symm, ?_, ?_⟩
  · apply filed.withKind
    · intro other member
      exact filed.kind kind other (perm.mem_iff.mpr (List.mem_cons_of_mem chunk member))
    · exact (filed.ascending kind).sublist part
  · exact filed.kind kind chunk (perm.mem_iff.mpr List.mem_cons_self)

/-- A pool that was changed by taking chunks out and keeps its numbers. -/
structure Without (pool after : Pool) (taken : List Chunk) : Prop extends pool.Alike after where
  /-- The chunks are the ones taken out and the rest. -/
  perm : pool.chunks.Perm (taken ++ after.chunks)
  /-- Every chunk stays in the list of its kind. -/
  filed : after.Filed
  /-- The number of words is kept. -/
  words : after.words = pool.words
  /-- The number of chunks is kept. -/
  count : after.count = pool.count

/-- The chunk of a block of a node is found and taken out. -/
theorem unlink_ensures {id : NodeId} {header : Header} {isClass : Bool} {block : Block}
    {sizes : ChunkSizes} (filed : pool.Filed) (sound : block.Sound sizes)
    (isHeader : header = block.header isClass)
    (distinct : ∀ first ∈ pool.chunks, ∀ second ∈ pool.chunks, first.container = id →
      first.place = second.place → first = second)
    (there : ∃ chunk ∈ pool.chunks, chunk.container = id ∧ chunk.block = block) :
    Ensures excuse (pool.unlink id block.bottom header) fun (after, chunk) =>
      chunk.container = id ∧ chunk.block = block ∧ pool.Without after [chunk] := by
  obtain ⟨chunk, member, container, isBlock⟩ := there
  have kindSame : chunk.kind = block.kind := congrArg Block.kind isBlock
  have bottomSame : chunk.bottom = block.bottom := congrArg Block.bottom isBlock
  have sizeSame : chunk.size = block.size := congrArg Block.size isBlock
  have inList : chunk ∈ pool.ofKind block.kind := by
    rw [← kindSame]
    exact filed.mem_ofKind member
  have headerSize : header.size.toNat = block.size := by
    rw [isHeader]
    exact sound.toNat_size_header isClass
  have headerKind : header.kind? = some block.kind := by
    rw [isHeader]
    exact Block.kind?_header block isClass
  let isThere (chunk : Chunk) : Bool := chunk.container == id && chunk.bottom == block.bottom
    && (!block.kind.isHumongous || chunk.size == header.size.toNat)
  have passes : isThere chunk = true := by
    simp [isThere, container, bottomSame, sizeSame, headerSize]
  obtain ⟨found, rest, taken⟩ := exists_takeFirst? inList passes
  obtain ⟨foundPasses, perm⟩ := takeFirst?_eq_some taken
  have foundMember : found ∈ pool.chunks :=
    mem_chunks.mpr ⟨block.kind, perm.mem_iff.mpr List.mem_cons_self⟩
  simp only [isThere, Bool.and_eq_true, beq_iff_eq] at foundPasses
  obtain ⟨⟨foundContainer, foundBottom⟩, _⟩ := foundPasses
  have samePlace : found.place = chunk.place := by
    unfold Chunk.place
    rw [foundContainer, foundBottom, container, bottomSame]
  have same := distinct found foundMember chunk member foundContainer samePlace
  subst same
  obtain ⟨wholePerm, restFiled, _⟩ := removed_perm filed perm (takeFirst?_sublist taken)
  unfold unlink
  rw [headerKind]
  simp only [Option.bind_some]
  rw [show takeFirst? _ (pool.ofKind block.kind) = some (found, rest) from taken]
  exact ⟨container, isBlock, ⟨alike_withKind, wholePerm, restFiled, words_withKind, count_withKind⟩⟩

/-- The chunks of blocks of a node are found and taken out. -/
theorem unlinkAll_ensures {id : NodeId} {isClass : Bool} {sizes : ChunkSizes} {blocks : List Block}
    (filed : pool.Filed) (sound : ∀ block ∈ blocks, block.Sound sizes) (nodup : blocks.Nodup)
    (distinct : ∀ first ∈ pool.chunks, ∀ second ∈ pool.chunks, first.container = id →
      first.place = second.place → first = second)
    (there : ∀ block ∈ blocks, ∃ chunk ∈ pool.chunks, chunk.container = id ∧ chunk.block = block) :
    Ensures excuse (pool.unlinkAll id (blocks.map fun block => (block.bottom, block.header isClass)))
      fun (after, taken) => taken.map Chunk.block = blocks ∧
        (∀ chunk ∈ taken, chunk.container = id) ∧ pool.Without after taken := by
  induction blocks generalizing pool with
  | nil =>
    exact ⟨rfl, fun chunk member => absurd member List.not_mem_nil,
      ⟨Alike.refl pool, List.Perm.refl _, filed, rfl, rfl⟩⟩
  | cons head rest ih =>
    obtain ⟨headNew, restNodup⟩ := List.nodup_cons.mp nodup
    rw [List.map_cons]
    unfold unlinkAll
    apply Ensures.bind (unlink_ensures filed (sound head List.mem_cons_self) rfl distinct
      (there head List.mem_cons_self))
    rintro ⟨middle, chunk⟩ ⟨container, isBlock, without⟩
    have inPool : ∀ other, other ∈ middle.chunks → other ∈ pool.chunks := fun other member =>
      without.perm.mem_iff.mpr (List.mem_append_right _ member)
    have restThere : ∀ block ∈ rest,
        ∃ chunk ∈ middle.chunks, chunk.container = id ∧ chunk.block = block := by
      intro block member
      obtain ⟨other, inChunks, otherContainer, otherBlock⟩ :=
        there block (List.mem_cons_of_mem head member)
      rcases List.mem_append.mp (without.perm.mem_iff.mp inChunks) with isChunk | inMiddle
      · rw [List.mem_singleton.mp isChunk, isBlock] at otherBlock
        rw [otherBlock] at headNew
        exact absurd member headNew
      · exact ⟨other, inMiddle, otherContainer, otherBlock⟩
    apply Ensures.bind (ih without.filed
      (fun block member => sound block (List.mem_cons_of_mem head member)) restNodup
      (fun first inFirst second inSecond =>
        distinct first (inPool first inFirst) second (inPool second inSecond)) restThere)
    rintro ⟨after, taken⟩ ⟨blocks, containers, restWithout⟩
    refine ⟨by rw [List.map_cons, isBlock, blocks], ?_, ?_⟩
    · intro other member
      rcases List.mem_cons.mp member with isChunk | inTaken
      · rw [isChunk]
        exact container
      · exact containers other inTaken
    · exact ⟨without.toAlike.trans restWithout.toAlike,
        without.perm.trans (restWithout.perm.cons chunk), restWithout.filed,
        restWithout.words.trans without.words, restWithout.count.trans without.count⟩

end Pool

end CollectorMemory
