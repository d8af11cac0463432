import CollectorMemory.Proofs.Session.HandingOut
import CollectorMemory.Proofs.Session.Oversized

/-!
# Chunks for a payload

Users that need room for a payload ask for the least valid chunk size that has room for it and a
header. There is always one, if it need not be a count: a fixed size, or above the medium size the next
multiple of the specialized one. A chunk that is handed out for that size has room for the payload, in
every state that users can reach and whichever way it came about, since it is unused and at least as
large.
-/

namespace CollectorMemory

namespace ChunkSizes

variable {sizes : ChunkSizes} {size payload : Nat}

/-- The least chunk size that has room for some words, where no bound is checked. -/
def leastSize (sizes : ChunkSizes) (needed : Nat) : Nat :=
  if needed ≤ sizes.specialized then sizes.specialized
  else if needed ≤ sizes.small then sizes.small
  else if needed ≤ sizes.medium then sizes.medium
  else Count.nextMultiple (max needed (sizes.medium + 1)) sizes.specialized

/-- The least size is a size of chunks and has room for the words. -/
theorem leastSize_valid (sizes : ChunkSizes) (needed : Nat) :
    sizes.isChunkSize (sizes.leastSize needed) ∧ needed ≤ sizes.leastSize needed := by
  unfold leastSize
  split
  · next fits => exact ⟨Suits.isChunkSize (show sizes.Suits .specialized _ from rfl), fits⟩
  split
  · next fits => exact ⟨Suits.isChunkSize (show sizes.Suits .small _ from rfl), fits⟩
  split
  · next fits => exact ⟨Suits.isChunkSize (show sizes.Suits .medium _ from rfl), fits⟩
  · have bounds := Count.nextMultiple_bounds (max needed (sizes.medium + 1)) sizes.specialized_pos
    have suits : sizes.Suits .humongous
        (Count.nextMultiple (max needed (sizes.medium + 1)) sizes.specialized) :=
      ⟨by omega, Count.nextMultiple_mod _ _⟩
    exact ⟨suits.isChunkSize, by omega⟩

/-- No size of chunks that has room for the words is smaller than the least one. -/
theorem leastSize_le {needed : Nat} (valid : sizes.isChunkSize size) (enough : needed ≤ size) :
    sizes.leastSize needed ≤ size := by
  have specializedLt := sizes.specialized_lt
  have smallLt := sizes.small_lt
  obtain ⟨kind, suits⟩ := exists_suits_of_isChunkSize valid
  unfold leastSize
  cases kind with
  | humongous =>
    obtain ⟨above, whole⟩ := suits
    have next := Count.nextMultiple_le sizes.specialized_pos whole
      (show max needed (sizes.medium + 1) ≤ size by omega)
    split_ifs <;> omega
  | _ =>
    have isSize : size = _ := suits
    split_ifs <;> omega

/-- The least size is the least one. -/
theorem isLeast_leastSize (sizes : ChunkSizes) (needed : Nat) :
    IsLeast {size | sizes.isChunkSize size ∧ needed ≤ size} (sizes.leastSize needed) :=
  ⟨sizes.leastSize_valid needed, fun _ ⟨valid, enough⟩ => leastSize_le valid enough⟩

/-- The size for a payload is the least one that has room for it and a header, if that is a count. -/
theorem sizeForPayload_eq_check (counted : sizes.medium < wordLimit) (payload : Nat) :
    sizes.sizeForPayload payload = Count.check (sizes.leastSize (payload + Header.words)) := by
  have specializedLt := sizes.specialized_lt
  have smallLt := sizes.small_lt
  have enough := (sizes.leastSize_valid (payload + Header.words)).2
  have checked : ∀ {value : Nat}, value < wordLimit → Count.check value = .ok value :=
    fun inside => Count.check_eq_ok_iff.mpr ⟨rfl, inside⟩
  have overflows : ∀ {value : Nat}, wordLimit ≤ value → Count.check value = .error .overflow :=
    fun beyond => if_neg (Nat.not_lt_of_le beyond)
  unfold sizeForPayload Count.add
  by_cases neededCounted : payload + Header.words < wordLimit
  · rw [checked neededCounted]
    unfold leastSize at enough ⊢
    change (if _ then _ else _) = _
    split
    · exact (checked (by omega)).symm
    split
    · exact (checked (by omega)).symm
    split
    · exact (checked counted).symm
    -- Above the medium size the sum with one is checked first, and it is no count only at the limit.
    · by_cases room : sizes.medium + 1 < wordLimit
      · rw [checked room]
        exact Count.roundUp_eq_check _ sizes.specialized_pos
      · rw [overflows (Nat.le_of_not_lt room)]
        have bounds := Count.nextMultiple_bounds (max (payload + Header.words) (sizes.medium + 1))
          sizes.specialized_pos
        exact (overflows (by omega)).symm
  · have beyond := Nat.le_of_not_lt neededCounted
    rw [overflows beyond, overflows (Nat.le_trans beyond enough)]
    rfl

end ChunkSizes

/-- An unused chunk hands out any words that it has room for behind the header, from the start of its
payload. -/
theorem Chunk.Unused.allocate {confines : Confines} {chunk : Chunk} {payload : Nat}
    (unused : chunk.Unused confines) (enough : payload + Header.words ≤ chunk.size) :
    chunk.allocate payload =
      .ok (some (chunk.payloadPlace, { chunk with top := chunk.payload + payload })) := by
  have empty := unused.empty
  have counted := unused.stop_lt
  have start : chunk.payload = chunk.bottom + Header.words := rfl
  have stop : chunk.stop = chunk.bottom + chunk.size := rfl
  have isFree : chunk.freeWords = .ok (chunk.stop - chunk.top) :=
    Count.sub_eq_ok_iff.mpr ⟨rfl, by omega⟩
  have isTop : Count.add chunk.top payload = .ok (chunk.payload + payload) :=
    Count.check_eq_ok_iff.mpr ⟨by omega, by omega⟩
  have isPlace : chunk.topPlace = chunk.payloadPlace := by
    rw [Chunk.topPlace, empty, Chunk.payloadPlace]
  unfold Chunk.allocate
  rw [isFree, isTop, isPlace]
  exact if_neg (by omega)

namespace Session

variable {sizes : ChunkSizes} {specialized small medium payload : Nat}

/-- A payload has a chunk size exactly if some valid one that is a count has room for it and a header:
then it is the least valid one, and otherwise there is an overflow. Whenever a space with these chunk
sizes hands out a chunk for that size, in a session that users reach by operations and by tagging chunks,
the chunk has room for the payload and hands it out from the start of its own payload. -/
theorem reached_payload_fits (accepted : ChunkSizes.ofWords specialized small medium = .ok sizes)
    (counted : medium < wordLimit) :
    ((∃ size < wordLimit, sizes.isChunkSize size ∧ payload + Header.words ≤ size) →
      ∃ size < wordLimit, sizes.sizeForPayload payload = .ok size ∧
        IsLeast {size | sizes.isChunkSize size ∧ payload + Header.words ≤ size} size) ∧
    ((¬∃ size < wordLimit, sizes.isChunkSize size ∧ payload + Header.words ≤ size) →
      sizes.sizeForPayload payload = .error .overflow) ∧
    ∀ (options : Options) (opened reached : Session) (actions : List Action) (space : Space)
      (size : Nat) (chunk : Chunk) (after : Allocator),
      ofOptions options = .ok opened → opened.actAll actions = .ok reached →
      reached.allocator.sizes space = sizes → sizes.sizeForPayload payload = .ok size →
      (reached.allocator.allocate space size).outcome = .ok (.ok chunk, after) →
      chunk.allocate payload =
        .ok (some (chunk.payloadPlace, { chunk with top := chunk.payload + payload })) := by
  have isMedium : sizes.medium = medium := by
    unfold ChunkSizes.ofWords at accepted
    split_ifs at accepted
    cases accepted
    rfl
  have sized := ChunkSizes.sizeForPayload_eq_check (isMedium.symm ▸ counted) payload
  have least := sizes.isLeast_leastSize (payload + Header.words)
  rw [sized]
  refine ⟨?_, ?_, ?_⟩
  · rintro ⟨size, inside, valid, enough⟩
    have leastInside := Nat.lt_of_le_of_lt (least.2 ⟨valid, enough⟩) inside
    exact ⟨_, leastInside, Count.check_eq_ok_iff.mpr ⟨rfl, leastInside⟩, least⟩
  · intro nothing
    exact if_neg fun inside => nothing ⟨_, inside, least.1⟩
  · intro options opened reached actions space size chunk after made done isSizes isSize answered
    obtain ⟨rfl, -⟩ := Count.check_eq_ok_iff.mp isSize
    obtain ⟨fresh, -⟩ := ofOptions_confined.of_ok made
    have confined := ((fresh.actAll actions).of_ok done).allocator
    obtain ⟨unused, enough⟩ := (confined.allocate.of_ok answered).2 chunk rfl
    exact unused.allocate (Nat.le_trans least.1.2 enough)

/-- Two chunks are taken, one of them is tagged twice, and the other one is put back. -/
def humongousBack : List Action :=
  [.operate (.allocate .nonClass 18), .operate (.allocate .nonClass 3), .tag 1 false, .tag 1 true,
    .operate (.putBack 0)]

/-- After that run a payload of thirteen words gets the larger chunk that was put back, which has room
for it. -/
theorem humongousBack_payload_fits : ∃ opened reached chunk after,
    ofOptions Options.smallest = .ok opened ∧ opened.actAll humongousBack = .ok reached ∧
    (reached.allocator.sizes .nonClass).sizeForPayload 13 = .ok 15 ∧
    (reached.allocator.allocate .nonClass 15).outcome = .ok (.ok chunk, after) ∧ chunk.size = 18 ∧
    chunk.allocate 13 =
      .ok (some (chunk.payloadPlace, { chunk with top := chunk.payload + 13 })) := by
  have evaluated : (ofOptions Options.smallest >>= fun session =>
      session.actAll humongousBack).toOption.map (fun reached =>
        (reached.allocator.sizes .nonClass,
          (reached.answer? .nonClass 15).map fun answer => answer.1.size)) =
      some (⟨3, 6, 12, by decide, by decide, by decide, rfl, rfl⟩, some 18) := by decide +kernel
  obtain ⟨opened, reached, made, done, view⟩ := exists_reached evaluated
  obtain ⟨isSizes, seen⟩ := Prod.mk.inj view
  obtain ⟨⟨chunk, after⟩, isAnswer, size⟩ := Option.map_eq_some_iff.mp seen
  have answered := answer?_eq_some isAnswer
  have accepted : ChunkSizes.ofWords 3 6 12 = .ok (reached.allocator.sizes .nonClass) := by
    rw [isSizes]
    rfl
  have isSize : (reached.allocator.sizes .nonClass).sizeForPayload 13 = .ok 15 := by
    rw [isSizes]
    rfl
  exact ⟨opened, reached, chunk, after, made, done, isSize, answered, size,
    (reached_payload_fits accepted (by decide)).2.2 _ _ _ _ _ _ _ _ made done rfl isSize answered⟩

end Session

end CollectorMemory
