import CollectorMemory.Node.Words
import CollectorMemory.Proofs.Ensures

/-!
# Committed memory as a function of offsets

`Words.word` reads memory as a plain function. Every write inside of the memory succeeds, keeps its
size and changes the words of its range and no others.
-/

namespace CollectorMemory.Words

variable {excuse : Prop} {words : Words}

/-- The word at an offset, zero outside of the memory. -/
def word (words : Words) (offset : Nat) : UInt64 := words.getD offset 0

/-- Reading a word of the memory. -/
theorem wordAt_ensures {offset : Nat} (inside : offset < words.size) :
    Ensures excuse (words.wordAt offset) fun value => value = words.word offset := by
  unfold wordAt
  rw [dif_pos inside]
  simp [Ensures, word, Array.getD, inside]

/-- Reading a header of the memory. -/
theorem headerAt_ensures {offset : Nat} (inside : offset + Header.words ≤ words.size) :
    Ensures excuse (words.headerAt offset) fun header =>
      header = Header.decode (words.word offset) (words.word (offset + 1)) := by
  have twoWords : Header.words = 2 := rfl
  unfold headerAt
  apply Ensures.bind (wordAt_ensures (by omega))
  rintro first rfl
  apply Ensures.bind (wordAt_ensures (by omega))
  rintro second rfl
  rfl

/-- Storing words keeps the size of the memory. -/
theorem size_store (offset : Nat) (data : List UInt64) :
    (words.store offset data).size = words.size := by
  induction data generalizing words offset with
  | nil => rfl
  | cons head rest ih =>
    rw [store, ih]
    exact Array.size_setIfInBounds

/-- A word after one word was replaced. -/
theorem word_setIfInBounds {offset other : Nat} {value : UInt64} (inside : offset < words.size) :
    word (words.setIfInBounds offset value) other =
      if other = offset then value else words.word other := by
  unfold word
  by_cases same : other = offset
  · subst same
    simp [Array.getD, inside]
  · have differs : offset ≠ other := fun equal => same equal.symm
    by_cases otherInside : other < words.size
    · simp [Array.getD, otherInside, same, differs]
    · simp [Array.getD, otherInside, same]

/-- A word after words were stored. -/
theorem word_store {offset other : Nat} {data : List UInt64}
    (inside : offset + data.length ≤ words.size) :
    (words.store offset data).word other =
      if offset ≤ other ∧ other < offset + data.length then data.getD (other - offset) 0
      else words.word other := by
  induction data generalizing words offset with
  | nil =>
    rw [if_neg (by rw [List.length_nil]; omega)]
    rfl
  | cons head rest ih =>
    rw [List.length_cons] at inside ⊢
    have headInside : offset < words.size := by omega
    have restInside : offset + 1 + rest.length ≤ (words.setIfInBounds offset head).size := by
      rw [Array.size_setIfInBounds]
      omega
    rw [store, ih restInside, word_setIfInBounds headInside]
    by_cases first : other = offset
    · subst first
      rw [if_neg (by omega), if_pos rfl, if_pos (by omega), Nat.sub_self]
      rfl
    · by_cases later : offset + 1 ≤ other ∧ other < offset + 1 + rest.length
      · have shift : other - offset = other - (offset + 1) + 1 := by omega
        rw [if_pos later, if_pos (by omega), shift, List.getD_cons_succ]
      · rw [if_neg later, if_neg first, if_neg (by omega)]

/-- Writing words inside of the memory. -/
theorem write_ensures {offset : Nat} {data : List UInt64}
    (inside : offset + data.length ≤ words.size) :
    Ensures excuse (words.write offset data) fun after =>
      after.size = words.size ∧ ∀ other, after.word other =
        if offset ≤ other ∧ other < offset + data.length then data.getD (other - offset) 0
        else words.word other := by
  unfold write
  apply Ensures.bind (ensures_require fun _ => decide_eq_true inside)
  intro _ _
  exact ⟨size_store offset data, fun _ => word_store inside⟩

/-- Writing one word over a range inside of the memory changes nothing outside of the range. -/
theorem fill_ensures {offset length : Nat} {value : UInt64}
    (inside : offset + length ≤ words.size) :
    Ensures excuse (words.fill offset length value) fun after =>
      after.size = words.size ∧ ∀ other, ¬(offset ≤ other ∧ other < offset + length) →
        after.word other = words.word other := by
  unfold fill
  have room : offset + (List.replicate length value).length ≤ words.size := by
    rw [List.length_replicate]
    exact inside
  apply (write_ensures room).mono
  rintro after ⟨size, stored⟩
  refine ⟨size, ?_⟩
  intro other outside
  rw [stored other, List.length_replicate, if_neg outside]

/-- Writing one word over a range where this is asked for. -/
theorem fillIf_ensures {asked : Bool} {offset length : Nat} {value : UInt64}
    (inside : offset + length ≤ words.size) :
    Ensures excuse (words.fillIf asked offset length value) fun after =>
      after.size = words.size ∧ ∀ other, ¬(offset ≤ other ∧ other < offset + length) →
        after.word other = words.word other := by
  unfold fillIf
  cases asked with
  | true => exact fill_ensures inside
  | false => exact ⟨rfl, fun _ _ => rfl⟩

/-- Writing the header of a chunk changes the two words at its bottom. -/
theorem writeHeader_ensures {chunk : Chunk} (inside : chunk.bottom + Header.words ≤ words.size) :
    Ensures excuse (words.writeHeader chunk) fun after =>
      after.size = words.size ∧ after.word chunk.bottom = chunk.sentinel ∧
        after.word (chunk.bottom + 1) = chunk.header.packed ∧
        ∀ other, ¬(chunk.bottom ≤ other ∧ other < chunk.bottom + Header.words) →
          after.word other = words.word other := by
  have twoWords : Header.words = 2 := rfl
  unfold writeHeader
  apply (write_ensures inside).mono
  rintro after ⟨size, stored⟩
  refine ⟨size, ?_, ?_, ?_⟩
  · rw [stored, if_pos ⟨Nat.le_refl _, by simp⟩, Nat.sub_self]
    rfl
  · rw [stored, if_pos ⟨Nat.le_add_right _ _, by simp⟩, Nat.add_sub_cancel_left]
    rfl
  · intro other outside
    rw [stored]
    exact if_neg outside

/-- Overwriting a sentinel changes one word. -/
theorem absorbHeader_ensures {offset : Nat} (inside : offset < words.size) :
    Ensures excuse (words.absorbHeader offset) fun after =>
      after.size = words.size ∧ ∀ other, other ≠ offset → after.word other = words.word other := by
  unfold absorbHeader
  have room : offset + [Header.absorbed].length ≤ words.size := inside
  apply (write_ensures room).mono
  rintro after ⟨size, stored⟩
  refine ⟨size, ?_⟩
  intro other differs
  rw [stored, if_neg (by rw [List.length_singleton]; omega)]

/-- Reading a range of the memory. -/
theorem slice_ensures {offset length : Nat} (inside : offset + length ≤ words.size) :
    Ensures excuse (words.slice offset length) fun data =>
      data.length = length ∧ ∀ index < length, data[index]? = some (words.word (offset + index)) := by
  unfold slice
  apply Ensures.bind (ensures_require fun _ => decide_eq_true inside)
  intro _ _
  refine ⟨by simp; omega, ?_⟩
  intro index below
  have indexInside : offset + index < words.size := by omega
  simp [word, Array.getD, indexInside, below]

end CollectorMemory.Words
