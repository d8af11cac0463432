import CollectorMemory.Proofs.Node.Carved

/-!
# Growth of a node

A node that was just reserved consists of no blocks. Committing more of it adds words that are zero,
which is what memory reads as outside of the committed words, so the node shows what it showed
before.
-/

namespace CollectorMemory

/-- Memory that grows by words that are zero reads as before. -/
theorem Words.word_append_zeros (words : Words) (amount offset : Nat) :
    Words.word (words ++ Array.replicate amount 0) offset = words.word offset := by
  unfold Words.word
  rw [Array.getD_eq_getD_getElem?, Array.getD_eq_getD_getElem?, Array.getElem?_append]
  split
  · rfl
  · next outside =>
    rw [Array.getElem?_eq_none (by omega : words.size ≤ offset), Array.getElem?_replicate]
    split <;> rfl

namespace Node

variable {excuse : Prop} {node : Node} {row : List Block} {id : NodeId} {sizes : ChunkSizes}
  {words least preferred : Nat} {audited : Bool}

/-- A new node consists of no blocks. -/
theorem reserve_ensures (counted : words < wordLimit) (short : sizes.medium < Header.sizeLimit)
    (granular : ¬excuse → 0 < words ∧ words % sizes.specialized = 0) :
    Ensures excuse (Node.reserve id words sizes audited).outcome fun node =>
      node.id = id ∧ node.sizes = sizes ∧ node.reserved = words ∧ node.chunksInUse = 0 ∧
        node.Carved [] ∧ node.committed = 0 := by
  unfold Node.reserve
  refine Ensures.bindRun (ensures_require fun hard => by simpa using granular hard) ?_
  intro _ passed
  rw [Bool.and_eq_true, decide_eq_true_eq, beq_iff_eq] at passed
  refine ensures_note ?_
  refine Ensures.bindRun (Occupancy.ofWords_ensures sizes.specialized_pos passed.2 counted) ?_
  rintro map ⟨regular, mapWords, mapGranule, unmarked⟩
  refine ⟨rfl, rfl, rfl, rfl, ?_, rfl⟩
  exact {
    top_le := Nat.le_refl 0
    committed_le := Nat.zero_le _
    committed_whole := Nat.zero_mod _
    short := short
    map := regular
    map_words := mapWords
    map_granule := mapGranule
    tiles := rfl
    sound := fun block member => absurd member List.not_mem_nil
    shown := fun block member => absurd member List.not_mem_nil
    blank := fun offset _ _ => unmarked offset }

/-- A node consists of the same blocks where more of it is committed. -/
theorem Carved.commit (carved : node.Carved row) {amount : Nat}
    (whole : (node.committed + amount) % node.sizes.specialized = 0)
    (inside : node.committed + amount ≤ node.reserved) :
    { node with words := node.words ++ Array.replicate amount 0 }.Carved row := by
  have committed : (node.words ++ Array.replicate amount (0 : UInt64)).size =
      node.committed + amount := by
    rw [Array.size_append, Array.size_replicate]
    rfl
  refine {
    top_le := ?_
    committed_le := ?_
    committed_whole := ?_
    short := carved.short
    map := carved.map
    map_words := carved.map_words
    map_granule := carved.map_granule
    tiles := carved.tiles
    sound := carved.sound
    shown := ?_
    blank := carved.blank }
  · change node.top ≤ (node.words ++ Array.replicate amount 0).size
    rw [committed]
    exact Nat.le_trans carved.top_le (Nat.le_add_right _ _)
  · change (node.words ++ Array.replicate amount 0).size ≤ node.reserved
    rw [committed]
    exact inside
  · change (node.words ++ Array.replicate amount 0).size % node.sizes.specialized = 0
    rw [committed]
    exact whole
  · intro block member
    have shown := carved.shown block member
    refine ⟨?_, ?_, shown.starts, shown.inUse⟩
    · exact (Words.word_append_zeros _ _ _).trans shown.sentinel
    · exact (Words.word_append_zeros _ _ _).trans shown.packed

/-- Committing more of a node gives a node with enough words more, all of them zero; there is none only
if fewer words are left. -/
theorem Carved.expand_ensures (carved : node.Carved row)
    (fits : ¬excuse → max preferred least + node.sizes.specialized ≤ wordLimit) :
    Ensures excuse (node.expand least preferred).outcome fun result =>
      match result with
      | none => node.reserved - node.committed < least
      | some after => ∃ amount, after = { node with words := node.words ++ Array.replicate amount 0 } ∧
          (node.committed + amount) % node.sizes.specialized = 0 ∧
          node.committed + amount ≤ node.reserved ∧ least ≤ amount := by
  have committedLe := carved.committed_le
  have reservedWhole : node.reserved % node.sizes.specialized = 0 := by
    have whole := carved.map.whole
    rw [carved.map_words, carved.map_granule] at whole
    exact whole
  unfold Node.expand
  by_cases few : node.reserved - node.committed < least
  · simp only [if_pos few]
    exact few
  · simp only [if_neg few]
    refine Ensures.bindRun (Count.roundUp_ensures (fun _ => node.sizes.specialized_pos) fits) ?_
    rintro wanted ⟨_, wantedWhole, wantedLe, _⟩
    refine ensures_note ?_
    refine ⟨min wanted (node.reserved - node.committed), rfl, ?_, by omega, by omega⟩
    rcases Nat.le_total wanted (node.reserved - node.committed) with enough | beyond
    · rw [Nat.min_eq_left enough, Nat.add_mod, carved.committed_whole, wantedWhole]
      exact Nat.zero_mod _
    · rw [Nat.min_eq_right beyond, Nat.add_sub_cancel' committedLe]
      exact reservedWhole

end Node

end CollectorMemory
