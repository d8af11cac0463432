import CollectorMemory.Pool.Ordered

/-!
# Order in the lists of a free pool

Each list of a pool is strictly ascending in the order of its kind. Putting a chunk in and taking one
out keep this, so the first chunk of a list is the least one, and the first chunk that passes a test is
the least one that does.
-/

namespace CollectorMemory

variable {left middle right chunk other : Chunk} {chunks rest : List Chunk} {kind : Kind}
  {order : Chunk → Chunk → Ordering} {test : Chunk → Bool}

namespace Chunk

/-- A chunk is before another one where its space, node or offset is lower. -/
theorem placeOrder_eq_lt : left.placeOrder right = .lt ↔
    left.container.space.rank < right.container.space.rank ∨
      left.container.space.rank = right.container.space.rank ∧
        (left.container.index < right.container.index ∨
          left.container.index = right.container.index ∧ left.bottom < right.bottom) := by
  simp only [placeOrder, Location.order, NodeId.order, place, Ordering.then_eq_lt,
    Ordering.then_eq_eq, Nat.compare_eq_lt, Nat.compare_eq_eq]
  omega

/-- What does not come before and is not at the same place comes after. -/
theorem placeOrder_eq_gt : left.placeOrder right = .gt ↔ right.placeOrder left = .lt := by
  rw [placeOrder_eq_lt]
  simp only [placeOrder, Location.order, NodeId.order, place, Ordering.then_eq_gt,
    Ordering.then_eq_eq, Nat.compare_eq_gt, Nat.compare_eq_eq]
  omega

/-- Places are ordered transitively. -/
theorem placeOrder_trans (first : left.placeOrder middle = .lt)
    (second : middle.placeOrder right = .lt) : left.placeOrder right = .lt := by
  rw [placeOrder_eq_lt] at *
  omega

/-- A humongous chunk is before another one where it is smaller, or as large and before it. -/
theorem sizeOrder_eq_lt : left.sizeOrder right = .lt ↔
    left.size < right.size ∨ left.size = right.size ∧ left.placeOrder right = .lt := by
  simp only [sizeOrder, Ordering.then_eq_lt, Nat.compare_eq_lt, Nat.compare_eq_eq]

/-- A humongous chunk comes after what comes before it. -/
theorem sizeOrder_eq_gt : left.sizeOrder right = .gt ↔ right.sizeOrder left = .lt := by
  rw [sizeOrder_eq_lt]
  simp only [sizeOrder, Ordering.then_eq_gt, Nat.compare_eq_gt, Nat.compare_eq_eq, placeOrder_eq_gt]
  rw [eq_comm]

/-- The sizes of humongous chunks and their places are ordered transitively. -/
theorem sizeOrder_trans (first : left.sizeOrder middle = .lt)
    (second : middle.sizeOrder right = .lt) : left.sizeOrder right = .lt := by
  rw [sizeOrder_eq_lt] at first second ⊢
  rcases first with smaller | ⟨same, before⟩
  · omega
  · rcases second with smaller | ⟨alike, later⟩
    · omega
    · exact Or.inr ⟨same.trans alike, placeOrder_trans before later⟩

/-- The order of a kind is transitive. -/
theorem freeOrder_trans (first : freeOrder kind left middle = .lt)
    (second : freeOrder kind middle right = .lt) : freeOrder kind left right = .lt := by
  cases kind with
  | humongous => exact sizeOrder_trans first second
  | _ => exact placeOrder_trans first second

/-- A chunk comes after what comes before it. -/
theorem freeOrder_eq_gt : freeOrder kind left right = .gt ↔ freeOrder kind right left = .lt := by
  cases kind with
  | humongous => exact sizeOrder_eq_gt
  | _ => exact placeOrder_eq_gt

/-- Chunks with the same key of a kind are at the same place. -/
theorem place_eq_of_freeOrder (same : freeOrder kind left right = .eq) :
    left.place = right.place := by
  have ofPlace : left.placeOrder right = .eq → left.place = right.place := by
    intro equal
    simp only [placeOrder, Location.order, NodeId.order, Ordering.then_eq_eq,
      Nat.compare_eq_eq] at equal
    obtain ⟨⟨ranks, indices⟩, offsets⟩ := equal
    have spaces : left.place.node.space = right.place.node.space := by
      revert ranks
      cases left.place.node.space <;> cases right.place.node.space <;> simp [Space.rank]
    generalize left.place = first at *
    generalize right.place = second at *
    obtain ⟨⟨_, _⟩, _⟩ := first
    obtain ⟨⟨_, _⟩, _⟩ := second
    simp_all
  unfold freeOrder at same
  split at same
  · simp only [sizeOrder, Ordering.then_eq_eq] at same
    exact ofPlace same.2
  · exact ofPlace same

/-- Of two chunks of a node the one with the lower bottom comes first. -/
theorem freeOrder_eq_lt (fixed : kind ≠ .humongous) (container : left.container = right.container)
    (lower : left.bottom < right.bottom) : freeOrder kind left right = .lt := by
  have before : left.placeOrder right = .lt := by
    rw [placeOrder_eq_lt, container]
    exact Or.inr ⟨rfl, Or.inr ⟨rfl, lower⟩⟩
  cases kind with
  | humongous => exact absurd rfl fixed
  | _ => exact before

end Chunk

/-- Every chunk of a list is before all later ones. -/
def Ascending (order : Chunk → Chunk → Ordering) (chunks : List Chunk) : Prop :=
  chunks.Pairwise fun left right => order left right = .lt

/-- A chunk whose key is new is put into an ordered list and nothing is replaced. -/
theorem insertOrdered_perm (fresh : ∀ other ∈ chunks, order chunk other ≠ .eq) :
    (insertOrdered order chunk chunks).Perm (chunk :: chunks) := by
  induction chunks with
  | nil => exact List.Perm.refl _
  | cons head rest ih =>
    unfold insertOrdered
    cases compared : order chunk head with
    | lt => exact List.Perm.refl _
    | eq => exact absurd compared (fresh head List.mem_cons_self)
    | gt =>
      have later := ih fun other member => fresh other (List.mem_cons_of_mem head member)
      exact (later.cons head).trans (List.Perm.swap chunk head rest)

/-- A chunk goes before all chunks of a list that come after it. -/
theorem insertOrdered_first (before : ∀ other ∈ chunks, order chunk other = .lt) :
    insertOrdered order chunk chunks = chunk :: chunks := by
  cases chunks with
  | nil => rfl
  | cons head rest =>
    unfold insertOrdered
    rw [before head List.mem_cons_self]

/-- What a list holds after a chunk is put into it was there before, or is the chunk. -/
theorem mem_insertOrdered (member : other ∈ insertOrdered order chunk chunks) :
    other = chunk ∨ other ∈ chunks := by
  induction chunks with
  | nil => exact Or.inl (List.mem_singleton.mp member)
  | cons head rest ih =>
    unfold insertOrdered at member
    split at member
    · exact List.mem_cons.mp member
    · exact (List.mem_cons.mp member).imp_right (List.mem_cons_of_mem head)
    · rcases List.mem_cons.mp member with isHead | inserted
      · exact Or.inr (isHead ▸ List.mem_cons_self)
      · exact (ih inserted).imp_right (List.mem_cons_of_mem head)

/-- An ascending list stays so where a chunk with a new key is put in. -/
theorem Ascending.insertOrdered (ascending : Ascending (Chunk.freeOrder kind) chunks)
    (fresh : ∀ other ∈ chunks, Chunk.freeOrder kind chunk other ≠ .eq) :
    Ascending (Chunk.freeOrder kind) (insertOrdered (Chunk.freeOrder kind) chunk chunks) := by
  induction chunks with
  | nil => exact List.pairwise_singleton _ _
  | cons head tail ih =>
    obtain ⟨before, later⟩ := List.pairwise_cons.mp ascending
    unfold CollectorMemory.insertOrdered
    cases compared : Chunk.freeOrder kind chunk head with
    | lt =>
      refine List.pairwise_cons.mpr ⟨fun other member => ?_, ascending⟩
      rcases List.mem_cons.mp member with isHead | inTail
      · rw [isHead]
        exact compared
      · exact Chunk.freeOrder_trans compared (before other inTail)
    | eq => exact absurd compared (fresh head List.mem_cons_self)
    | gt =>
      have tailFresh : ∀ other ∈ tail, Chunk.freeOrder kind chunk other ≠ .eq :=
        fun other member => fresh other (List.mem_cons_of_mem head member)
      refine List.pairwise_cons.mpr ⟨fun other member => ?_, ih later tailFresh⟩
      rcases List.mem_cons.mp ((insertOrdered_perm tailFresh).mem_iff.mp member) with
        isChunk | inTail
      · rw [isChunk]
        exact Chunk.freeOrder_eq_gt.mp compared
      · exact before other inTail

/-- The chunk that is taken out passes the test, and the others stay. -/
theorem takeFirst?_eq_some (found : takeFirst? test chunks = some (chunk, rest)) :
    test chunk = true ∧ chunks.Perm (chunk :: rest) := by
  induction chunks generalizing rest with
  | nil => cases found
  | cons head tail ih =>
    unfold takeFirst? at found
    split at found
    · next passes =>
      cases found
      exact ⟨passes, List.Perm.refl _⟩
    · obtain ⟨⟨other, others⟩, later, same⟩ := Option.map_eq_some_iff.mp found
      cases same
      obtain ⟨passes, perm⟩ := ih later
      exact ⟨passes, (perm.cons head).trans (List.Perm.swap chunk head others)⟩

/-- A chunk is taken out if one passes the test. -/
theorem exists_takeFirst? (member : chunk ∈ chunks) (passes : test chunk = true) :
    ∃ found rest, takeFirst? test chunks = some (found, rest) := by
  induction chunks with
  | nil => exact absurd member List.not_mem_nil
  | cons head tail ih =>
    unfold takeFirst?
    by_cases headPasses : test head = true
    · exact ⟨head, tail, if_pos headPasses⟩
    · have inTail : chunk ∈ tail := by
        rcases List.mem_cons.mp member with isHead | inTail
        · rw [isHead] at passes
          exact absurd passes headPasses
        · exact inTail
      obtain ⟨found, rest, later⟩ := ih inTail
      rw [if_neg headPasses, later]
      exact ⟨found, head :: rest, rfl⟩

/-- No chunk is taken out if none passes the test. -/
theorem takeFirst?_eq_none (fails : ∀ chunk ∈ chunks, test chunk = false) :
    takeFirst? test chunks = none := by
  induction chunks with
  | nil => rfl
  | cons head tail ih =>
    obtain ⟨headFails, tailFails⟩ := List.forall_mem_cons.mp fails
    unfold takeFirst?
    rw [headFails, if_neg Bool.false_ne_true, ih tailFails]
    rfl

/-- What is left of a list after a chunk was taken out is a part of it, in the same order. -/
theorem takeFirst?_sublist (found : takeFirst? test chunks = some (chunk, rest)) :
    rest.Sublist chunks := by
  induction chunks generalizing rest with
  | nil => cases found
  | cons head tail ih =>
    unfold takeFirst? at found
    split at found
    · cases found
      exact List.sublist_cons_self _ _
    · obtain ⟨⟨_, others⟩, later, same⟩ := Option.map_eq_some_iff.mp found
      cases same
      exact (ih later).cons_cons head

/-- The first chunk of an ascending list that passes a test is before all others that do. -/
theorem Ascending.takeFirst?_least (ascending : Ascending order chunks)
    (found : takeFirst? test chunks = some (chunk, rest)) (member : other ∈ chunks)
    (passes : test other = true) : other = chunk ∨ order chunk other = .lt := by
  induction chunks generalizing rest with
  | nil => cases found
  | cons head tail ih =>
    obtain ⟨before, later⟩ := List.pairwise_cons.mp ascending
    unfold takeFirst? at found
    split at found
    · cases found
      exact (List.mem_cons.mp member).imp_right (before other)
    · next fails =>
      obtain ⟨⟨_, others⟩, inTail, same⟩ := Option.map_eq_some_iff.mp found
      cases same
      rcases List.mem_cons.mp member with isHead | otherInTail
      · rw [isHead] at passes
        exact absurd passes fails
      · exact ih later inTail otherInTail

end CollectorMemory
