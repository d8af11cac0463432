import CollectorMemory.Candidates.Population
import CollectorMemory.Proofs.Candidates.Sorting

/-!
# Sorting once and sorting again

Where all filled slots hold candidates that are counted, sorting returns, and its result is the
ranking of what was found in the slots (`Chooser.Loaded.sort_ranked`), whichever slots workers left
empty. Sorting trims the slots to the candidates but leaves the cursor of the workers where it is.
What sorting left can therefore be sorted again only where the cursor is not behind the candidates,
which then stay as they are (`Chooser.JustSorted.sort_again`).
-/

namespace CollectorMemory.Chooser

variable {excuse : Prop} {chooser sorted : Chooser} {order : List Nat}

/-- The chooser with indices in an order and no other slots. -/
def arranged (chooser : Chooser) (order : List Nat) : Chooser :=
  { chooser with slots := (order.map some).toArray }

/-- A chooser from which no candidate was taken, with all filled slots among those that sorting
considers. -/
structure Loaded (chooser : Chooser) : Prop where
  /-- No candidate was taken. -/
  front : chooser.front = 0
  /-- The filled slots hold candidates. -/
  candidates : chooser.Candidates chooser.filled
  /-- The filled slots are counted. -/
  length : chooser.length = chooser.filled.length
  /-- The bytes of what the slots hold are counted. -/
  bytes : chooser.remainingBytes = chooser.bytesOf chooser.filled
  /-- The bytes are a count. -/
  short : chooser.remainingBytes < wordLimit
  /-- Where workers claimed slots, these are there, and no others are filled. -/
  claimed : chooser.cursor = 0 ∨ chooser.cursor ≤ chooser.capacity ∧
    ∀ position index, chooser.slots[position]? = some (some index) → position < chooser.cursor

/-- The slots from the cursor on are empty where workers claimed slots. -/
theorem Loaded.trimmed (loaded : chooser.Loaded) (some_ : 0 < chooser.cursor) :
    chooser.cursor ≤ chooser.slots.size ∧
      ∀ slot ∈ chooser.slots.toList.drop chooser.cursor, slot = none := by
  obtain ⟨within, below⟩ := loaded.claimed.resolve_left (Nat.ne_of_gt some_)
  refine ⟨within, fun slot member => ?_⟩
  obtain ⟨offset, content⟩ := List.mem_iff_getElem?.mp member
  rw [List.getElem?_drop, Array.getElem?_toList] at content
  cases slot with
  | none => rfl
  | some index => exact absurd (below _ index content) (Nat.not_lt.mpr (Nat.le_add_right _ _))

/-- Sorting returns where all filled slots hold candidates that are counted. Afterwards there is a
slot for each candidate and no other. The slots hold the same indices as before, with more bytes to
free first and those with equally many in the order of their slots. Nothing else changes, and the
check of the candidates passes. -/
theorem Loaded.sort_ranked (loaded : chooser.Loaded) : ∃ order,
    chooser.sort.outcome = .ok (chooser.arranged order) ∧ chooser.Ranking chooser.filled order ∧
      (chooser.arranged order).capacity = chooser.length ∧
      (chooser.arranged order).audit = .ok () := by
  obtain ⟨_, done, order, rfl, ranking⟩ := (sort_ensures loaded.candidates loaded.front
    loaded.trimmed loaded.length loaded.bytes loaded.short).exists_ok
  have length : chooser.length = order.length := loaded.length.trans ranking.perm.length_eq.symm
  have queues : (chooser.arranged order).Queues (order.map some) :=
    ⟨by simp [arranged, loaded.front], by simp [arranged, loaded.front, length]⟩
  obtain ⟨_, passes, _⟩ := (queues.audit_ensures
    (fun index member => loaded.candidates index (ranking.perm.mem_iff.mp member)) ranking.ordered
    (loaded.bytes.trans (bytesOf_perm ranking.perm).symm) loaded.short).exists_ok
  exact ⟨order, done, ranking, queues.capacity_eq, passes⟩

/-- Four candidates in slots with gaps between them, behind which one slot was not claimed. -/
def gappy : Chooser where
  heap := #[Region.old 0 0 300, Region.old 1 0 700, Region.old 2 0 300, Region.old 3 0 700]
  slots := #[some 0, none, some 1, some 2, none, some 3, none, none]
  front := 0
  length := 4
  cursor := 7
  threshold := 850
  remainingBytes := 2000
  audited := false

/-- Sorting ranks the four candidates. -/
theorem gappy_ranked : ∃ order, gappy.sort.outcome = .ok (gappy.arranged order) ∧
    gappy.Ranking [0, 1, 2, 3] order ∧ (gappy.arranged order).capacity = 4 ∧
    (gappy.arranged order).audit = .ok () := by
  refine Loaded.sort_ranked ⟨rfl, ?_, rfl, by decide, by decide, Or.inr ⟨by decide, ?_⟩⟩
  · intro index member
    change index ∈ [0, 1, 2, 3] at member
    match index, member with
    | 0, _ | 1, _ | 2, _ | 3, _ => exact ⟨_, rfl, rfl⟩
  · intro position index content
    obtain ⟨inside, isFilled⟩ := Array.getElem?_eq_some_iff.mp content
    change position < 8 at inside
    change position < 7
    suffices notLast : position ≠ 7 by omega
    rintro rfl
    cases isFilled

example : gappy.sort.outcome = .ok (gappy.arranged [1, 3, 0, 2]) := by cbv

/-- What sorting that returns leaves: all slots are filled and in order, and what is done after
sorting them stops with no fault. -/
structure Trimmed (chooser : Chooser) : Prop where
  /-- There are as many slots as candidates. -/
  capacity : chooser.capacity = chooser.length
  /-- All slots are filled. -/
  filled : chooser.slots.toList.all Option.isSome = true
  /-- The slots are in order. -/
  ordered : chooser.slots.toList.Pairwise fun left right =>
    mayPrecede (chooser.regionOf left) (chooser.regionOf right) = true
  /-- The liveness of the candidates is reported. -/
  reported : (chooser.reportLiveness "Post-Sorting").outcome = .ok ()
  /-- The check passes, if it is asked for. -/
  passes : checkIf chooser.audited chooser.audit = .ok ()
  /-- Where workers claimed slots, all candidates were in these. -/
  claimed : 0 < chooser.cursor → chooser.length ≤ chooser.cursor

/-- Slots that workers did not claim are left out of what is sorted. -/
theorem length_claimedSlots : Ensures True chooser.claimedSlots fun slots =>
    0 < chooser.cursor → slots.length ≤ chooser.cursor := by
  unfold claimedSlots
  split
  · apply Ensures.bind (ensures_excused _)
    intro _ _ _
    exact List.length_take_le _ _
  · next nobody => exact fun some_ => absurd some_ nobody

/-- Sorting that returns leaves slots that are trimmed to the candidates. -/
theorem sort_trimmed : Ensures True chooser.sort.outcome Trimmed := by
  apply sort_sortsTo.mono
  rintro _ ⟨slots, claimed, enough, filled, rfl, reported, passes⟩
  have few := length_claimedSlots.of_ok claimed
  have length : (chooser.sortedSlots slots).length = slots.length := List.length_mergeSort _
  have inOrder : (chooser.sortedSlots slots).Pairwise fun left right =>
      mayPrecede (chooser.regionOf left) (chooser.regionOf right) = true :=
    @List.pairwise_mergeSort _ (fun left right =>
      mayPrecede (chooser.regionOf left) (chooser.regionOf right))
      (fun _ _ _ => mayPrecede_trans) (fun _ _ => mayPrecede_total _ _) slots
  refine ⟨List.length_take_of_le enough, filled, inOrder.sublist (List.take_sublist _ _), reported,
    passes, fun some_ => ?_⟩
  rw [length] at enough
  exact Nat.le_trans enough (few some_)

/-- Rebuilding that returns leaves slots that are trimmed to the candidates. -/
theorem rebuildUnder_trimmed {schedule : List Nat} {workers regions : Nat} :
    Ensures True (chooser.rebuildUnder schedule workers regions).outcome Trimmed := by
  unfold rebuildUnder
  apply Ensures.bindRun (ensures_excused _)
  rintro ⟨base, chunkSize⟩ _
  change Ensures True (base.collectUnder schedule workers regions chunkSize).outcome Trimmed
  unfold collectUnder
  dsimp only
  split
  · trivial
  · apply Ensures.bindRun sort_trimmed
    intro sorted trimmed
    apply Ensures.bindRun (ensures_excused _)
    intro _ _
    exact ensures_note trimmed

/-- The last thing that was done with a chooser is that it was sorted. -/
inductive JustSorted : Chooser → Prop
  /-- It was sorted in any state. -/
  | sorted {before after : Chooser} : before.sort.outcome = .ok after → JustSorted after
  /-- It was rebuilt in any state, which ends with sorting. -/
  | rebuilt {before after : Chooser} {schedule : List Nat} {workers regions : Nat} :
    (before.rebuildUnder schedule workers regions).outcome = .ok after → JustSorted after

/-- What was just sorted is trimmed to the candidates. -/
theorem JustSorted.trimmed (just : sorted.JustSorted) : sorted.Trimmed := by
  cases just with
  | sorted done => exact sort_trimmed.of_ok done
  | rebuilt done => exact rebuildUnder_trimmed.of_ok done

namespace Trimmed

variable (trimmed : sorted.Trimmed)

include trimmed

/-- All slots are considered again where the cursor is not behind the candidates. -/
theorem claimedSlots_eq (within : sorted.cursor ≤ sorted.length) :
    sorted.claimedSlots = .ok sorted.slots.toList := by
  unfold claimedSlots
  split
  · next some_ =>
    have same : sorted.cursor = sorted.slots.size :=
      (Nat.le_antisymm within (trimmed.claimed some_)).trans trimmed.capacity.symm
    rw [same, List.take_of_length_le (Nat.le_of_eq Array.length_toList)]
    simp [require]
  · rfl

/-- The slots are in order already. -/
theorem sortedSlots_eq : sorted.sortedSlots sorted.slots.toList = sorted.slots.toList :=
  List.mergeSort_of_pairwise trimmed.ordered

/-- What is trimmed to the candidates stays as it is. -/
theorem sort_of_le (within : sorted.cursor ≤ sorted.length) : sorted.sort.outcome = .ok sorted := by
  have all : sorted.slots.toList.length = sorted.length := trimmed.capacity
  have kept : sorted.slots.toList.take sorted.length = sorted.slots.toList :=
    List.take_of_length_le (Nat.le_of_eq all)
  have stays : { sorted with slots := (sorted.slots.toList.take sorted.length).toArray } = sorted := by
    rw [kept]
  have sorts := sort_of_row (trimmed.claimedSlots_eq within) trimmed.sortedSlots_eq
    (Nat.le_of_eq all.symm)
  rw [stays, kept] at sorts
  exact sorts trimmed.filled trimmed.reported trimmed.passes

/-- A cursor behind the candidates is found to be behind the slots. -/
theorem sort_of_lt (behind : sorted.length < sorted.cursor) :
    sorted.sort.outcome = .error (.candidates .cursorPastSlots) := by
  have past : ¬sorted.cursor ≤ sorted.slots.size := by
    have capacity : sorted.slots.size = sorted.length := trimmed.capacity
    omega
  have stops : sorted.claimedSlots = .error (.candidates .cursorPastSlots) := by
    unfold claimedSlots
    rw [if_pos (Nat.zero_lt_of_lt behind)]
    simp [require, past]
  unfold sort
  rw [Run.outcome_bind, Run.outcome_liftM, stops]
  rfl

end Trimmed

/-- Whatever was done with a chooser before it was sorted, on its own or at the end of a rebuild:
sorting it again at once leaves it exactly as it is, unless the workers claimed more slots than there
are candidates. Then sorting again stops with the fault that not enough slots were reserved, since
the slots were trimmed and the cursor was not. -/
theorem JustSorted.sort_again (just : sorted.JustSorted) :
    sorted.sort.outcome = if sorted.cursor ≤ sorted.length then .ok sorted
      else .error (.candidates .cursorPastSlots) := by
  split
  · next within => exact just.trimmed.sort_of_le within
  · next behind => exact just.trimmed.sort_of_lt (Nat.lt_of_not_le behind)

/-- Rebuilding gives what sorting makes of the slots that the workers filled. -/
theorem rebuild_of_collected {chooser prepared filled sorted : Chooser}
    {workers regions chunkSize : Nat}
    (room : chooser.makeRoom workers regions = .ok (prepared, chunkSize))
    (collected : (Population.start prepared workers regions chunkSize >>= fun population =>
      population.run (Population.inTurn workers regions)).map Population.chooser = .ok filled)
    (ranked : filled.sort.outcome = .ok sorted) (inOrder : sorted.front ≤ sorted.length) :
    (chooser.rebuild workers regions).outcome = .ok sorted := by
  have counted : sorted.remaining = .ok (sorted.length - sorted.front) := by
    unfold remaining
    rw [require, if_pos (decide_eq_true inOrder)]
    rfl
  unfold rebuild
  rw [Run.outcome_bind, Run.outcome_liftM, room]
  change (prepared.collectUnder (Population.inTurn workers regions) workers regions
    chunkSize).outcome = .ok sorted
  unfold collectUnder
  cases ran : Population.start prepared workers regions chunkSize >>= fun population =>
      population.run (Population.inTurn workers regions) with
  | error fault =>
    rw [ran] at collected
    cases collected
  | ok population =>
    rw [ran] at collected
    cases collected
    change Run.outcome (population.chooser.sort >>= _) = .ok sorted
    rw [Run.outcome_bind, ranked]
    change Run.outcome (sorted.remaining >>= _) = .ok sorted
    rw [Run.outcome_bind, Run.outcome_liftM, counted]
    rfl

/-- Two regions of which one is pinned, with some candidates and a cursor. -/
def halfPinned (slots : Array (Option Nat)) (cursor bytes : Nat) : Chooser where
  heap := #[Region.old 0 0 10, { Region.old 1 0 20 with isPinned := true }]
  slots
  front := 0
  length := slots.size
  cursor
  threshold := 850
  remainingBytes := bytes
  audited := true

/-- The slots at the end of a rebuild before they are sorted: one candidate and three empty slots. -/
def halfPinnedFilled (cursor : Nat) : Chooser :=
  { halfPinned #[some 0, none, none, none] cursor 10 with length := 1 }

/-- Two workers claim one slot for the one candidate, and sorting again changes nothing. -/
theorem halfPinned_sort_again : ∃ sorted,
    ((halfPinned #[] 0 0).rebuild 2 2).outcome = .ok sorted ∧ sorted.cursor ≤ sorted.length ∧
      sorted.sort.outcome = .ok sorted := by
  have room : (halfPinned #[] 0 0).makeRoom 2 2 =
      .ok ({ halfPinned #[none, none, none, none] 0 0 with length := 0 }, 1) := rfl
  have inOrder : (halfPinnedFilled 1).sortedSlots [some 0] = [some 0] :=
    List.mergeSort_of_pairwise (by decide)
  have rebuilt := rebuild_of_collected room rfl
    (sort_of_row rfl inOrder (by decide) rfl rfl rfl) (by decide)
  have within : (halfPinned #[some 0] 1 10).cursor ≤ (halfPinned #[some 0] 1 10).length := by decide
  exact ⟨_, rebuilt, within, (JustSorted.rebuilt rebuilt).sort_again.trans (if_pos within)⟩

/-- One worker claims slots for both regions at once. The slots of a new chooser that it rebuilt
cannot be sorted again. -/
theorem halfPinned_sort_stops : ∃ sorted,
    Chooser.ofHeap (halfPinned #[] 0 0).heap { Options.default 1 with regionBytes := 1000 } =
      .ok (halfPinned #[] 0 0) ∧
    ((halfPinned #[] 0 0).rebuild 1 2).outcome = .ok sorted ∧
    sorted.sort.outcome = .error (.candidates .cursorPastSlots) := by
  have room : (halfPinned #[] 0 0).makeRoom 1 2 =
      .ok ({ halfPinned #[none, none, none, none] 0 0 with length := 0 }, 2) := rfl
  have inOrder : (halfPinnedFilled 2).sortedSlots [some 0, none] = [some 0, none] :=
    List.mergeSort_of_pairwise (by decide)
  have rebuilt := rebuild_of_collected room rfl
    (sort_of_row rfl inOrder (by decide) rfl rfl rfl) (by decide)
  exact ⟨_, rfl, rebuilt, (JustSorted.rebuilt rebuilt).trimmed.sort_of_lt (by decide)⟩

end CollectorMemory.Chooser
