import CollectorMemory.Proofs.Candidates.Population
import CollectorMemory.Proofs.Candidates.Sorting

/-!
# Rebuilding the candidates

Rebuilding leaves exactly the regions that are selected, in the order of the bytes that they would
free, whatever the chooser held before and whichever worker took the next step at any time
(`Rebuilt`). One thread that appends the candidates and sorts them leaves the same regions and the
same bytes in the same order (`Chooser.buildSerially`).
-/

namespace CollectorMemory

variable {excuse : Prop} {chooser base : Chooser} {region : Region} {workers regions chunkSize : Nat}

namespace Chooser

/-- The number of slots that a worker claims at a time: an equal share of the regions. -/
def share (workers regions : Nat) : Nat := max (regions / workers) 1

/-- A number of workers and regions for which all numbers are counts. -/
structure Rebuildable (chooser : Chooser) (workers regions : Nat) : Prop where
  /-- Each region knows its index. -/
  indexed : chooser.Indexed
  /-- There are as many regions. -/
  regions_le : regions ≤ chooser.heap.size
  /-- There is a worker. -/
  positive : 0 < workers
  /-- Four times the number of workers is a count. -/
  quadruple : workers * 4 < wordLimit
  /-- The offsets of workers are found by counts. -/
  offsets : regions * workers < wordLimit
  /-- None of the regions has the mark of an empty slot for an index. -/
  unmarked : regions ≤ Slot.emptyMark
  /-- The number of slots is a count. -/
  slots : Count.nextMultiple regions (share workers regions) + workers * share workers regions <
    wordLimit
  /-- The bytes of all candidates are a count. -/
  bytes : chooser.bytesOf (chooser.selection regions) < wordLimit

/-- What a rebuilt chooser holds: the regions that are selected, each of them once. -/
structure Rebuilt (chooser : Chooser) (regions : Nat) (after : Chooser) : Prop where
  /-- The heap and the threshold stay. -/
  alike : chooser.Alike after
  /-- No candidate was taken. -/
  front : after.front = 0
  /-- There are as many candidates as slots. -/
  length : after.length = after.capacity
  /-- There are as many slots as regions that are selected. -/
  capacity : after.capacity = (chooser.selection regions).length
  /-- The slots hold the regions that are selected, and no region has more bytes to free than one
  before it. -/
  slots : ∃ order, after.slots.toList = order.map some ∧ order.Perm (chooser.selection regions) ∧
    chooser.Ordered order
  /-- None of them has the mark of an empty slot for an index. -/
  unmarked : Slot.emptyMark ∉ chooser.selection regions
  /-- The bytes of all of them remain. -/
  remaining : after.remainingBytes = chooser.bytesOf (chooser.selection regions)

/-- A share is at least what each worker gets if it claims four times. -/
theorem workChunkSize_ensures (positive : ¬excuse → 0 < workers)
    (quadruple : ¬excuse → workers * 4 < wordLimit) :
    Ensures excuse (workChunkSize workers regions) fun result =>
      0 < workers ∧ result = share workers regions := by
  unfold workChunkSize
  apply Ensures.bind (ensures_require fun hard => decide_eq_true (positive hard))
  intro _ checked
  have isPositive : 0 < workers := of_decide_eq_true checked
  have quarterLe : regions / (workers * 4) ≤ regions / workers :=
    Nat.div_le_div_left (Nat.le_mul_of_pos_right workers (by decide)) isPositive
  apply Ensures.bind (Count.mul_ensures quadruple)
  rintro _ ⟨rfl, _⟩
  refine ⟨isPositive, ?_⟩
  change max _ (max (regions / workers) 1) = max (regions / workers) 1
  omega

/-- The chooser is emptied and gets slots for all workers. -/
theorem makeRoom_ensures (indexed : chooser.Indexed)
    (short : chooser.bytesOf (chooser.selection regions) < wordLimit)
    (fits : ¬excuse → chooser.Rebuildable workers regions) :
    Ensures excuse (chooser.makeRoom workers regions) fun (base, chunkSize) => 0 < workers ∧
      base.Ready workers regions chunkSize ∧ chooser.Alike base ∧ base.front = 0 ∧ base.length = 0 ∧
        base.cursor = 0 ∧ base.remainingBytes = 0 ∧ ∀ slot ∈ base.slots.toList, slot = none := by
  have runs : 0 < share workers regions := Nat.lt_of_lt_of_le Nat.one_pos (Nat.le_max_right _ _)
  have bounds := Count.nextMultiple_bounds regions runs
  unfold makeRoom
  apply Ensures.bind (ensures_require fun hard => decide_eq_true (fits hard).regions_le)
  intro _ checked
  apply Ensures.bind (workChunkSize_ensures (fun hard => (fits hard).positive)
    fun hard => (fits hard).quadruple)
  rintro _ ⟨positive, rfl⟩
  apply Ensures.bind (prepare_ensures runs fun hard => (fits hard).slots)
  rintro _ ⟨slots, rfl⟩
  refine ⟨positive, ⟨indexed, of_decide_eq_true checked, runs, ?_, ?_, short⟩, ⟨rfl, rfl, rfl⟩, rfl,
    rfl, rfl, rfl, ?_⟩
  · rw [Array.size_replicate]
    omega
  · rw [Array.size_replicate]
    exact slots
  · intro slot member
    rw [Array.toList_replicate] at member
    exact List.eq_of_mem_replicate member

/-- The regions that are selected are candidates. -/
theorem candidates_selection : chooser.Candidates (chooser.selection regions) :=
  fun _ member => exists_of_selects (mem_selection.mp member).2

/-- The mark of an empty slot is not selected among the indices below it. -/
theorem unmarked_selection (few : regions ≤ Slot.emptyMark) :
    Slot.emptyMark ∉ chooser.selection regions := fun marked =>
  Nat.not_lt.mpr few (mem_selection.mp marked).1

/-- What holds the regions that are selected is rebuilt once it is sorted, where none of them has the
mark of an empty slot for an index. -/
theorem sort_rebuilt_of_unmarked (alike : chooser.Alike base) (front : base.front = 0)
    (trimmed : 0 < base.cursor → base.cursor ≤ base.slots.size ∧
      ∀ slot ∈ base.slots.toList.drop base.cursor, slot = none)
    (selected : base.filled.Perm (chooser.selection regions))
    (length : base.length = (chooser.selection regions).length)
    (bytes : base.remainingBytes = chooser.bytesOf (chooser.selection regions))
    (short : chooser.bytesOf (chooser.selection regions) < wordLimit)
    (unmarked : Slot.emptyMark ∉ chooser.selection regions) :
    Ensures excuse base.sort.outcome (Rebuilt chooser regions) := by
  have known : base.Candidates base.filled := by
    intro index member
    obtain ⟨region, found, should⟩ := candidates_selection index (selected.mem_iff.mp member)
    refine ⟨region, ?_, ?_⟩
    · rw [alike.heap]
      exact found
    · rw [alike.shouldAdd]
      exact should
  have allFilled : base.length = base.filled.length := length.trans selected.length_eq.symm
  have total : base.remainingBytes = base.bytesOf base.filled := by
    rw [bytes, alike.bytesOf]
    exact (bytesOf_perm selected).symm
  apply (sort_ensures known front trimmed allFilled total (by rw [bytes]; exact short)).mono
  rintro _ ⟨order, rfl, perm, ordered, _⟩
  have capacity :
      ({ base with slots := (order.map some).toArray } : Chooser).capacity = order.length := by
    change (order.map some).length = order.length
    exact List.length_map _
  refine ⟨alike.trans ⟨rfl, rfl, rfl⟩, front, ?_, ?_, ⟨order, rfl, perm.trans selected, ?_⟩, unmarked,
    bytes⟩
  · rw [capacity, perm.length_eq]
    exact allFilled
  · rw [capacity]
    exact (perm.trans selected).length_eq
  · unfold Ordered at ordered ⊢
    rw [alike.bytesAt] at ordered
    exact ordered

/-- What holds all that slots keep of the regions that are selected is rebuilt once it is sorted.
Sorting does not return where the mark of an empty slot is among their indices. -/
theorem sort_rebuilt (alike : chooser.Alike base) (front : base.front = 0)
    (trimmed : 0 < base.cursor → base.cursor ≤ base.slots.size ∧
      ∀ slot ∈ base.slots.toList.drop base.cursor, slot = none)
    (held : base.filled.Perm (Slot.kept (chooser.selection regions)))
    (length : base.length = (chooser.selection regions).length)
    (bytes : base.remainingBytes = chooser.bytesOf (chooser.selection regions))
    (short : chooser.bytesOf (chooser.selection regions) < wordLimit)
    (few : ¬excuse → regions ≤ Slot.emptyMark) :
    Ensures excuse base.sort.outcome (Rebuilt chooser regions) := by
  by_cases unmarked : Slot.emptyMark ∉ chooser.selection regions
  · rw [Slot.kept_of_unmarked unmarked] at held
    exact sort_rebuilt_of_unmarked alike front trimmed held length bytes short unmarked
  · have excused : excuse := Classical.byContradiction fun hard =>
      unmarked (unmarked_selection (few hard))
    apply Ensures.of_excuse excused
    apply length_le_of_sort.mono
    intro _ enough
    rw [length, held.length_eq] at enough
    exact absurd (Slot.unmarked_of_length_le enough) unmarked

/-- The chooser with candidates that one thread appended. -/
def holding (chooser : Chooser) (indices : List Nat) : Chooser :=
  { chooser.clear with
    slots := (indices.map some).toArray
    length := indices.length
    remainingBytes := chooser.bytesOf indices }

/-- A candidate is appended. -/
theorem add_ensures {indices : List Nat} (should : chooser.shouldAdd region = true)
    (found : chooser.heap[region.index]? = some region)
    (unmarked : region.index ≠ Slot.emptyMark)
    (short : chooser.bytesOf (indices ++ [region.index]) < wordLimit) :
    Ensures excuse ((chooser.holding indices).add region) fun after =>
      after = chooser.holding (indices ++ [region.index]) := by
  obtain ⟨old, _, notPinned, complete⟩ := of_shouldAdd should
  have full : (chooser.holding indices).length = (chooser.holding indices).slots.size :=
    (List.length_map some).symm
  have total : chooser.bytesOf (indices ++ [region.index]) =
      (chooser.holding indices).remainingBytes + region.reclaimableBytes := by
    rw [bytesOf_append, bytesOf_cons, bytesAt_of_found found]
    rfl
  unfold add
  apply Ensures.bind (ensures_require fun _ => by rw [notPinned]; rfl)
  intro _ _
  apply Ensures.bind (ensures_require fun _ => old)
  intro _ _
  apply Ensures.bind (ensures_require fun _ => complete)
  intro _ _
  apply Ensures.bind (ensures_require fun _ => beq_iff_eq.mpr full)
  intro _ _
  apply Ensures.bind (Count.add_ensures fun _ => by rw [← total]; exact short)
  rintro _ ⟨rfl, _⟩
  rw [Slot.ofIndex_of_ne unmarked]
  change _ = _
  unfold holding
  rw [total, List.map_append, List.length_append]
  simp only [List.map_cons, List.map_nil, ← List.push_toArray]
  rfl

/-- Two choosers that are rebuilt hold the same regions, and the same bytes in the same order. -/
theorem Rebuilt.agree {first second : Chooser} (rebuilt : Rebuilt chooser regions first)
    (other : Rebuilt chooser regions second) :
    first.slots.toList.Perm second.slots.toList ∧
      first.filled.map chooser.bytesAt = second.filled.map chooser.bytesAt ∧
      first.remainingBytes = second.remainingBytes := by
  obtain ⟨order, slots, perm, ordered⟩ := rebuilt.slots
  obtain ⟨otherOrder, otherSlots, otherPerm, otherOrdered⟩ := other.slots
  have same := perm.trans otherPerm.symm
  refine ⟨?_, ?_, rebuilt.remaining.trans other.remaining.symm⟩
  · rw [slots, otherSlots]
    exact same.map some
  · rw [filled_of_slots slots, filled_of_slots otherSlots]
    exact (same.map chooser.bytesAt).eq_of_pairwise
      (fun left right _ _ le ge => Nat.le_antisymm ge le)
      (List.pairwise_map.mpr ordered) (List.pairwise_map.mpr otherOrdered)

end Chooser

/-- When all workers are finished, what they collected is rebuilt once it is sorted. -/
theorem Collecting.sort_rebuilt {claimer : Claimer} {team : List Worker} {collected : Chooser}
    {placed : List Nat}
    (collecting : Collecting base regions chunkSize collected claimer team placed)
    (alike : chooser.Alike base) (front : base.front = 0)
    (short : chooser.bytesOf (chooser.selection regions) < wordLimit)
    (few : ¬excuse → regions ≤ Slot.emptyMark)
    (nonempty : team ≠ []) (finished : ∀ worker ∈ team, worker.stage = .finished) :
    Ensures excuse collected.sort.outcome (chooser.Rebuilt regions) := by
  obtain ⟨held, length, bytes⟩ := collecting.finished nonempty finished
  rw [alike.selection] at held length bytes
  rw [alike.bytesOf] at bytes
  refine Chooser.sort_rebuilt (alike.trans collecting.alike) (collecting.front.trans front)
    (fun _ => ⟨collecting.filling.cursor, fun slot member => ?_⟩) held length bytes short few
  obtain ⟨position, content⟩ := List.mem_iff_getElem?.mp member
  rw [List.getElem?_drop, Array.getElem?_toList] at content
  obtain ⟨inside, _⟩ := Array.getElem?_eq_some_iff.mp content
  rw [collecting.filling.unclaimed _ (Nat.le_add_right _ _) inside] at content
  exact (Option.some.inj content).symm

namespace Chooser

variable {population after : Population} {schedule : List Nat}

/-- What is collected under a schedule is sorted. -/
theorem collectUnder_ensures
    (started : Population.start base workers regions chunkSize = .ok population)
    (done : population.run schedule = .ok after)
    (sorts : Ensures excuse after.chooser.sort.outcome (chooser.Rebuilt regions)) :
    Ensures excuse (base.collectUnder schedule workers regions chunkSize).outcome
      (chooser.Rebuilt regions) := by
  have collected : (do (← Population.start base workers regions chunkSize).run schedule) =
      Except.ok after := by
    rw [started]
    exact done
  unfold collectUnder
  rw [collected]
  apply Ensures.bindRun sorts
  intro sorted rebuilt
  have remaining : sorted.remaining = .ok (sorted.length - sorted.front) := by
    unfold remaining
    rw [rebuilt.front, decide_eq_true (Nat.zero_le sorted.length)]
    rfl
  apply Ensures.bindRun (ensures_eq remaining)
  intro _ _
  exact ensures_note rebuilt

/-- What is needed is made, and under every schedule all steps are taken. Schedules with enough
steps of each worker finish all of them, and where all are finished the candidates are rebuilt. -/
theorem exists_started (request : chooser.Rebuildable workers regions) :
    ∃ base chunkSize population, chooser.makeRoom workers regions = .ok (base, chunkSize) ∧
      Population.start base workers regions chunkSize = .ok population ∧
      ∀ schedule, ∃ after, population.run schedule = .ok after ∧
        ((∀ worker < workers, 3 * regions + 2 ≤ schedule.count worker) → after.IsFinished) ∧
        (after.IsFinished → Ensures False (chooser.rebuildUnder schedule workers regions).outcome
          (chooser.Rebuilt regions)) := by
  obtain ⟨⟨base, chunkSize⟩, made, positive, ready, alike, front, length, cursor, bytes, empty⟩ :=
    (makeRoom_ensures request.indexed request.bytes fun _ => request).exists_ok
  obtain ⟨population, started, collects, size, stepsLeft⟩ :=
    (Population.start_ensures empty cursor length bytes positive fun _ => request.offsets).exists_ok
  refine ⟨base, chunkSize, population, made, started, fun schedule => ?_⟩
  obtain ⟨after, done, ⟨_, collecting⟩, advances⟩ :=
    (Population.run_ensures collects (by rw [size]; exact ready)).exists_ok
  have sizeAfter : after.workers.size = population.workers.size := advances.1
  refine ⟨after, done, fun enough worker member => ?_, fun finished => ?_⟩
  · have inTime : ∀ index worker, population.workers.toList[index]? = some worker →
        worker.stepsLeft regions ≤ schedule.count index := by
      intro index worker isWorker
      obtain ⟨inside, _⟩ := List.getElem?_eq_some_iff.mp isWorker
      rw [stepsLeft worker (List.mem_of_getElem? isWorker)]
      exact enough index (by rw [← size]; exact inside)
    apply (collecting.sound worker (Array.mem_def.mp member)).finished
    rw [collecting.claims]
    exact advances.exhausted inTime worker (Array.mem_def.mp member)
  · have nonempty : after.workers.toList ≠ [] := by
      intro nothing
      have isEmpty : after.workers.size = 0 := congrArg List.length nothing
      rw [sizeAfter, size] at isEmpty
      exact Nat.ne_of_gt positive isEmpty
    unfold rebuildUnder
    apply Ensures.bindRun (ensures_eq made)
    rintro _ rfl
    exact collectUnder_ensures started done (collecting.sort_rebuilt alike front request.bytes
      (fun _ => request.unmarked) nonempty fun worker member =>
        finished worker (Array.mem_def.mpr member))

/-- Rebuilding under a schedule with enough steps of each worker leaves the regions that are
selected. -/
theorem exists_rebuilt (request : chooser.Rebuildable workers regions)
    (enough : ∀ worker < workers, 3 * regions + 2 ≤ schedule.count worker) :
    ∃ rebuilt, (chooser.rebuildUnder schedule workers regions).outcome = .ok rebuilt ∧
      chooser.Rebuilt regions rebuilt := by
  obtain ⟨_, _, _, _, _, under⟩ := exists_started request
  obtain ⟨_, _, finishes, rebuilds⟩ := under schedule
  exact (rebuilds (finishes enough)).exists_ok

/-- Rebuilding, where one worker finishes after the other, leaves the regions that are selected. -/
theorem rebuild_ensures (request : chooser.Rebuildable workers regions) :
    Ensures False (chooser.rebuild workers regions).outcome (chooser.Rebuilt regions) := by
  rw [rebuild_eq_rebuildUnder]
  suffices enough : ∀ worker < workers,
      3 * regions + 2 ≤ (Population.inTurn workers regions).count worker by
    obtain ⟨rebuilt, isOutcome, isRebuilt⟩ := exists_rebuilt request enough
    exact ensures_of_eq_ok isOutcome isRebuilt
  intro worker inside
  have part : (List.replicate (3 * regions + 2) worker).Sublist (Population.inTurn workers regions) :=
    List.sublist_flatten_of_mem (List.mem_map.mpr ⟨worker, List.mem_range.mpr inside, rfl⟩)
  have count := part.count_le worker
  rw [List.count_replicate_self] at count
  exact count

/-- A schedule finishes all workers that collect the candidates among the first regions. -/
def Finishes (chooser : Chooser) (schedule : List Nat) (workers regions : Nat) : Prop :=
  ∀ base chunkSize population after, chooser.makeRoom workers regions = .ok (base, chunkSize) →
    Population.start base workers regions chunkSize = .ok population →
    population.run schedule = .ok after → after.IsFinished

/-- A schedule with enough steps of each worker finishes all of them. -/
theorem finishes_of_count (request : chooser.Rebuildable workers regions)
    (enough : ∀ worker < workers, 3 * regions + 2 ≤ schedule.count worker) :
    chooser.Finishes schedule workers regions := by
  obtain ⟨base, chunkSize, population, made, started, under⟩ := exists_started request
  obtain ⟨after, done, finishes, _⟩ := under schedule
  intro base' chunkSize' population' after' made' started' done'
  simp only [made, Except.ok.injEq, Prod.mk.injEq] at made'
  simp only [← made', started, Except.ok.injEq] at started'
  simp only [← started', done, Except.ok.injEq] at done'
  rw [← done']
  exact finishes enough

/-- Workers that stop with a fault stop the whole. -/
theorem collectUnder_ensures_of_fault {fault : Fault} {post : Chooser → Prop}
    (stopped : (do (← Population.start base workers regions chunkSize).run schedule) =
      Except.error fault) :
    Ensures True (base.collectUnder schedule workers regions chunkSize).outcome post := by
  unfold collectUnder
  rw [stopped]
  trivial

/-- Rebuilding that returns leaves the regions that are selected, whatever numbers it is asked for. -/
theorem Finishes.rebuildUnder_ensures (finishes : chooser.Finishes schedule workers regions)
    (indexed : chooser.Indexed)
    (short : chooser.bytesOf (chooser.selection regions) < wordLimit) :
    Ensures True (chooser.rebuildUnder schedule workers regions).outcome
      (chooser.Rebuilt regions) := by
  cases made : chooser.makeRoom workers regions with
  | error fault =>
    unfold rebuildUnder
    rw [made]
    trivial
  | ok room =>
    obtain ⟨base, chunkSize⟩ := room
    obtain ⟨positive, ready, alike, front, length, cursor, bytes, empty⟩ :=
      (makeRoom_ensures indexed short fun hard => absurd trivial hard).of_ok made
    unfold rebuildUnder
    apply Ensures.bindRun (ensures_eq made)
    rintro _ rfl
    change Ensures True (base.collectUnder schedule workers regions chunkSize).outcome _
    cases started : Population.start base workers regions chunkSize with
    | error fault => exact collectUnder_ensures_of_fault (by rw [started]; rfl)
    | ok population =>
      obtain ⟨collects, size, _⟩ := (Population.start_ensures empty cursor length bytes positive
        fun hard => absurd trivial hard).of_ok started
      cases done : population.run schedule with
      | error fault => exact collectUnder_ensures_of_fault (by rw [started]; exact done)
      | ok after =>
        obtain ⟨⟨_, collecting⟩, advances⟩ := (Population.run_ensures collects (by
          rw [size]
          exact ready) : Ensures True _ _).of_ok done
        have sizeAfter : after.workers.size = population.workers.size := advances.1
        have nonempty : after.workers.toList ≠ [] := by
          intro nothing
          have isEmpty : after.workers.size = 0 := congrArg List.length nothing
          omega
        exact collectUnder_ensures started done (collecting.sort_rebuilt alike front short
          (fun hard => absurd trivial hard) nonempty fun worker member =>
            finishes _ _ _ _ made started done worker (Array.mem_def.mpr member))

/-- A chooser of a heap with two regions to select, that holds what is left of earlier candidates.
-/
def sample : Chooser where
  heap := #[Region.old 0 10 90, { Region.old 1 20 80 with isAllocating := true }, Region.old 2 40 95]
  slots := #[none, some 1, none]
  front := 1
  length := 2
  cursor := 3
  threshold := 85
  remainingBytes := 80
  audited := true

end Chooser

end CollectorMemory
