import CollectorMemory.Proofs.Candidates.Rebuild
import CollectorMemory.Proofs.Candidates.Unshared

/-!
# The accounts of a chooser

Candidates are appended, taken, put back, sorted and collected anew, in any order. What is left of
them was written to the slots from the front on, and the slots before the front are empty
(`Consumption.Keeps`). In a heap that is small enough for its indices to be told from the mark of an
empty slot, the slots from the front on are therefore filled in every state that a chooser reaches,
and the bytes that remain are those of the filled slots (`Chooser.Accounted`). The next candidate is
then always found, and there is none exactly when the front has reached the end.
-/

namespace CollectorMemory

variable {excuse : Prop} {chooser : Chooser} {region : Region} {position index : Nat}
  {order rest : List Nat}

namespace Chooser

/-- The bytes that evacuating what a slot holds would free. -/
def bytesIn (chooser : Chooser) (position : Nat) : Nat :=
  ((chooser.slots[position]?.bind chooser.regionOf).map Region.reclaimableBytes).getD 0

/-- The slots of a chooser and what it counts agree. -/
structure Accounted (chooser : Chooser) : Prop where
  /-- The front is not behind the end. -/
  front_le : chooser.front ≤ chooser.length
  /-- There are no slots after the end. -/
  full : chooser.length = chooser.capacity
  /-- The slots before the front are empty. -/
  before : ∀ position < chooser.front, chooser.slots[position]? = some none
  /-- The slots from the front on hold candidates. -/
  active : ∀ position, chooser.front ≤ position → position < chooser.length →
    ∃ index region, chooser.slots[position]? = some (some index) ∧
      chooser.heap[index]? = some region ∧ chooser.shouldAdd region = true
  /-- The bytes that remain are those of the slots from the front on. -/
  bytes : chooser.remainingBytes =
    ((List.range' chooser.front (chooser.length - chooser.front)).map chooser.bytesIn).sum

/-- Where there are as many slots as candidates, sorting that returns finds all of them filled and
sorts all of them. -/
theorem sort_ensures_of_full (full : chooser.capacity = chooser.length) :
    Ensures True chooser.sort.outcome fun after =>
      (∀ slot ∈ chooser.slots.toList, slot.isSome = true) ∧
        after = { chooser with slots := (chooser.sortedSlots chooser.slots.toList).toArray } := by
  apply sort_sortsTo.mono
  rintro _ ⟨slots, claimed, enough, filled, rfl, _, _⟩
  obtain ⟨count, isTake⟩ := claimedSlots_eq_take.of_ok claimed
  have perm : (chooser.sortedSlots slots).Perm slots := List.mergeSort_perm slots _
  have all : slots = chooser.slots.toList := by
    rw [perm.length_eq, isTake, List.length_take, ← full] at enough
    rw [isTake]
    exact List.take_of_length_le (by simp only [capacity] at enough; simp; omega)
  have length : (chooser.sortedSlots slots).length = chooser.length := by
    rw [perm.length_eq, all]
    exact full
  rw [List.take_of_length_le (Nat.le_of_eq length)] at filled ⊢
  subst all
  exact ⟨fun slot member => List.all_eq_true.mp filled slot (perm.mem_iff.mpr member), rfl⟩

end Chooser

/-- A chooser with the candidates that were taken since they were last replaced and that were not
put back, the last of them first. -/
structure Consumption where
  /-- The chooser. -/
  chooser : Chooser
  /-- The candidates that were taken. -/
  taken : List Region

namespace Consumption

/-- What is done with a chooser. -/
inductive Operation : Type 1 where
  /-- Append a candidate. -/
  | add (region : Region)
  /-- Take the next candidate. -/
  | pop
  /-- Put a candidate back. -/
  | push (region : Region)
  /-- Look at the next candidate. -/
  | peek
  /-- Go through the candidates. -/
  | iterate {σ : Type} (process : σ → Region → σ × Bool) (start : σ)
  /-- Remove all candidates. -/
  | clear
  /-- Collect the candidates among the first regions of the heap with workers under a schedule. -/
  | rebuild (schedule : List Nat) (workers regions : Nat)
  /-- Sort the candidates. -/
  | sort

/-- An operation is permitted: regions of the heap that should be candidates are appended, what is
put back is the candidate taken last, and schedules let all workers finish. -/
def Operation.Allowed (state : Consumption) : Operation → Prop
  | add region => region ∈ state.chooser.heap ∧ state.chooser.shouldAdd region = true
  | push region => state.taken.head? = some region
  | rebuild schedule workers regions => state.chooser.Finishes schedule workers regions ∧
      state.chooser.bytesOf (state.chooser.selection regions) < wordLimit
  | pop | peek | iterate _ _ | clear | sort => True

/-- One operation. -/
def perform (state : Consumption) : Operation → Except Fault Consumption
  | .add region => do return { state with chooser := ← state.chooser.add region }
  | .pop => do
    match ← state.chooser.pop with
    | none => return state
    | some (region, chooser) => return { chooser, taken := region :: state.taken }
  | .push region => do
    return { chooser := ← state.chooser.push region, taken := state.taken.tail }
  | .peek => do
    let _ ← state.chooser.peek
    return state
  | .iterate process start => do
    let _ ← state.chooser.iterate process start
    return state
  | .clear => return { chooser := state.chooser.clear, taken := [] }
  | .rebuild schedule workers regions => do
    return {
      chooser := ← (state.chooser.rebuildUnder schedule workers regions).outcome
      taken := [] }
  | .sort => do return { state with chooser := ← state.chooser.sort.outcome }

/-- A sequence of operations. -/
def run (state : Consumption) (operations : List Operation) : Except Fault Consumption :=
  operations.foldlM perform state

/-- Each operation of a sequence is permitted where it is performed. -/
def Allows : Consumption → List Operation → Prop
  | _, [] => True
  | state, operation :: rest => operation.Allowed state ∧
      ∀ next, state.perform operation = .ok next → next.Allows rest

/-- Regions that should be candidates were written to slots in some order, after an empty slot for
each candidate that was taken. -/
structure Keeps (state : Consumption) (order : List Nat) : Prop where
  /-- Each region knows its index. -/
  indexed : state.chooser.Indexed
  /-- The slots before the front are empty, and indices were written to the others. -/
  slots : state.chooser.slots.toList =
    List.replicate state.taken.length none ++ order.map Slot.ofIndex
  /-- The front is after the slots of what was taken. -/
  front : state.chooser.front = state.taken.length
  /-- What was taken and what is left is counted. -/
  length : state.chooser.length = state.taken.length + order.length
  /-- The bytes of what is left are counted. -/
  bytes : state.chooser.remainingBytes = state.chooser.bytesOf order
  /-- What is left are candidates. -/
  candidates : state.chooser.Candidates order
  /-- What was taken were candidates. -/
  taken : ∀ region ∈ state.taken,
    state.chooser.heap[region.index]? = some region ∧ state.chooser.shouldAdd region = true

namespace Keeps

variable {state : Consumption}

/-- The candidates that are left were written to the slots from the front on. -/
theorem queues (keeps : state.Keeps order) : state.chooser.Queues (order.map Slot.ofIndex) :=
  ⟨by rw [keeps.front]; exact keeps.slots, by
    rw [keeps.front, keeps.length, List.length_map]⟩

/-- Where the heap has no region for the mark of an empty slot, no candidate has it for an index. -/
theorem unmarked (keeps : state.Keeps order) (few : state.chooser.heap.size ≤ Slot.emptyMark) :
    Slot.emptyMark ∉ order := by
  intro marked
  obtain ⟨_, found, _⟩ := keeps.candidates Slot.emptyMark marked
  obtain ⟨inside, _⟩ := Array.getElem?_eq_some_iff.mp found
  exact Nat.not_lt.mpr few inside

/-- A chooser that keeps candidates none of which has the mark of an empty slot for an index has its
accounts in order. -/
theorem accounted (keeps : state.Keeps order) (unmarked : Slot.emptyMark ∉ order) :
    state.chooser.Accounted := by
  have queues := keeps.queues
  rw [Slot.map_ofIndex unmarked] at queues
  exact {
    front_le := by rw [keeps.front, keeps.length]; exact Nat.le_add_right _ _
    full := queues.capacity_eq.symm
    before := fun _ => queues.slot_before
    active := by
      intro position least most
      rw [queues.length, List.length_map] at most
      have inside : position - state.chooser.front < order.length := by omega
      obtain ⟨region, found, should⟩ := keeps.candidates _ (List.getElem_mem inside)
      have slot := queues.slot_active (position - state.chooser.front)
      rw [Nat.add_sub_cancel' least, List.getElem?_map, List.getElem?_eq_getElem inside] at slot
      exact ⟨_, region, slot, found, should⟩
    bytes := by
      have each : order.map state.chooser.bytesAt =
          (List.range' state.chooser.front order.length).map state.chooser.bytesIn := by
        apply List.ext_getElem
        · simp
        · intro offset inside _
          rw [List.length_map] at inside
          simp only [List.getElem_map, List.getElem_range', Nat.one_mul, Chooser.bytesIn,
            queues.slot_active, List.getElem?_map, List.getElem?_eq_getElem inside]
          rfl
      rw [queues.length_sub, keeps.bytes, ← each]
      rfl }

/-- There is no next candidate when none is left. -/
theorem peek_nil (keeps : state.Keeps []) : state.chooser.peek = .ok none := by
  have reached : state.chooser.length ≤ state.chooser.front := by
    rw [keeps.front, keeps.length]
    exact Nat.le_refl _
  simp [Chooser.peek, reached]
  rfl

/-- The front is before the end while candidates are left. -/
theorem not_reached (keeps : state.Keeps (index :: rest)) :
    ¬state.chooser.length ≤ state.chooser.front := by
  rw [keeps.front, keeps.length, List.length_cons]
  omega

/-- The next candidate is the first of those that are left. -/
theorem peek_cons (keeps : state.Keeps (index :: rest)) (unmarked : index ≠ Slot.emptyMark)
    (found : state.chooser.heap[index]? = some region) :
    state.chooser.peek = .ok (some region) := by
  have content : state.chooser.slots[state.chooser.front]? = some (Slot.ofIndex index) :=
    keeps.queues.slot_active 0
  rw [Slot.ofIndex_of_ne unmarked] at content
  simp [Chooser.peek, keeps.not_reached, Chooser.candidateAt_filled content found]
  rfl

/-- No candidate is found where the first of those that are left has the mark of an empty slot for an
index. -/
theorem peek_marked (keeps : state.Keeps (Slot.emptyMark :: rest)) :
    state.chooser.peek = .error (.candidates (.emptySlot state.chooser.front)) := by
  have content : state.chooser.slots[state.chooser.front]? = some none :=
    keeps.queues.slot_active 0
  simp [Chooser.peek, keeps.not_reached, Chooser.candidateAt_empty content]
  rfl

/-- A candidate is appended after those that are left. -/
theorem add_ensures (keeps : state.Keeps order)
    (allowed : (Operation.add region).Allowed state)
    (short : ¬excuse → state.chooser.remainingBytes + region.reclaimableBytes < wordLimit) :
    Ensures excuse (state.chooser.add region) fun after =>
      Keeps { state with chooser := after } (order ++ [region.index]) := by
  obtain ⟨inHeap, should⟩ := allowed
  obtain ⟨old, _, notPinned, complete⟩ := Chooser.of_shouldAdd should
  have full := keeps.queues.capacity_eq.symm
  obtain ⟨position, isAt⟩ := Array.mem_iff_getElem?.mp inHeap
  have found : state.chooser.heap[region.index]? = some region := by
    rw [keeps.indexed position region isAt]
    exact isAt
  unfold Chooser.add
  apply Ensures.bind (ensures_require fun _ => by simp [notPinned])
  intro _ _
  apply Ensures.bind (ensures_require fun _ => old)
  intro _ _
  apply Ensures.bind (ensures_require fun _ => complete)
  intro _ _
  apply Ensures.bind (ensures_require fun _ => beq_iff_eq.mpr full)
  intro _ _
  apply Ensures.bind (Count.add_ensures short)
  intro total isTotal
  refine ⟨keeps.indexed, ?_, keeps.front, ?_, ?_, ?_, keeps.taken⟩
  · simp [keeps.slots]
  · simp [keeps.length, Nat.add_assoc]
  · change total = state.chooser.bytesOf (order ++ [region.index])
    rw [isTotal.1, keeps.bytes, Chooser.bytesOf_append, Chooser.bytesOf_cons,
      Chooser.bytesAt_of_found found]
    rfl
  · intro index member
    rcases List.mem_append.mp member with isOld | isNew
    · exact keeps.candidates index isOld
    · exact ⟨region, by rw [List.mem_singleton.mp isNew]; exact found, should⟩

/-- Nothing is taken when no candidate is left. -/
theorem pop_nil (keeps : state.Keeps []) : state.chooser.pop = .ok none := by
  simp [Chooser.pop, keeps.peek_nil]
  rfl

/-- The first of the candidates that are left is taken. -/
theorem pop_cons_ensures (keeps : state.Keeps (index :: rest))
    (unmarked : ¬excuse → index ≠ Slot.emptyMark) :
    Ensures excuse state.chooser.pop fun result => ∃ region after, result = some (region, after) ∧
      Keeps { chooser := after, taken := region :: state.taken } rest := by
  by_cases marked : index = Slot.emptyMark
  · subst marked
    unfold Chooser.pop
    rw [keeps.peek_marked]
    exact Classical.byContradiction fun hard => unmarked hard rfl
  obtain ⟨region, found, should⟩ := keeps.candidates index List.mem_cons_self
  have bytes : state.chooser.remainingBytes =
      region.reclaimableBytes + state.chooser.bytesOf rest := by
    rw [keeps.bytes, Chooser.bytesOf_cons, Chooser.bytesAt_of_found found]
  have fits : region.reclaimableBytes ≤ state.chooser.remainingBytes := by omega
  unfold Chooser.pop
  apply Ensures.bind (ensures_eq (keeps.peek_cons marked found))
  rintro _ rfl
  apply Ensures.bind (ensures_require fun _ => decide_eq_true fits)
  intro _ _
  refine ⟨region, _, rfl, keeps.indexed, ?_, ?_, ?_, ?_, ?_, ?_⟩
  · simp [keeps.slots, keeps.front, List.replicate_succ']
  · simp [keeps.front]
  · simp only [keeps.length, List.length_cons]
    omega
  · change _ - _ = state.chooser.bytesOf rest
    omega
  · exact fun other member => keeps.candidates other (List.mem_cons_of_mem index member)
  · intro other member
    rcases List.mem_cons.mp member with rfl | isEarlier
    · rw [keeps.indexed index other found]
      exact ⟨found, should⟩
    · exact keeps.taken other isEarlier

/-- The candidate that was taken last is put back before those that are left. -/
theorem push_ensures (keeps : state.Keeps order)
    (allowed : (Operation.push region).Allowed state)
    (short : ¬excuse → state.chooser.remainingBytes + region.reclaimableBytes < wordLimit) :
    Ensures excuse (state.chooser.push region) fun after =>
      Keeps { chooser := after, taken := state.taken.tail } (region.index :: order) := by
  obtain ⟨earlier, isTaken⟩ := List.head?_eq_some_iff.mp allowed
  obtain ⟨chooser, taken⟩ := state
  change taken = region :: earlier at isTaken
  subst isTaken
  have front : chooser.front = earlier.length + 1 := keeps.front
  obtain ⟨found, should⟩ := keeps.taken region List.mem_cons_self
  have empty : chooser.candidateAt (chooser.front - 1) = .ok none :=
    Chooser.candidateAt_empty (keeps.queues.slot_before (by
      rw [front]
      exact Nat.lt_succ_self _))
  unfold Chooser.push
  apply Ensures.bind (ensures_require fun _ => by simp [front])
  intro _ _
  apply Ensures.bind (ensures_eq empty)
  rintro _ rfl
  apply Ensures.bind (ensures_require fun _ => rfl)
  intro _ _
  apply Ensures.bind (Count.add_ensures short)
  intro total isTotal
  refine ⟨keeps.indexed, ?_, ?_, ?_, ?_, ?_, ?_⟩
  · have slots : chooser.slots.toList =
        List.replicate (earlier.length + 1) none ++ order.map Slot.ofIndex := keeps.slots
    simp [slots, front, List.replicate_succ']
  · simp [front]
  · have length : chooser.length = earlier.length + 1 + order.length := keeps.length
    simp only [length, List.tail_cons, List.length_cons]
    omega
  · change total = chooser.bytesAt region.index + chooser.bytesOf order
    have bytes : chooser.remainingBytes = chooser.bytesOf order := keeps.bytes
    rw [isTotal.1, bytes, Chooser.bytesAt_of_found found, Nat.add_comm]
  · intro index member
    rcases List.mem_cons.mp member with rfl | isLeft
    · exact ⟨region, found, should⟩
    · exact keeps.candidates index isLeft
  · exact fun other member => keeps.taken other (List.mem_cons_of_mem region member)

/-- No candidate is left after all of them are removed. -/
theorem clear (keeps : state.Keeps order) :
    Keeps { chooser := state.chooser.clear, taken := [] } [] :=
  ⟨keeps.indexed, rfl, rfl, rfl, rfl, fun _ member => absurd member List.not_mem_nil,
    fun _ member => absurd member List.not_mem_nil⟩

/-- A chooser that is rebuilt keeps the regions that are selected, in order. -/
theorem of_rebuilt {regions : Nat} {after : Chooser} (keeps : state.Keeps order)
    (rebuilt : state.chooser.Rebuilt regions after) :
    ∃ order, Keeps { chooser := after, taken := [] } order ∧ after.Ordered order ∧
      Slot.emptyMark ∉ order := by
  obtain ⟨order, slots, perm, ordered⟩ := rebuilt.slots
  have unmarked : Slot.emptyMark ∉ order := fun marked =>
    rebuilt.unmarked (perm.mem_iff.mp marked)
  rw [← Slot.map_ofIndex unmarked] at slots
  have alike := rebuilt.alike
  have sameOrder : after.Ordered order := by
    rw [Chooser.Ordered, alike.bytesAt]
    exact ordered
  refine ⟨order, ⟨?_, slots, rebuilt.front, ?_, ?_, ?_,
    fun _ member => absurd member List.not_mem_nil⟩, sameOrder, unmarked⟩
  · unfold Chooser.Indexed
    rw [alike.heap]
    exact keeps.indexed
  · simp [rebuilt.length, rebuilt.capacity, perm.length_eq]
  · simp only [rebuilt.remaining, alike.bytesOf]
    exact Chooser.bytesOf_perm perm.symm
  · intro index member
    simp only [alike.heap, alike.shouldAdd]
    exact Chooser.candidates_selection index (perm.mem_iff.mp member)

/-- Sorting that returns finds that no candidate was taken and that all slots are filled, and it keeps
the candidates and brings them in order. -/
theorem sort_ensures (keeps : state.Keeps order) :
    Ensures True state.chooser.sort.outcome fun after => state.taken = [] ∧
      ∃ order, Keeps { state with chooser := after } order ∧ after.Ordered order ∧
        Slot.emptyMark ∉ order := by
  apply (Chooser.sort_ensures_of_full keeps.queues.capacity_eq).mono
  rintro _ ⟨filled, rfl⟩
  rw [keeps.slots] at filled
  have nothingTaken : state.taken = [] := by
    apply List.eq_nil_of_length_eq_zero
    apply Nat.eq_zero_of_not_pos
    intro positive
    have isEmpty : none ∈ List.replicate state.taken.length none ++ order.map Slot.ofIndex := by
      simp [Nat.ne_of_gt positive]
    exact absurd (filled none isEmpty) Bool.false_ne_true
  have unmarked : Slot.emptyMark ∉ order :=
    Slot.unmarked_of_filled fun slot member => filled slot (List.mem_append_right _ member)
  have slots : state.chooser.slots.toList = order.map some := by
    rw [keeps.slots, nothingTaken, Slot.map_ofIndex unmarked]
    rfl
  have found : state.chooser.slots.toList.filterMap id = order := Chooser.filled_of_slots slots
  have known : state.chooser.Candidates (state.chooser.slots.toList.filterMap id) := by
    rw [found]
    exact keeps.candidates
  obtain ⟨sorted, ⟨perm, ordered, _⟩, _, inFront⟩ := Chooser.exists_sorted known
  rw [found] at perm
  have unmarkedSorted : Slot.emptyMark ∉ sorted := fun marked => unmarked (perm.mem_iff.mp marked)
  have whole : state.chooser.sortedSlots state.chooser.slots.toList = sorted.map some := by
    rw [← inFront, List.take_of_length_le]
    rw [Chooser.sortedSlots, List.length_mergeSort, slots, List.length_map, perm.length_eq]
  refine ⟨nothingTaken, sorted, ⟨keeps.indexed, ?_, keeps.front, ?_, ?_, ?_, keeps.taken⟩, ordered,
    unmarkedSorted⟩
  · simp [nothingTaken, whole, Slot.map_ofIndex unmarkedSorted]
  · simp [keeps.length, perm.length_eq]
  · change state.chooser.remainingBytes = state.chooser.bytesOf sorted
    rw [keeps.bytes]
    exact Chooser.bytesOf_perm perm.symm
  · exact fun index member => keeps.candidates index (perm.mem_iff.mp member)

end Keeps

variable {state start reached : Consumption} {operations : List Operation}

/-- Each operation that is permitted leaves a chooser that keeps its candidates, over the same heap. -/
theorem Keeps.perform_ensures {operation : Operation} (keeps : state.Keeps order)
    (allowed : operation.Allowed state) :
    Ensures True (state.perform operation) fun next =>
      ∃ order, next.Keeps order ∧ state.chooser.Alike next.chooser := by
  cases operation with
  | add region =>
    apply Ensures.bind ((keeps.add_ensures allowed fun hard => absurd trivial hard).and
      Chooser.add_unshared)
    rintro after ⟨kept, unshared, _⟩
    exact ⟨_, kept, unshared.toAlike⟩
  | pop =>
    cases order with
    | nil =>
      apply Ensures.bind (ensures_eq keeps.pop_nil)
      rintro _ rfl
      exact ⟨[], keeps, Chooser.Alike.refl _⟩
    | cons index rest =>
      apply Ensures.bind ((keeps.pop_cons_ensures fun hard => absurd trivial hard).and
        Chooser.pop_unshared)
      rintro _ ⟨⟨region, after, rfl, kept⟩, unshared⟩
      exact ⟨rest, kept, (unshared region after rfl).toAlike⟩
  | push region =>
    apply Ensures.bind ((keeps.push_ensures allowed fun hard => absurd trivial hard).and
      Chooser.push_unshared)
    rintro after ⟨kept, unshared⟩
    exact ⟨_, kept, unshared.toAlike⟩
  | peek =>
    apply Ensures.bind (ensures_excused _)
    intro _ _
    exact ⟨order, keeps, Chooser.Alike.refl _⟩
  | iterate process start =>
    apply Ensures.bind (ensures_excused _)
    intro _ _
    exact ⟨order, keeps, Chooser.Alike.refl _⟩
  | clear => exact ⟨[], keeps.clear, rfl, rfl, rfl⟩
  | rebuild schedule workers regions =>
    apply Ensures.bind (allowed.1.rebuildUnder_ensures keeps.indexed allowed.2)
    intro after rebuilt
    obtain ⟨order, kept, _⟩ := keeps.of_rebuilt rebuilt
    exact ⟨order, kept, rebuilt.alike⟩
  | sort =>
    apply Ensures.bind (keeps.sort_ensures.and Chooser.sort_unshared)
    rintro after ⟨⟨_, order, kept, _⟩, unshared⟩
    exact ⟨order, kept, unshared.toAlike⟩

/-- Every run of permitted operations leaves a chooser that keeps its candidates, over the same heap. -/
theorem Keeps.run (keeps : start.Keeps order) (allowed : start.Allows operations)
    (done : start.run operations = .ok reached) :
    ∃ order, reached.Keeps order ∧ start.chooser.Alike reached.chooser := by
  induction operations generalizing start order with
  | nil =>
    obtain rfl := Except.ok.inj done
    exact ⟨order, keeps, Chooser.Alike.refl _⟩
  | cons operation rest ih =>
    unfold Consumption.run at done
    rw [List.foldlM_cons] at done
    cases performed : start.perform operation with
    | error fault =>
      rw [performed] at done
      cases done
    | ok next =>
      rw [performed] at done
      obtain ⟨_, kept, first⟩ := (keeps.perform_ensures allowed.1).of_ok performed
      obtain ⟨order, keptLast, later⟩ := ih kept (allowed.2 next performed) done
      exact ⟨order, keptLast, first.trans later⟩

/-- A new chooser keeps no candidates, over the heap that it is made of. -/
theorem keeps_ofHeap {heap : Array Region} {options : Options}
    (made : Chooser.ofHeap heap options = .ok chooser) :
    Keeps { chooser, taken := [] } [] ∧ chooser.heap = heap := by
  have fresh : Ensures True (Chooser.ofHeap heap options) fun chooser =>
      Keeps { chooser, taken := [] } [] ∧ chooser.heap = heap := by
    unfold Chooser.ofHeap
    apply Ensures.bind (ensures_require fun hard => absurd trivial hard)
    intro _ checked
    apply Ensures.bind (ensures_excused _)
    intro threshold _
    refine ⟨⟨?_, rfl, rfl, rfl, rfl, fun _ member => absurd member List.not_mem_nil,
      fun _ member => absurd member List.not_mem_nil⟩, rfl⟩
    intro index region found
    have inList : (region, index) ∈ heap.toList.zipIdx := by
      rw [List.mem_zipIdx_iff_getElem?, Array.getElem?_toList]
      exact found
    exact beq_iff_eq.mp (List.all_eq_true.mp checked _ inList)
  exact fresh.of_ok made

/-- In every state that a run of permitted operations reaches from a new chooser for a heap without a
region for the mark of an empty slot, the accounts are in order. Looking at the next candidate and
taking it never stop with a fault, and there is none exactly when the front has reached the end.
Candidates that should be added and the one to put back are taken in as long as the bytes are a count.
-/
theorem reached_accounted {heap : Array Region} {options : Options}
    (few : heap.size ≤ Slot.emptyMark) (made : Chooser.ofHeap heap options = .ok chooser)
    (allowed : Allows { chooser, taken := [] } operations)
    (done : run { chooser, taken := [] } operations = .ok reached) :
    reached.chooser.Accounted ∧
      (∃ next, reached.chooser.peek = .ok next ∧
        (next = none ↔ reached.chooser.front = reached.chooser.length)) ∧
      (∃ result, reached.chooser.pop = .ok result ∧
        (result = none ↔ reached.chooser.front = reached.chooser.length)) ∧
      ∀ region, reached.chooser.remainingBytes + region.reclaimableBytes < wordLimit →
        ((Operation.add region).Allowed reached → ∃ after, reached.chooser.add region = .ok after) ∧
        ((Operation.push region).Allowed reached →
          ∃ after, reached.chooser.push region = .ok after) := by
  obtain ⟨fresh, isHeap⟩ := keeps_ofHeap made
  obtain ⟨order, keeps, alike⟩ := fresh.run allowed done
  have unmarked : Slot.emptyMark ∉ order := keeps.unmarked (by
    rw [alike.heap, isHeap]
    exact few)
  refine ⟨keeps.accounted unmarked, ?_, ?_,
    fun region short => ⟨fun isAllowed => ?_, fun isAllowed => ?_⟩⟩
  · cases order with
    | nil => exact ⟨none, keeps.peek_nil, by simp [keeps.front, keeps.length]⟩
    | cons index rest =>
      obtain ⟨region, found, _⟩ := keeps.candidates index List.mem_cons_self
      exact ⟨some region, keeps.peek_cons (List.ne_of_not_mem_cons unmarked).symm found,
        by simp [keeps.front, keeps.length]⟩
  · cases order with
    | nil => exact ⟨none, keeps.pop_nil, by simp [keeps.front, keeps.length]⟩
    | cons index rest =>
      obtain ⟨_, popped, region, after, rfl, _⟩ :=
        (keeps.pop_cons_ensures fun _ => (List.ne_of_not_mem_cons unmarked).symm).exists_ok
      exact ⟨_, popped, by simp [keeps.front, keeps.length]⟩
  · obtain ⟨after, added, _⟩ := (keeps.add_ensures isAllowed fun _ => short).exists_ok
    exact ⟨after, added⟩
  · obtain ⟨after, putBack, _⟩ := (keeps.push_ensures isAllowed fun _ => short).exists_ok
    exact ⟨after, putBack⟩

/-- A permitted operation that returns, before a permitted run that returns. -/
theorem permitted_cons {operation : Operation} (next : Consumption)
    (allowed : operation.Allowed start) (performed : start.perform operation = .ok next)
    (later : next.Allows operations ∧ next.run operations = .ok reached) :
    start.Allows (operation :: operations) ∧
      start.run (operation :: operations) = .ok reached := by
  refine ⟨⟨allowed, fun other isOther => ?_⟩, ?_⟩
  · rw [performed] at isOther
    exact Except.ok.inj isOther ▸ later.1
  · unfold run
    rw [List.foldlM_cons, performed]
    exact later.2

/-- Two candidates of the heap of the sample are appended, the first of them is taken, put back and
taken again, and the candidates are collected anew by two workers that take turns. -/
def sample : List Operation :=
  [.add (Region.old 0 10 90), .add (Region.old 2 40 95), .pop, .push (Region.old 0 10 90), .pop,
    .rebuild (List.replicate 11 [0, 1]).flatten 2 3]

/-- A chooser over the heap of the sample that no worker filled. -/
def sampleState (slots : Array (Option Nat)) (front bytes : Nat) (taken : List Region) :
    Consumption where
  chooser := { Chooser.sample with
    slots, front, length := slots.size, cursor := 0, remainingBytes := bytes }
  taken

/-- The sample is permitted and returns with its accounts in order, and two of the three regions are
left. -/
theorem sample_accounted : ∃ chooser reached,
    Chooser.ofHeap Chooser.sample.heap { Options.default 1 with regionBytes := 100 } = .ok chooser ∧
    Allows { chooser, taken := [] } sample ∧ run { chooser, taken := [] } sample = .ok reached ∧
    reached.chooser.Accounted ∧ reached.chooser.capacity = 2 ∧
    reached.chooser.remainingBytes = 185 := by
  have made : Chooser.ofHeap Chooser.sample.heap { Options.default 1 with regionBytes := 100 } =
      .ok (sampleState #[] 0 0 []).chooser := rfl
  have request : (sampleState #[none, some 2] 1 95 [Region.old 0 10 90]).chooser.Rebuildable 2 3 :=
    ⟨(keeps_ofHeap made).1.indexed, by decide, by decide, by decide, by decide, by decide, by decide,
      by decide⟩
  have enough : ∀ worker < 2, 3 * 3 + 2 ≤ (List.replicate 11 [0, 1]).flatten.count worker := fun
    | 0, _ | 1, _ => by decide
  obtain ⟨rebuilt, isOutcome, isRebuilt⟩ := Chooser.exists_rebuilt request enough
  have permitted : (sampleState #[] 0 0 []).Allows sample ∧
      (sampleState #[] 0 0 []).run sample = .ok { chooser := rebuilt, taken := [] } := by
    refine permitted_cons (sampleState #[some 0] 0 90 [])
      ⟨Array.mem_iff_getElem?.mpr ⟨0, rfl⟩, rfl⟩ rfl ?_
    refine permitted_cons (sampleState #[some 0, some 2] 0 185 [])
      ⟨Array.mem_iff_getElem?.mpr ⟨2, rfl⟩, rfl⟩ rfl ?_
    refine permitted_cons (sampleState #[none, some 2] 1 95 [Region.old 0 10 90]) trivial rfl ?_
    refine permitted_cons (sampleState #[some 0, some 2] 0 185 []) rfl rfl ?_
    refine permitted_cons (sampleState #[none, some 2] 1 95 [Region.old 0 10 90]) trivial rfl ?_
    refine permitted_cons _ ⟨Chooser.finishes_of_count request enough, request.bytes⟩ ?_
      ⟨trivial, rfl⟩
    simp only [perform, isOutcome]
    rfl
  exact ⟨_, _, made, permitted.1, permitted.2,
    (reached_accounted (by decide) made permitted.1 permitted.2).1, isRebuilt.capacity,
    isRebuilt.remaining⟩

end Consumption

end CollectorMemory
