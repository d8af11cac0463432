import CollectorMemory.Proofs.Candidates.Accounting

/-!
# Taking candidates and putting them back

A chooser that was just sorted holds its candidates in a row (`Chooser.Lined`). What it is after
some of them were taken depends only on how many are out (`Chooser.drained`): taking a candidate goes
one step on in the row, and putting the last one back goes one step back, with every slot and every
count as it was. So any interleaving of both ends where the numbers of its moves say
(`Consumption.move_each`), and the check passes at every step of the row.
-/

namespace CollectorMemory

variable {chooser : Chooser} {row : List Region} {order : List Nat} {count : Nat}

namespace Chooser

/-- The chooser after a number of the candidates in its row were taken. -/
def drained (chooser : Chooser) (row : List Region) (count : Nat) : Chooser :=
  { chooser with
    slots := (List.replicate count none ++ ((row.drop count).map Region.index).map some).toArray
    front := count
    remainingBytes := ((row.drop count).map Region.reclaimableBytes).sum }

/-- Take a number of candidates, or all of them if there are fewer. -/
def popEach (chooser : Chooser) : Nat → Except Fault (List Region × Chooser)
  | 0 => .ok ([], chooser)
  | count + 1 => do
    match ← chooser.pop with
    | none => return ([], chooser)
    | some (region, after) =>
      let (regions, last) ← after.popEach count
      return (region :: regions, last)

/-- A chooser that holds candidates in a row, none of which was taken. -/
structure Lined (chooser : Chooser) (row : List Region) : Prop where
  /-- The slots hold the regions of the row. -/
  slots : chooser.slots.toList = (row.map Region.index).map some
  /-- No candidate was taken. -/
  front : chooser.front = 0
  /-- The regions of the row are counted. -/
  length : chooser.length = row.length
  /-- Their bytes are counted. -/
  bytes : chooser.remainingBytes = (row.map Region.reclaimableBytes).sum
  /-- Their bytes are a count. -/
  short : chooser.remainingBytes < wordLimit
  /-- The regions are those of the heap, and they should be candidates. -/
  found : ∀ region ∈ row,
    chooser.heap[region.index]? = some region ∧ chooser.shouldAdd region = true
  /-- None of them has the mark of an empty slot for an index. -/
  unmarked : ∀ region ∈ row, region.index ≠ Slot.emptyMark
  /-- No region has more bytes to free than one before it. -/
  ordered : row.Pairwise fun earlier later => later.reclaimableBytes ≤ earlier.reclaimableBytes

/-- Indices of candidates are those of regions in a row. -/
theorem exists_row (indexed : chooser.Indexed) (known : chooser.Candidates order) :
    ∃ row : List Region, row.map Region.index = order ∧ ∀ region ∈ row,
      chooser.heap[region.index]? = some region ∧ chooser.shouldAdd region = true := by
  induction order with
  | nil => exact ⟨[], rfl, fun _ member => absurd member List.not_mem_nil⟩
  | cons index rest ih =>
    obtain ⟨region, found, should⟩ := known index List.mem_cons_self
    obtain ⟨row, rfl, others⟩ := ih fun other member =>
      known other (List.mem_cons_of_mem index member)
    have same : region.index = index := indexed index region found
    refine ⟨region :: row, by rw [List.map_cons, same], fun other member => ?_⟩
    rcases List.mem_cons.mp member with rfl | later
    · rw [same]
      exact ⟨found, should⟩
    · exact others other later

/-- Evacuating the regions in a row frees the bytes of each. -/
theorem bytesOf_row (found : ∀ region ∈ row, chooser.heap[region.index]? = some region) :
    chooser.bytesOf (row.map Region.index) = (row.map Region.reclaimableBytes).sum := by
  have each : (row.map Region.index).map chooser.bytesAt = row.map Region.reclaimableBytes := by
    rw [List.map_map]
    exact List.map_congr_left fun region member => bytesAt_of_found (found region member)
  rw [bytesOf, each]

/-- Indices are in order where the regions in their row are. -/
theorem ordered_row (found : ∀ region ∈ row, chooser.heap[region.index]? = some region) :
    chooser.Ordered (row.map Region.index) ↔
      row.Pairwise fun earlier later => later.reclaimableBytes ≤ earlier.reclaimableBytes := by
  rw [Ordered, List.pairwise_map]
  apply List.Pairwise.iff_of_mem
  intro earlier later isEarlier isLater
  rw [bytesAt_of_found (found earlier isEarlier), bytesAt_of_found (found later isLater)]

/-- The bytes of the rest of a row are those of its first region and those of what follows. -/
theorem sum_drop (inside : count < row.length) :
    ((row.drop count).map Region.reclaimableBytes).sum =
      row[count].reclaimableBytes + ((row.drop (count + 1)).map Region.reclaimableBytes).sum := by
  rw [List.drop_eq_getElem_cons inside, List.map_cons, List.sum_cons]

/-- The slots around the next candidate. -/
theorem slots_drained (inside : count < row.length) : (chooser.drained row count).slots.toList =
    List.replicate count none ++
      some row[count].index :: ((row.drop (count + 1)).map Region.index).map some := by
  unfold drained
  rw [List.drop_eq_getElem_cons inside]
  rfl

/-- The slots around the candidate that was taken last. -/
theorem slots_drained_succ : (chooser.drained row (count + 1)).slots.toList =
    List.replicate count none ++
      none :: ((row.drop (count + 1)).map Region.index).map some := by
  unfold drained
  rw [List.replicate_succ', List.append_assoc]
  rfl

/-- Emptying the slot at the front goes one step on in the row. -/
theorem set_none_drained (inside : count < row.length) :
    (chooser.drained row count).slots.setIfInBounds count none =
      (chooser.drained row (count + 1)).slots := by
  apply Array.toList_inj.mp
  rw [Array.toList_setIfInBounds, slots_drained inside, slots_drained_succ]
  simp

/-- Filling the slot before the front goes one step back in the row. -/
theorem set_some_drained (inside : count < row.length) :
    (chooser.drained row (count + 1)).slots.setIfInBounds count (some row[count].index) =
      (chooser.drained row count).slots := by
  apply Array.toList_inj.mp
  rw [Array.toList_setIfInBounds, slots_drained inside, slots_drained_succ]
  simp

namespace Lined

variable (lined : chooser.Lined row)

include lined

/-- Where none was taken, the chooser is as it was. -/
theorem drained_zero : chooser.drained row 0 = chooser := by
  obtain ⟨heap, ⟨slots⟩, front, length, cursor, threshold, bytes, audited⟩ := chooser
  obtain rfl : slots = (row.map Region.index).map some := lined.slots
  obtain rfl : front = 0 := lined.front
  obtain rfl : bytes = (row.map Region.reclaimableBytes).sum := lined.bytes
  rfl

/-- The slots of the candidates that were taken are empty, the others hold the rest of the row. -/
theorem queues (within : count ≤ row.length) :
    (chooser.drained row count).Queues (((row.drop count).map Region.index).map some) where
  slots := rfl
  length := by
    change chooser.length = count + _
    rw [lined.length, List.length_map, List.length_map, List.length_drop,
      Nat.add_sub_cancel' within]

/-- The bytes of the rest of the row are a count. -/
theorem short_drop (count : Nat) :
    ((row.drop count).map Region.reclaimableBytes).sum < wordLimit := by
  apply Nat.lt_of_le_of_lt _ lined.short
  rw [lined.bytes]
  exact ((List.drop_sublist count row).map _).sum_le_sum fun _ _ => Nat.zero_le _

/-- The next candidate is the first in the rest of the row. -/
theorem peek_drained (inside : count < row.length) :
    (chooser.drained row count).peek = .ok (some row[count]) := by
  have notReached : ¬(chooser.drained row count).length ≤ (chooser.drained row count).front := by
    change ¬chooser.length ≤ count
    rw [lined.length]
    exact Nat.not_le.mpr inside
  have content : (chooser.drained row count).slots[count]? = some (some row[count].index) := by
    have first := (lined.queues (Nat.le_of_lt inside)).slot_active 0
    rw [List.getElem?_map, List.getElem?_map, List.getElem?_drop, count.add_zero,
      List.getElem?_eq_getElem inside] at first
    exact first
  unfold peek
  rw [if_neg notReached]
  exact congrArg (· >>= _) (candidateAt_filled content (lined.found _ (List.getElem_mem inside)).1)

/-- Taking a candidate goes one step on in the row. -/
theorem pop_drained (inside : count < row.length) : (chooser.drained row count).pop =
    .ok (some (row[count], chooser.drained row (count + 1))) := by
  have bytes : (chooser.drained row count).remainingBytes = row[count].reclaimableBytes +
      (chooser.drained row (count + 1)).remainingBytes := sum_drop inside
  suffices taken : Ensures False (chooser.drained row count).pop fun result =>
      result = some (row[count], chooser.drained row (count + 1)) by
    exact taken.eq_ok fun _ same => same
  unfold pop
  apply Ensures.bind (ensures_eq (lined.peek_drained inside))
  rintro _ rfl
  apply Ensures.bind (ensures_require fun _ => decide_eq_true (by
    rw [bytes]
    exact Nat.le_add_right _ _))
  intro _ _
  rw [bytes, Nat.add_sub_cancel_left]
  exact congrArg (fun slots => some (row[count], { chooser.drained row (count + 1) with slots }))
    (set_none_drained inside)

/-- Nothing is left after all candidates were taken. -/
theorem drained_all : (chooser.drained row row.length).remainingBytes = 0 ∧
    (chooser.drained row row.length).remaining = .ok 0 ∧
    (chooser.drained row row.length).pop = .ok none := by
  have length : (chooser.drained row row.length).length = row.length := lined.length
  have reached : (chooser.drained row row.length).front = row.length := rfl
  refine ⟨?_, ?_, ?_⟩
  · simp [drained]
  · simp [remaining, require, length, reached]
  · simp [pop, peek, length, reached]
    rfl

/-- Putting a candidate back goes one step back in the row. -/
theorem push_drained (inside : count < row.length) :
    (chooser.drained row (count + 1)).push row[count] = .ok (chooser.drained row count) := by
  suffices putBack : Ensures False ((chooser.drained row (count + 1)).push row[count]) fun after =>
      after = chooser.drained row count by
    exact putBack.eq_ok fun _ same => same
  have empty : (chooser.drained row (count + 1)).candidateAt count = .ok none :=
    candidateAt_empty ((lined.queues inside).slot_before (Nat.lt_succ_self count))
  have bytes : (chooser.drained row (count + 1)).remainingBytes + row[count].reclaimableBytes =
      (chooser.drained row count).remainingBytes :=
    (Nat.add_comm _ _).trans (sum_drop inside).symm
  unfold push
  apply Ensures.bind (ensures_require fun _ => decide_eq_true (Nat.le_add_left 1 count))
  intro _ _
  apply Ensures.bind (ensures_eq empty)
  rintro _ rfl
  apply Ensures.bind (ensures_require fun _ => rfl)
  intro _ _
  apply Ensures.bind (Count.add_ensures fun _ => by
    rw [bytes]
    exact lined.short_drop count)
  rintro _ ⟨rfl, _⟩
  rw [bytes, Slot.ofIndex_of_ne (lined.unmarked _ (List.getElem_mem inside))]
  exact congrArg (fun slots => { chooser.drained row count with slots }) (set_some_drained inside)

/-- The check passes wherever in the row the chooser is. -/
theorem audit_drained (within : count ≤ row.length) :
    (chooser.drained row count).audit = .ok () := by
  have found : ∀ region ∈ row.drop count, chooser.heap[region.index]? = some region ∧
      chooser.shouldAdd region = true :=
    fun region member => lined.found region (List.mem_of_mem_drop member)
  have candidates : (chooser.drained row count).Candidates ((row.drop count).map Region.index) := by
    intro index member
    obtain ⟨region, inRow, rfl⟩ := List.mem_map.mp member
    exact ⟨region, found region inRow⟩
  have inHeap := fun region member => (found region member).1
  have passes : Ensures False (chooser.drained row count).audit fun _ => True :=
    (lined.queues within).audit_ensures candidates
      ((ordered_row inHeap).mpr (lined.ordered.sublist (List.drop_sublist count row)))
      (bytesOf_row inHeap).symm (lined.short_drop count)
  exact passes.eq_ok fun _ _ => rfl

/-- Taking several candidates goes as many steps on in the row. -/
theorem popEach_drained (start : Nat) (within : start + count ≤ row.length) :
    (chooser.drained row start).popEach count =
      .ok ((row.drop start).take count, chooser.drained row (start + count)) := by
  induction count generalizing start with
  | zero => rfl
  | succ count ih =>
    have inside : start < row.length := by omega
    have later := ih (start + 1) (by omega)
    unfold popEach
    rw [lined.pop_drained inside]
    change ((chooser.drained row (start + 1)).popEach count >>= fun result =>
      .ok (row[start] :: result.1, result.2)) = _
    rw [later, List.drop_eq_getElem_cons inside, List.take_succ_cons, Nat.add_right_comm,
      Nat.add_assoc]
    rfl

/-- Putting the last candidates back in reverse order goes as many steps back in the row. -/
theorem pushEach_drained {kept back : Nat} (within : kept + back ≤ row.length) :
    ((row.take (kept + back)).drop kept).reverse.foldlM push (chooser.drained row (kept + back)) =
      .ok (chooser.drained row kept) := by
  induction back with
  | zero =>
    rw [Nat.add_zero, List.drop_take, Nat.sub_self, List.take_zero]
    rfl
  | succ back ih =>
    have inside : kept + back < row.length := by omega
    have among : kept ≤ (row.take (kept + back)).length := by
      rw [List.length_take]
      omega
    rw [← Nat.add_assoc, List.take_succ_eq_append_getElem inside,
      List.drop_append_of_le_length among, List.reverse_append, List.reverse_singleton,
      List.singleton_append, List.foldlM_cons, lined.push_drained inside]
    exact ih (Nat.le_of_lt inside)

end Lined

/-- A move at the front of the candidates. -/
inductive Move where
  /-- Take the next candidate. -/
  | take
  /-- Put the candidate back that was taken last. -/
  | putBack
  deriving DecidableEq

/-- Moves that take no candidate where all are out and put none back where none is out. -/
def Balanced (total : Nat) : Nat → List Move → Prop
  | _, [] => True
  | out, .take :: rest => out < total ∧ Balanced total (out + 1) rest
  | out, .putBack :: rest => 0 < out ∧ Balanced total (out - 1) rest

end Chooser

namespace Consumption

open Chooser (Move Balanced)

/-- Make a move; nothing is put back where nothing was taken. -/
def move (state : Consumption) : Move → Except Fault Consumption
  | .take => state.perform .pop
  | .putBack =>
    match state.taken with
    | [] => .ok state
    | region :: _ => state.perform (.push region)

/-- The first candidates of a row are out. -/
def out (chooser : Chooser) (row : List Region) (count : Nat) : Consumption where
  chooser := chooser.drained row count
  taken := (row.take count).reverse

/-- One more candidate is out after one is taken. -/
theorem move_take (lined : chooser.Lined row) (inside : count < row.length) :
    (out chooser row count).move .take = .ok (out chooser row (count + 1)) := by
  unfold out move perform
  dsimp only
  rw [lined.pop_drained inside, List.take_succ_eq_append_getElem inside, List.reverse_append]
  rfl

/-- One candidate less is out after one is put back. -/
theorem move_putBack (lined : chooser.Lined row) (inside : count < row.length) :
    (out chooser row (count + 1)).move .putBack = .ok (out chooser row count) := by
  unfold out move perform
  rw [List.take_succ_eq_append_getElem inside, List.reverse_append]
  change (chooser.drained row (count + 1)).push row[count] >>= _ = _
  rw [lined.push_drained inside]
  rfl

/-- As many candidates are out after moves as their numbers say. -/
theorem move_each {moves : List Move} (lined : chooser.Lined row) (within : count ≤ row.length)
    (balanced : Balanced row.length count moves) :
    ∃ last ≤ row.length, last + moves.count .putBack = count + moves.count .take ∧
      moves.foldlM move (out chooser row count) = .ok (out chooser row last) := by
  induction moves generalizing count with
  | nil => exact ⟨count, within, rfl, rfl⟩
  | cons first rest ih =>
    rw [List.foldlM_cons]
    cases first with
    | take =>
      obtain ⟨inside, later⟩ := balanced
      obtain ⟨last, isWithin, difference, reached⟩ := ih inside later
      refine ⟨last, isWithin, ?_, ?_⟩
      · rw [List.count_cons_self, List.count_cons_of_ne (by decide), difference]
        omega
      · rw [move_take lined inside]
        exact reached
    | putBack =>
      obtain ⟨someOut, later⟩ := balanced
      obtain ⟨before, rfl⟩ := Nat.exists_eq_succ_of_ne_zero (Nat.ne_of_gt someOut)
      obtain ⟨last, isWithin, difference, reached⟩ := ih (Nat.le_of_lt within) later
      refine ⟨last, isWithin, ?_, ?_⟩
      · rw [List.count_cons_self, List.count_cons_of_ne (by decide), ← Nat.add_assoc, difference]
        omega
      · rw [move_putBack lined within]
        exact reached

end Consumption

/-- What becomes of a row of candidates that are taken and put back. -/
structure Chooser.Drains (chooser : Chooser) (row : List Region) : Prop where
  /-- As many candidates as wanted are taken, the first of the row. -/
  takes : ∀ count ≤ row.length,
    chooser.popEach count = .ok (row.take count, chooser.drained row count)
  /-- Each that is taken lowers the bytes that remain by its own. -/
  lowers : ∀ (count : Nat) (inside : count < row.length), ∃ after,
    (chooser.drained row count).pop = .ok (some (row[count], after)) ∧
      (chooser.drained row count).remainingBytes =
        after.remainingBytes + row[count].reclaimableBytes
  /-- None is left after all of them were taken, and no bytes remain. -/
  empties : (chooser.drained row row.length).remainingBytes = 0 ∧
    (chooser.drained row row.length).remaining = .ok 0 ∧
    (chooser.drained row row.length).pop = .ok none
  /-- The last of those that were taken are put back in reverse order, which gives what was there
  before they were taken. -/
  putsBack : ∀ kept back, kept + back ≤ row.length →
    ((row.take (kept + back)).drop kept).reverse.foldlM Chooser.push
      (chooser.drained row (kept + back)) = .ok (chooser.drained row kept)
  /-- Moves in any order give what the difference of their numbers says. -/
  interleaves : ∀ moves, Balanced row.length 0 moves →
    ∃ last ≤ row.length, last + moves.count .putBack = moves.count .take ∧
      moves.foldlM Consumption.move { chooser, taken := [] } =
        .ok (Consumption.out chooser row last)
  /-- The check passes at every step of the row. -/
  passes : ∀ count ≤ row.length, (chooser.drained row count).audit = .ok ()

/-- Candidates in a row are taken and put back. -/
theorem Chooser.Lined.drains (lined : chooser.Lined row) : chooser.Drains row where
  takes count within := by
    have taken := lined.popEach_drained 0 ((Nat.zero_add count).trans_le within)
    rw [lined.drained_zero, Nat.zero_add] at taken
    exact taken
  lowers count inside :=
    ⟨_, lined.pop_drained inside, (sum_drop inside).trans (Nat.add_comm _ _)⟩
  empties := lined.drained_all
  putsBack kept back within := lined.pushEach_drained within
  interleaves moves balanced := by
    have moved := Consumption.move_each lined (Nat.zero_le _) balanced
    rw [Nat.zero_add, Consumption.out, lined.drained_zero] at moved
    exact moved
  passes count within := lined.audit_drained within

namespace Consumption

variable {state : Consumption}

/-- An operation that sorts the candidates, on its own or after collecting them. -/
def Operation.Sorts : Operation → Prop
  | sort | rebuild _ _ _ => True
  | add _ | pop | push _ | peek | iterate _ _ | clear => False

/-- After the candidates are sorted none is out, and they are kept in order. -/
theorem Keeps.sorts_ensures {operation : Operation} (keeps : state.Keeps order)
    (sorts : operation.Sorts) (allowed : operation.Allowed state) :
    Ensures True (state.perform operation) fun next => next.taken = [] ∧
      ∃ order, next.Keeps order ∧ next.chooser.Ordered order ∧ Slot.emptyMark ∉ order := by
  cases operation with
  | sort =>
    apply Ensures.bind keeps.sort_ensures
    rintro after ⟨nothingTaken, sorted⟩
    exact ⟨nothingTaken, sorted⟩
  | rebuild schedule workers regions =>
    apply Ensures.bind (allowed.1.rebuildUnder_ensures keeps.indexed allowed.2)
    intro after rebuilt
    exact ⟨rfl, keeps.of_rebuilt rebuilt⟩
  | add | pop | push | peek | iterate | clear => exact sorts.elim

/-- Candidates that are kept in order are in a row. -/
theorem Keeps.lined (keeps : state.Keeps order) (unmarked : Slot.emptyMark ∉ order)
    (nothingOut : state.taken = []) (ordered : state.chooser.Ordered order)
    (short : state.chooser.remainingBytes < wordLimit) :
    ∃ row, state.chooser.Lined row := by
  obtain ⟨row, rfl, found⟩ := Chooser.exists_row keeps.indexed keeps.candidates
  have inHeap := fun region member => (found region member).1
  exact ⟨row, {
    slots := by rw [keeps.slots, nothingOut, Slot.map_ofIndex unmarked]; rfl
    front := by rw [keeps.front, nothingOut]; rfl
    length := by rw [keeps.length, nothingOut, List.length_map]; exact Nat.zero_add _
    bytes := keeps.bytes.trans (Chooser.bytesOf_row inHeap)
    short
    found
    unmarked := fun region member marked =>
      unmarked (marked ▸ List.mem_map_of_mem member)
    ordered := (Chooser.ordered_row inHeap).mp ordered }⟩

/-- Where sorting was the last thing done in any run, be it on its own or at the end of collecting
the candidates anew, they are in a row: no region has more bytes to free than one before it. They
are taken in the order of the row and put back in reverse, in any interleaving, and what is left is
determined by how many are out. -/
theorem reached_drains {heap : Array Region} {options : Options} {operations : List Operation}
    {last : Operation} {before reached : Consumption}
    (made : Chooser.ofHeap heap options = .ok chooser)
    (allowed : Allows { chooser, taken := [] } operations)
    (done : run { chooser, taken := [] } operations = .ok before)
    (sorts : last.Sorts) (allowedLast : last.Allowed before)
    (sorted : before.perform last = .ok reached)
    (short : reached.chooser.remainingBytes < wordLimit) :
    ∃ row, reached.chooser.Lined row ∧ reached.chooser.Drains row := by
  obtain ⟨_, keeps, _⟩ := (keeps_ofHeap made).1.run allowed done
  obtain ⟨nothingOut, order, kept, ordered, unmarked⟩ :=
    (keeps.sorts_ensures sorts allowedLast).of_ok sorted
  obtain ⟨row, lined⟩ := kept.lined unmarked nothingOut ordered short
  exact ⟨row, lined, lined.drains⟩

/-- Both candidates of the sample are appended and sorted, the second of them to the front. -/
theorem sample_drains : ∃ row : List Region, row.map Region.index = [2, 0] ∧
    (sampleState #[some 2, some 0] 0 185 []).chooser.Drains row := by
  have made : Chooser.ofHeap Chooser.sample.heap { Options.default 1 with regionBytes := 100 } =
      .ok (sampleState #[] 0 0 []).chooser := rfl
  have ran : (sampleState #[] 0 0 []).Allows
        [.add (Region.old 0 10 90), .add (Region.old 2 40 95)] ∧
      (sampleState #[] 0 0 []).run [.add (Region.old 0 10 90), .add (Region.old 2 40 95)] =
        .ok (sampleState #[some 0, some 2] 0 185 []) := by
    refine permitted_cons (sampleState #[some 0] 0 90 [])
      ⟨Array.mem_iff_getElem?.mpr ⟨0, rfl⟩, rfl⟩ rfl ?_
    exact permitted_cons (sampleState #[some 0, some 2] 0 185 [])
      ⟨Array.mem_iff_getElem?.mpr ⟨2, rfl⟩, rfl⟩ rfl ⟨trivial, rfl⟩
  have ranked : (sampleState #[some 0, some 2] 0 185 []).chooser.sort.outcome =
      .ok (sampleState #[some 2, some 0] 0 185 []).chooser :=
    Chooser.sort_of_row rfl (Chooser.sortedSlots_pair (by decide)) (by decide) rfl rfl rfl
  have sorted : (sampleState #[some 0, some 2] 0 185 []).perform .sort =
      .ok (sampleState #[some 2, some 0] 0 185 []) := by
    unfold perform
    rw [ranked]
    rfl
  have sorts : Operation.sort.Sorts := trivial
  obtain ⟨row, lined, drains⟩ := reached_drains made ran.1 ran.2 sorts trivial sorted (by decide)
  have slots : [2, 0].map some = (row.map Region.index).map some := lined.slots
  exact ⟨row, (List.map_injective_iff.mpr (Option.some_injective Nat) slots).symm, drains⟩

end Consumption

end CollectorMemory
