import CollectorMemory.Proofs.Candidates.Accounting
import CollectorMemory.Proofs.Candidates.Ranking

/-!
# Candidates that come late

One thread appends candidates, sorts them, takes some and appends more. Sorting all of them again
ranks what is left together with what came late, as long as no candidate that was taken is still out
(`Consumption.reached_merged`). A candidate that is out leaves an empty slot before the front, which
sorting brings to the end among the slots that it counts, so that it stops there. It would stop as
well where the index of a candidate is the mark of an empty slot, so the heap has no region for it.
-/

namespace CollectorMemory

variable {excuse : Prop} {chooser : Chooser} {region : Region} {order : List Nat}
  {late : List Region}

namespace Chooser

/-- Where workers claimed no slots and there are as many slots as are counted, one empty slot among
them stops sorting. -/
theorem sort_of_gap (nobody : chooser.cursor = 0) (full : chooser.capacity = chooser.length)
    (gap : none ∈ chooser.slots.toList) :
    chooser.sort.outcome = .error (.candidates .unsortedGap) := by
  have all : chooser.claimedSlots = .ok chooser.slots.toList :=
    if_neg (by rw [nobody]; exact Nat.lt_irrefl 0)
  have length : (chooser.sortedSlots chooser.slots.toList).length = chooser.length := by
    rw [sortedSlots, List.length_mergeSort]
    exact full
  have stays : none ∈ chooser.sortedSlots chooser.slots.toList := List.mem_mergeSort.mpr gap
  have unfilled : (chooser.sortedSlots chooser.slots.toList).all Option.isSome = false :=
    List.all_eq_false.mpr ⟨none, stays, Bool.false_ne_true⟩
  unfold sort
  rw [Run.outcome_bind, Run.outcome_liftM, all]
  change Except.bind (.ok _) _ = _
  dsimp only [Except.bind]
  rw [List.take_of_length_le (Nat.le_of_eq length), length, unfilled,
    decide_eq_true (Nat.le_refl chooser.length)]
  rfl

end Chooser

namespace Consumption

variable {state start reached : Consumption} {operations : List Operation}

/-- An operation of one thread, without workers. -/
def Operation.IsSerial : Operation → Prop
  | rebuild _ _ _ => False
  | add _ | pop | push _ | peek | iterate _ _ | clear | sort => True

/-- Operations of one thread leave the cursor of workers at the first slot. -/
theorem perform_serial {operation : Operation} (serial : operation.IsSerial)
    (nobody : state.chooser.cursor = 0) :
    Ensures True (state.perform operation) fun next => next.chooser.cursor = 0 := by
  cases operation with
  | add region =>
    apply Ensures.bind Chooser.add_unshared
    rintro after ⟨unshared, _⟩
    exact unshared.cursor.trans nobody
  | pop =>
    apply Ensures.bind Chooser.pop_unshared
    intro result unshared
    match result with
    | none => exact nobody
    | some (region, after) => exact (unshared region after rfl).cursor.trans nobody
  | push region =>
    apply Ensures.bind Chooser.push_unshared
    intro after unshared
    exact unshared.cursor.trans nobody
  | peek =>
    apply Ensures.bind (ensures_excused _)
    intro _ _
    exact nobody
  | iterate process start =>
    apply Ensures.bind (ensures_excused _)
    intro _ _
    exact nobody
  | clear => rfl
  | rebuild schedule workers regions => exact serial.elim
  | sort =>
    apply Ensures.bind Chooser.sort_unshared
    intro after unshared
    exact unshared.cursor.trans nobody

/-- Runs of one thread leave the cursor of workers at the first slot. -/
theorem run_serial (serial : ∀ operation ∈ operations, operation.IsSerial)
    (nobody : start.chooser.cursor = 0) :
    Ensures True (start.run operations) fun reached => reached.chooser.cursor = 0 := by
  induction operations generalizing start with
  | nil => exact nobody
  | cons operation rest ih =>
    unfold run
    rw [List.foldlM_cons]
    apply Ensures.bind (perform_serial (serial operation List.mem_cons_self) nobody)
    intro next nobodyNext
    exact ih (fun other member => serial other (List.mem_cons_of_mem operation member)) nobodyNext

/-- A new chooser has no slots that workers claimed. -/
theorem cursor_ofHeap {heap : Array Region} {options : Options}
    (made : Chooser.ofHeap heap options = .ok chooser) : chooser.cursor = 0 := by
  have fresh : Ensures True (Chooser.ofHeap heap options) fun chooser => chooser.cursor = 0 := by
    unfold Chooser.ofHeap
    apply Ensures.bind (ensures_excused _)
    intro _ _
    apply Ensures.bind (ensures_excused _)
    intro _ _
    rfl
  exact fresh.of_ok made

/-- Candidates that come late are appended after those that are left. -/
theorem Keeps.addEach_ensures (keeps : state.Keeps order)
    (allowed : ∀ region ∈ late, (Operation.add region).Allowed state)
    (short : state.chooser.remainingBytes + (late.map Region.reclaimableBytes).sum < wordLimit) :
    Ensures excuse (late.foldlM Chooser.add state.chooser) fun after =>
      Keeps { state with chooser := after } (order ++ late.map Region.index) ∧
        state.chooser.Unshared after ∧ after.remainingBytes =
          state.chooser.remainingBytes + (late.map Region.reclaimableBytes).sum := by
  induction late generalizing state order with
  | nil =>
    rw [List.map_nil, List.append_nil]
    exact ⟨keeps, ⟨Chooser.Alike.refl _, rfl⟩, rfl⟩
  | cons region rest ih =>
    rw [List.map_cons, List.sum_cons] at short
    rw [List.foldlM_cons]
    apply Ensures.bind ((keeps.add_ensures (allowed region List.mem_cons_self)
      fun _ => by omega).and Chooser.add_unshared)
    rintro next ⟨kept, unshared, bytes⟩
    have allowedNext : ∀ other ∈ rest,
        (Operation.add other).Allowed { state with chooser := next } := by
      intro other member
      obtain ⟨inHeap, should⟩ := allowed other (List.mem_cons_of_mem region member)
      exact ⟨by rw [unshared.heap]; exact inHeap, by rw [unshared.shouldAdd]; exact should⟩
    apply (ih kept allowedNext (by rw [bytes]; omega)).mono
    rintro after ⟨keptAfter, later, total⟩
    refine ⟨?_, unshared.trans later, ?_⟩
    · rw [List.append_assoc] at keptAfter
      exact keptAfter
    · rw [total, bytes, List.map_cons, List.sum_cons, Nat.add_assoc]

/-- What is found in the slots are the candidates that are left. -/
theorem Keeps.filled_eq (keeps : state.Keeps order) (unmarked : Slot.emptyMark ∉ order) :
    state.chooser.filled = order := by
  unfold Chooser.filled
  rw [keeps.slots, List.filterMap_append, List.filterMap_replicate_of_none rfl, List.nil_append,
    Slot.filterMap_ofIndex, Slot.kept_of_unmarked unmarked]

/-- Where no candidate is out and workers claimed no slots, the candidates are ready to be sorted. -/
theorem Keeps.loaded (keeps : state.Keeps order) (unmarked : Slot.emptyMark ∉ order)
    (nothingOut : state.taken = []) (nobody : state.chooser.cursor = 0)
    (short : state.chooser.remainingBytes < wordLimit) : state.chooser.Loaded where
  front := by rw [keeps.front, nothingOut]; rfl
  candidates := by rw [keeps.filled_eq unmarked]; exact keeps.candidates
  length := by rw [keeps.filled_eq unmarked, keeps.length, nothingOut]; exact Nat.zero_add _
  bytes := by rw [keeps.filled_eq unmarked]; exact keeps.bytes
  short := short
  claimed := Or.inl nobody

/-- After any run of one thread, candidates that come late are appended. If no candidate is out then
and the heap has no region for the mark of an empty slot, sorting returns: it ranks the candidates that
were left and those that came late, which are the filled slots afterwards, and the check passes. If any
candidate is out, sorting stops with the fault that not all of the slots that it counts are filled. -/
theorem reached_merged {heap : Array Region} {options : Options}
    (made : Chooser.ofHeap heap options = .ok chooser)
    (serial : ∀ operation ∈ operations, operation.IsSerial)
    (allowed : Allows { chooser, taken := [] } operations)
    (done : run { chooser, taken := [] } operations = .ok reached)
    (candidates : ∀ region ∈ late, (Operation.add region).Allowed reached)
    (short : reached.chooser.remainingBytes + (late.map Region.reclaimableBytes).sum < wordLimit) :
    ∃ full, late.foldlM Chooser.add reached.chooser = .ok full ∧
      (heap.size ≤ Slot.emptyMark → reached.taken = [] → ∃ order,
        full.sort.outcome = .ok (full.arranged order) ∧
        full.Ranking (reached.chooser.filled ++ late.map Region.index) order ∧
        full.front = 0 ∧ full.length = order.length ∧
        full.remainingBytes = full.bytesOf order ∧ (full.arranged order).audit = .ok ()) ∧
      (reached.taken ≠ [] → full.sort.outcome = .error (.candidates .unsortedGap)) := by
  obtain ⟨fresh, isHeap⟩ := keeps_ofHeap made
  obtain ⟨order, keeps, alike⟩ := fresh.run allowed done
  have nobody : reached.chooser.cursor = 0 :=
    (run_serial serial (cursor_ofHeap made)).of_ok done
  obtain ⟨full, added, kept, unshared, total⟩ :=
    (keeps.addEach_ensures candidates short).exists_ok
  have nobodyFull : full.cursor = 0 := unshared.cursor.trans nobody
  refine ⟨full, added, fun few nothingOut => ?_, fun someOut => ?_⟩
  · have sameHeap : full.heap = heap := unshared.heap.trans (alike.heap.trans isHeap)
    have unmarkedFull : Slot.emptyMark ∉ order ++ late.map Region.index :=
      kept.unmarked (sameHeap.symm ▸ few)
    have unmarked : Slot.emptyMark ∉ order := fun marked =>
      unmarkedFull (List.mem_append_left _ marked)
    have loaded : full.Loaded :=
      kept.loaded unmarkedFull nothingOut nobodyFull (by rw [total]; exact short)
    obtain ⟨sorted, done, ranking, capacity, passes⟩ := loaded.sort_ranked
    refine ⟨sorted, done, ?_, loaded.front, ?_, ?_, passes⟩
    · rw [keeps.filled_eq unmarked, ← kept.filled_eq unmarkedFull]
      exact ranking
    · rw [loaded.length, ranking.perm.length_eq]
    · rw [loaded.bytes, Chooser.bytesOf_perm ranking.perm]
  · refine Chooser.sort_of_gap nobodyFull kept.queues.capacity_eq ?_
    have slots : full.slots.toList =
        List.replicate reached.taken.length none ++
          (order ++ late.map Region.index).map Slot.ofIndex :=
      kept.slots
    rw [slots]
    exact List.mem_append_left _ (List.mem_replicate.mpr
      ⟨fun isZero => someOut (List.eq_nil_of_length_eq_zero isZero), rfl⟩)

/-- A chooser over three regions that no worker filled. -/
def tripleState (slots : Array (Option Nat)) (front bytes : Nat) (taken : List Region) :
    Consumption where
  chooser := {
    heap := #[Region.old 0 0 10, Region.old 1 0 30, Region.old 2 0 20]
    slots, front, length := slots.size, cursor := 0, threshold := 850, remainingBytes := bytes
    audited := true }
  taken

/-- Two of the three regions are appended and sorted, before anything else is done. -/
theorem tripleState_run (rest : List Operation)
    (later : (tripleState #[some 1, some 0] 0 40 []).Allows rest ∧
      (tripleState #[some 1, some 0] 0 40 []).run rest = .ok reached) :
    (tripleState #[] 0 0 []).Allows
      (.add (Region.old 0 0 10) :: .add (Region.old 1 0 30) :: .sort :: rest) ∧
    (tripleState #[] 0 0 []).run
      (.add (Region.old 0 0 10) :: .add (Region.old 1 0 30) :: .sort :: rest) = .ok reached := by
  have ranked : (tripleState #[some 0, some 1] 0 40 []).chooser.sort.outcome =
      .ok (tripleState #[some 1, some 0] 0 40 []).chooser :=
    Chooser.sort_of_row rfl (Chooser.sortedSlots_pair (by decide)) (by decide) rfl rfl rfl
  refine permitted_cons (tripleState #[some 0] 0 10 [])
    ⟨Array.mem_iff_getElem?.mpr ⟨0, rfl⟩, rfl⟩ rfl ?_
  refine permitted_cons (tripleState #[some 0, some 1] 0 40 [])
    ⟨Array.mem_iff_getElem?.mpr ⟨1, rfl⟩, rfl⟩ rfl ?_
  refine permitted_cons (tripleState #[some 1, some 0] 0 40 []) trivial ?_ later
  unfold perform
  rw [ranked]
  rfl

/-- The three regions make a new chooser. -/
theorem tripleState_made : Chooser.ofHeap (tripleState #[] 0 0 []).chooser.heap
    { Options.default 1 with regionBytes := 1000 } = .ok (tripleState #[] 0 0 []).chooser := rfl

/-- The third region comes before any other was taken, and is ranked with them. -/
theorem tripleState_merged : ∃ full order,
    [Region.old 2 0 20].foldlM Chooser.add (tripleState #[some 1, some 0] 0 40 []).chooser =
      .ok full ∧
    full.sort.outcome = .ok (full.arranged order) ∧ full.Ranking [1, 0, 2] order ∧
    (full.arranged order).audit = .ok () := by
  have ran := tripleState_run [] ⟨trivial, rfl⟩
  have serial : ∀ operation ∈ [Operation.add (Region.old 0 0 10), .add (Region.old 1 0 30), .sort],
      operation.IsSerial := by
    intro operation member
    rcases List.mem_cons.mp member with rfl | later
    · trivial
    rcases List.mem_cons.mp later with rfl | last
    · trivial
    · rw [List.mem_singleton.mp last]
      trivial
  have candidates : ∀ region ∈ [Region.old 2 0 20],
      (Operation.add region).Allowed (tripleState #[some 1, some 0] 0 40 []) := by
    intro region member
    rw [List.mem_singleton.mp member]
    exact ⟨Array.mem_iff_getElem?.mpr ⟨2, rfl⟩, rfl⟩
  obtain ⟨full, added, merges, _⟩ :=
    reached_merged tripleState_made serial ran.1 ran.2 candidates (by decide)
  obtain ⟨order, done, ranking, _, _, _, passes⟩ := merges (by decide) rfl
  exact ⟨full, order, added, done, ranking, passes⟩

/-- The third region comes after one of the others was taken, and sorting stops. -/
theorem tripleState_sort_stops : ∃ reached full,
    (tripleState #[] 0 0 []).Allows
      [.add (Region.old 0 0 10), .add (Region.old 1 0 30), .sort, .pop] ∧
    (tripleState #[] 0 0 []).run
      [.add (Region.old 0 0 10), .add (Region.old 1 0 30), .sort, .pop] = .ok reached ∧
    (Operation.add (Region.old 2 0 20)).Allowed reached ∧
    reached.chooser.add (Region.old 2 0 20) = .ok full ∧
    full.sort.outcome = .error (.candidates .unsortedGap) := by
  have ran := tripleState_run [.pop]
    (permitted_cons (tripleState #[none, some 0] 1 10 [Region.old 1 0 30]) trivial rfl ⟨trivial, rfl⟩)
  exact ⟨_, (tripleState #[none, some 0, some 2] 1 30 []).chooser, ran.1, ran.2,
    ⟨Array.mem_iff_getElem?.mpr ⟨2, rfl⟩, rfl⟩, rfl,
    Chooser.sort_of_gap rfl rfl List.mem_cons_self⟩

end Consumption

end CollectorMemory
