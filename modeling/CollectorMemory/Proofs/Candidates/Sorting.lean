import CollectorMemory.Candidates.Sorting
import CollectorMemory.Proofs.Candidates.Selection
import CollectorMemory.Proofs.Ensures
import Mathlib.Data.List.Forall2

/-!
# Sorting candidates

Sorting keeps the indices that are found in the slots, each as often as before, and orders them by
the bytes that they would free, most of them first; indices with equally many stay in their order
(`Chooser.Ranking`). All slots are filled afterwards, and the check of the candidates passes. It
passes in every state in which the slots before the front are empty and those from the front on hold
candidates in order (`Chooser.Queues`). What sorting does where it returns, in whatever state, is
`Chooser.SortsTo`.
-/

namespace CollectorMemory.Chooser

variable {excuse : Prop} {chooser : Chooser} {indices order : List Nat} {slots : List (Option Nat)}
  {region : Region} {active : List Region} {position offset index left right : Nat}

/-- The indices are of candidates in the heap. -/
def Candidates (chooser : Chooser) (indices : List Nat) : Prop :=
  ∀ index ∈ indices, ∃ region, chooser.heap[index]? = some region ∧ chooser.shouldAdd region = true

/-- No region has more bytes to free than one before it. -/
def Ordered (chooser : Chooser) (indices : List Nat) : Prop :=
  indices.Pairwise fun left right => chooser.bytesAt right ≤ chooser.bytesAt left

/-- The order that sorting gives to indices. -/
structure Ranking (chooser : Chooser) (indices order : List Nat) : Prop where
  /-- Each index is there as often as before. -/
  perm : order.Perm indices
  /-- No region has more bytes to free than one before it. -/
  ordered : chooser.Ordered order
  /-- The indices with equally many bytes to free stay in their order. -/
  stable : ∀ bytes, order.filter (fun index => chooser.bytesAt index == bytes) =
    indices.filter (fun index => chooser.bytesAt index == bytes)

/-- The slots before the front are empty, and those from the front on have the given contents. -/
structure Queues (chooser : Chooser) (contents : List (Option Nat)) : Prop where
  /-- The contents come after empty slots. -/
  slots : chooser.slots.toList = List.replicate chooser.front none ++ contents
  /-- There are no slots after the end. -/
  length : chooser.length = chooser.front + contents.length

/-- The order of slot contents is transitive. -/
theorem mayPrecede_trans {first second third : Option Region}
    (before : mayPrecede first second = true)
    (after : mayPrecede second third = true) : mayPrecede first third = true := by
  cases first <;> cases second <;> cases third <;> simp_all [mayPrecede]
  exact Nat.le_trans after before

/-- One of two slot contents may stand before the other. -/
theorem mayPrecede_total (first second : Option Region) :
    (mayPrecede first second || mayPrecede second first) = true := by
  cases first <;> cases second <;> simp [mayPrecede]
  exact Nat.le_total _ _

/-- The content of a slot that holds an index of the heap. -/
theorem regionOf_some (found : chooser.heap[index]? = some region) :
    chooser.regionOf (some index) = some region := found

/-- An index of the heap may stand before another one if it has as many bytes to free. -/
theorem mayPrecede_iff (known : chooser.Candidates [left, right]) :
    mayPrecede (chooser.regionOf (some left)) (chooser.regionOf (some right)) = true ↔
      chooser.bytesAt right ≤ chooser.bytesAt left := by
  obtain ⟨first, foundFirst, _⟩ := known left List.mem_cons_self
  obtain ⟨second, foundSecond, _⟩ := known right (List.mem_cons_of_mem left List.mem_cons_self)
  rw [regionOf_some foundFirst, regionOf_some foundSecond, bytesAt_of_found foundFirst,
    bytesAt_of_found foundSecond]
  exact decide_eq_true_iff

/-- In slots in order those that are filled come first. -/
theorem take_filled_of_pairwise (known : chooser.Candidates (slots.filterMap id))
    (sorted : slots.Pairwise fun left right =>
      mayPrecede (chooser.regionOf left) (chooser.regionOf right) = true) :
    slots.take (slots.filterMap id).length = (slots.filterMap id).map some ∧
      chooser.Ordered (slots.filterMap id) := by
  induction slots with
  | nil => exact ⟨rfl, List.Pairwise.nil⟩
  | cons slot rest ih =>
    obtain ⟨first, restSorted⟩ := List.pairwise_cons.mp sorted
    cases slot with
    | none =>
      have nothing : rest.filterMap id = [] := by
        apply List.filterMap_eq_nil_iff.mpr
        intro other member
        cases other with
        | none => rfl
        | some index =>
          have isFound : index ∈ rest.filterMap id := List.mem_filterMap.mpr ⟨some index, member, rfl⟩
          obtain ⟨region, found, _⟩ := known index isFound
          have before := first (some index) member
          rw [regionOf_some found] at before
          cases before
      change (none :: rest).take (rest.filterMap id).length = (rest.filterMap id).map some ∧
        chooser.Ordered (rest.filterMap id)
      rw [nothing]
      exact ⟨rfl, List.Pairwise.nil⟩
    | some index =>
      have knownRest : chooser.Candidates (rest.filterMap id) :=
        fun other member => known other (List.mem_cons_of_mem index member)
      obtain ⟨filledFirst, ordered⟩ := ih knownRest restSorted
      refine ⟨congrArg (some index :: ·) filledFirst, List.pairwise_cons.mpr ⟨fun other member => ?_,
        ordered⟩⟩
      obtain ⟨_, inRest, rfl⟩ := List.mem_filterMap.mp member
      refine (mayPrecede_iff fun one isOne => known one ?_).mp (first _ inRest)
      rcases List.mem_cons.mp isOne with rfl | isOther
      · exact List.mem_cons_self
      · rw [List.mem_singleton.mp isOther]
        exact List.mem_cons_of_mem index member

/-- Filled slots with equally many bytes to free may stand in any order. -/
theorem pairwise_equal_bytes (bytes : Nat) (known : chooser.Candidates (slots.filterMap id)) :
    (slots.filter fun slot => slot.any (chooser.bytesAt · == bytes)).Pairwise fun left right =>
      mayPrecede (chooser.regionOf left) (chooser.regionOf right) = true := by
  apply List.pairwise_of_forall_mem_list
  intro left isLeft right isRight
  obtain ⟨inLeft, passesLeft⟩ := List.mem_filter.mp isLeft
  obtain ⟨inRight, passesRight⟩ := List.mem_filter.mp isRight
  obtain ⟨first, rfl, isFirst⟩ := (Option.any_eq_true _ _).mp passesLeft
  obtain ⟨second, rfl, isSecond⟩ := (Option.any_eq_true _ _).mp passesRight
  refine (mayPrecede_iff fun index member => known index ?_).mpr ?_
  · rcases List.mem_cons.mp member with rfl | isOther
    · exact List.mem_filterMap.mpr ⟨_, inLeft, rfl⟩
    · rw [List.mem_singleton.mp isOther]
      exact List.mem_filterMap.mpr ⟨_, inRight, rfl⟩
  · rw [beq_iff_eq.mp isFirst, beq_iff_eq.mp isSecond]

/-- Sorting slots leaves the indices with equally many bytes to free in their order. -/
theorem sortedSlots_stable (known : chooser.Candidates (slots.filterMap id)) (bytes : Nat) :
    ((chooser.sortedSlots slots).filterMap id).filter (fun index => chooser.bytesAt index == bytes) =
      (slots.filterMap id).filter fun index => chooser.bytesAt index == bytes := by
  have perm : (chooser.sortedSlots slots).Perm slots := List.mergeSort_perm slots _
  have stays : (slots.filter fun slot => slot.any (chooser.bytesAt · == bytes)).Sublist
      (chooser.sortedSlots slots) :=
    @List.sublist_mergeSort _ (fun left right =>
      mayPrecede (chooser.regionOf left) (chooser.regionOf right)) slots
      (fun _ _ _ => mayPrecede_trans) (fun _ _ => mayPrecede_total _ _) _
      (pairwise_equal_bytes bytes known) List.filter_sublist
  have found : (slots.filter fun slot => slot.any (chooser.bytesAt · == bytes)).filterMap id =
      (slots.filterMap id).filter fun index => chooser.bytesAt index == bytes := by
    rw [List.filterMap_filter, List.filter_filterMap]
    apply List.filterMap_congr
    intro slot _
    cases slot <;> simp [Option.filter]
  have part := (stays.filterMap id).filter fun index => chooser.bytesAt index == bytes
  rw [found, List.filter_filter, List.filter_congr fun _ _ => Bool.and_self _] at part
  exact (part.eq_of_length ((perm.filterMap id).filter _).length_eq.symm).symm

/-- Sorting keeps what is found in the slots and brings it to the front, in order. -/
theorem exists_sorted (known : chooser.Candidates (slots.filterMap id)) :
    ∃ order, chooser.Ranking (slots.filterMap id) order ∧
      order.length ≤ (chooser.sortedSlots slots).length ∧
      (chooser.sortedSlots slots).take order.length = order.map some := by
  have perm : (chooser.sortedSlots slots).Perm slots := List.mergeSort_perm slots _
  have sorted : (chooser.sortedSlots slots).Pairwise fun left right =>
      mayPrecede (chooser.regionOf left) (chooser.regionOf right) = true :=
    @List.pairwise_mergeSort _ (fun left right =>
      mayPrecede (chooser.regionOf left) (chooser.regionOf right))
      (fun _ _ _ => mayPrecede_trans) (fun _ _ => mayPrecede_total _ _) slots
  have samePart := perm.filterMap id
  obtain ⟨filledFirst, ordered⟩ := take_filled_of_pairwise
    (fun index member => known index (samePart.mem_iff.mp member)) sorted
  exact ⟨_, ⟨samePart, ordered, sortedSlots_stable known⟩, List.length_filterMap_le id _,
    filledFirst⟩

/-- The slots that workers did not claim are left out, and nothing is found there. -/
theorem claimedSlots_ensures (trimmed : 0 < chooser.cursor → chooser.cursor ≤ chooser.slots.size ∧
      ∀ slot ∈ chooser.slots.toList.drop chooser.cursor, slot = none) :
    Ensures excuse chooser.claimedSlots fun slots => slots.filterMap id = chooser.filled := by
  unfold claimedSlots
  split
  · next claimed =>
    obtain ⟨within, empty⟩ := trimmed claimed
    apply Ensures.bind (ensures_require fun _ => decide_eq_true within)
    intro _ _
    have nothing : (chooser.slots.toList.drop chooser.cursor).filterMap id = [] :=
      List.filterMap_eq_nil_iff.mpr fun slot member => empty slot member
    have both := congrArg (List.filterMap id)
      (List.take_append_drop chooser.cursor chooser.slots.toList)
    rw [List.filterMap_append, nothing, List.append_nil] at both
    exact both
  · rfl

/-- Positions in a row are found at an offset from the first. -/
theorem exists_offset {start length : Nat} (member : position ∈ List.range' start length) :
    ∃ offset < length, position = start + offset := by
  obtain ⟨least, most⟩ := List.mem_range'_1.mp member
  exact ⟨position - start, by omega, by omega⟩

/-- What is known of the values at all positions of a list is known of the values along the list. -/
theorem forall₂_of_positions {α β : Type} {values : List α} {results : List β} {start : Nat}
    {relation : α → β → Prop}
    (each : List.Forall₂ (fun position result => ∃ offset value, position = start + offset ∧
      values[offset]? = some value ∧ relation value result)
      (List.range' start values.length) results) :
    List.Forall₂ relation values results := by
  obtain ⟨length, isRelated⟩ := List.forall₂_iff_get.mp each
  rw [List.length_range'] at length
  refine List.forall₂_iff_get.mpr ⟨length, fun position inside insideResults => ?_⟩
  obtain ⟨offset, value, isPosition, isValue, related⟩ :=
    isRelated position (by rw [List.length_range']; exact inside) insideResults
  rw [List.get_eq_getElem, List.getElem_range', Nat.one_mul] at isPosition
  obtain rfl := Nat.add_left_cancel isPosition
  rw [List.getElem?_eq_getElem inside] at isValue
  rw [← Option.some.inj isValue] at related
  exact related

/-- Candidates in order pass the check of their order. -/
theorem auditOrder_ensures (ordered : active.Pairwise fun previous current =>
      current.reclaimableBytes ≤ previous.reclaimableBytes) :
    Ensures excuse (auditOrder active) fun _ => True := by
  induction active with
  | nil => trivial
  | cons previous rest ih =>
    obtain ⟨first, restOrdered⟩ := List.pairwise_cons.mp ordered
    cases rest with
    | nil => trivial
    | cons current rest =>
      unfold auditOrder
      apply Ensures.bind (ensures_require fun _ => decide_eq_true (first current List.mem_cons_self))
      intro _ _
      exact ih restOrdered

/-- Nothing is found in a slot that is empty. -/
theorem candidateAt_empty (content : chooser.slots[position]? = some none) :
    chooser.candidateAt position = .ok none := by
  obtain ⟨inside, isContent⟩ := Array.getElem?_eq_some_iff.mp content
  simp [candidateAt, inside, isContent]

/-- The region of the index in a slot is found there. -/
theorem candidateAt_filled (content : chooser.slots[position]? = some (some index))
    (found : chooser.heap[index]? = some region) :
    chooser.candidateAt position = .ok (some region) := by
  obtain ⟨inside, isContent⟩ := Array.getElem?_eq_some_iff.mp content
  simp [candidateAt, inside, isContent, found]

namespace Queues

section Contents

variable {contents : List (Option Nat)} (queues : chooser.Queues contents)

include queues

/-- The slots before the front are empty. -/
theorem slot_before (before : position < chooser.front) :
    chooser.slots[position]? = some none := by
  rw [← Array.getElem?_toList, queues.slots, List.getElem?_append_left (by simpa using before),
    List.getElem?_replicate_of_lt before]

/-- The slots from the front on have the contents. -/
theorem slot_active (offset : Nat) :
    chooser.slots[chooser.front + offset]? = contents[offset]? := by
  rw [← Array.getElem?_toList, queues.slots, List.getElem?_append_right (by simp)]
  simp

/-- There are as many slots as are counted. -/
theorem capacity_eq : chooser.capacity = chooser.length := by
  have size := congrArg List.length queues.slots
  rw [List.length_append, List.length_replicate, Array.length_toList] at size
  exact size.trans queues.length.symm

end Contents

variable (queues : chooser.Queues (order.map some))

include queues

/-- A slot from the front on holds the candidate that comes there in the order. -/
theorem candidateAt_ensures (known : chooser.Candidates order) (inside : offset < order.length) :
    Ensures excuse (chooser.candidateAt (chooser.front + offset)) fun result => ∃ region,
      result = some region ∧ ∃ index, order[offset]? = some index ∧
        chooser.heap[index]? = some region ∧ chooser.shouldAdd region = true := by
  obtain ⟨region, found, should⟩ := known order[offset] (List.getElem_mem inside)
  have content := queues.slot_active offset
  rw [List.getElem?_map, List.getElem?_eq_getElem inside] at content
  exact ensures_of_eq_ok (candidateAt_filled content found)
    ⟨region, rfl, _, List.getElem?_eq_getElem inside, found, should⟩

/-- There are as many positions from the front to the end as indices. -/
theorem length_sub : chooser.length - chooser.front = order.length := by
  rw [queues.length, Nat.add_sub_cancel_left, List.length_map]

/-- The liveness of the candidates is reported. -/
theorem reportLiveness_ensures (known : chooser.Candidates order) (phase : String) :
    Ensures excuse (chooser.reportLiveness phase).outcome fun _ => True := by
  unfold reportLiveness
  apply ensures_note
  apply ensures_note
  apply ensures_forMRun
  intro position member
  rw [queues.length_sub] at member
  obtain ⟨offset, inside, rfl⟩ := exists_offset member
  apply Ensures.bindRun (queues.candidateAt_ensures known inside)
  rintro _ ⟨region, rfl, _⟩
  trivial

/-- The check finds that nothing is left of the candidates that were taken, and all others in
order. -/
theorem audit_ensures (known : chooser.Candidates order) (ordered : chooser.Ordered order)
    (bytes : chooser.remainingBytes = chooser.bytesOf order)
    (short : chooser.remainingBytes < wordLimit) : Ensures excuse chooser.audit fun _ => True := by
  unfold audit
  rw [queues.capacity_eq, queues.length_sub]
  apply Ensures.bind (ensures_require fun _ => decide_eq_true (Nat.le_refl _))
  intro _ _
  apply Ensures.bind (ensures_require fun _ => decide_eq_true (by
    rw [queues.length]
    exact Nat.le_add_right _ _))
  intro _ _
  apply Ensures.bind (ensures_forM fun position member => ?_)
  · intro _ _
    refine Ensures.bind (ensures_mapM ?_ : Ensures excuse _ (List.Forall₂ (fun position region =>
      ∃ offset index, position = chooser.front + offset ∧ order[offset]? = some index ∧
        chooser.heap[index]? = some region ∧ chooser.shouldAdd region = true)
      (List.range' chooser.front order.length))) ?_
    · intro position member
      obtain ⟨offset, inside, rfl⟩ := exists_offset member
      apply Ensures.bind (queues.candidateAt_ensures known inside)
      rintro _ ⟨region, rfl, index, isCandidate⟩
      exact ⟨offset, index, rfl, isCandidate⟩
    intro active isActive
    have aligned := forall₂_of_positions isActive
    have isCandidate : ∀ region ∈ active, chooser.shouldAdd region = true :=
      ((List.forall₂_and_left active order).mp (aligned.imp fun _ _ both => both.symm).flip).1
    have sameBytes : order.map chooser.bytesAt = active.map Region.reclaimableBytes := by
      rw [← List.forall₂_eq_eq_eq, List.forall₂_map_left_iff, List.forall₂_map_right_iff]
      exact aligned.imp fun _ _ both => bytesAt_of_found both.1
    have orderedBytes : (active.map Region.reclaimableBytes).Pairwise
        fun left right => right ≤ left := by
      rw [← sameBytes]
      exact List.pairwise_map.mpr ordered
    apply Ensures.bind (ensures_forM fun region member => ?_)
    · intro _ _
      apply Ensures.bind (auditOrder_ensures (List.pairwise_map.mp orderedBytes))
      intro _ _
      rw [← sameBytes]
      apply Ensures.bind (Count.sum_ensures fun _ => by
        change chooser.bytesOf order < wordLimit
        rw [← bytes]
        exact short)
      rintro _ rfl
      apply (ensures_require fun _ => by
        rw [bytes]
        exact beq_self_eq_true (chooser.bytesOf order)).mono
      intro _ _
      trivial
    · obtain ⟨_, notYoung, notPinned, _⟩ := of_shouldAdd (isCandidate region member)
      apply Ensures.bind (ensures_require fun _ => by rw [notYoung]; rfl)
      intro _ _
      apply (ensures_require fun _ => by rw [notPinned]; rfl).mono
      intro _ _
      trivial
  · apply Ensures.bind (ensures_eq (candidateAt_empty
      (queues.slot_before (List.mem_range.mp member))))
    rintro _ rfl
    exact (ensures_require fun _ => rfl).mono fun _ _ => trivial

end Queues

/-- Sorting considers slots from the first one on. -/
theorem claimedSlots_eq_take :
    Ensures True chooser.claimedSlots fun slots =>
      ∃ count, slots = chooser.slots.toList.take count := by
  unfold claimedSlots
  split
  · apply Ensures.bind (ensures_require fun hard => absurd trivial hard)
    intro _ _
    exact ⟨chooser.cursor, rfl⟩
  · exact ⟨_, List.take_length.symm⟩

/-- Of two slots, the second goes first if the first may not precede it. -/
theorem sortedSlots_pair {left right : Option Nat}
    (behind : mayPrecede (chooser.regionOf left) (chooser.regionOf right) = false) :
    chooser.sortedSlots [left, right] = [right, left] := by
  simp [sortedSlots, List.mergeSort, behind]

/-- What sorting that returns has done. It leaves the candidates at the front of the order of the slots
that it considered. -/
structure SortsTo (chooser : Chooser) (slots : List (Option Nat)) (after : Chooser) : Prop where
  /-- The slots are those in consideration. -/
  claimed : chooser.claimedSlots = .ok slots
  /-- There is a slot for each candidate. -/
  enough : chooser.length ≤ (chooser.sortedSlots slots).length
  /-- The slots at the front are filled. -/
  filled : ((chooser.sortedSlots slots).take chooser.length).all Option.isSome = true
  /-- They are the slots afterwards, and nothing else changes. -/
  isAfter : after = { chooser with slots := ((chooser.sortedSlots slots).take chooser.length).toArray }
  /-- The liveness of the candidates is reported. -/
  reported : (after.reportLiveness "Post-Sorting").outcome = .ok ()
  /-- The check passes, if it is asked for. -/
  passes : checkIf after.audited after.audit = .ok ()

/-- Where faults are excused, sorting does what it does if it returns. -/
theorem sort_sortsTo : Ensures True chooser.sort.outcome fun after =>
    ∃ slots, chooser.SortsTo slots after := by
  unfold sort
  apply Ensures.bindRun (ensures_returned _)
  intro slots claimed
  apply Ensures.bindRun (ensures_require fun hard => absurd trivial hard)
  intro _ enough
  apply Ensures.bindRun (ensures_require fun hard => absurd trivial hard)
  intro _ filled
  apply Ensures.bindRun (ensures_returned _)
  intro _ reported
  apply Ensures.bindRun (ensures_returned _)
  intro _ passes
  exact ⟨slots, claimed, of_decide_eq_true enough, filled, rfl, reported, passes⟩

/-- Sorting returns exactly where all that it does can be done. -/
theorem sort_eq_ok_iff {after : Chooser} :
    chooser.sort.outcome = .ok after ↔ ∃ slots, chooser.SortsTo slots after := by
  constructor
  · exact sort_sortsTo.of_ok
  · rintro ⟨slots, claimed, enough, filled, rfl, reported, passes⟩
    have sorts : Ensures False chooser.sort.outcome fun after => after =
        { chooser with slots := ((chooser.sortedSlots slots).take chooser.length).toArray } := by
      unfold sort
      apply Ensures.bindRun (ensures_eq claimed)
      rintro _ rfl
      apply Ensures.bindRun (ensures_require fun _ => decide_eq_true enough)
      intro _ _
      apply Ensures.bindRun (ensures_require fun _ => filled)
      intro _ _
      apply Ensures.bindRun (ensures_eq reported)
      intro _ _
      apply Ensures.bindRun (ensures_eq passes)
      intro _ _
      rfl
    exact sorts.eq_ok fun _ same => same

/-- Where it is known which row the slots in consideration make, sorting leaves the candidates at the
front of it. -/
theorem sort_of_row {slots row : List (Option Nat)} (claimed : chooser.claimedSlots = .ok slots)
    (ranked : chooser.sortedSlots slots = row) (enough : chooser.length ≤ row.length)
    (filled : (row.take chooser.length).all Option.isSome = true)
    (reported : ({ chooser with slots := (row.take chooser.length).toArray }.reportLiveness
      "Post-Sorting").outcome = .ok ())
    (passes : checkIf chooser.audited
      { chooser with slots := (row.take chooser.length).toArray }.audit = .ok ()) :
    chooser.sort.outcome = .ok { chooser with slots := (row.take chooser.length).toArray } := by
  subst ranked
  exact sort_eq_ok_iff.mpr ⟨slots, claimed, enough, filled, rfl, reported, passes⟩

/-- Sorting that returns found as many filled slots as candidates are counted. -/
theorem length_le_of_sort : Ensures True chooser.sort.outcome fun _ =>
    chooser.length ≤ chooser.filled.length := by
  apply sort_sortsTo.mono
  rintro _ ⟨slots, sorts⟩
  obtain ⟨count, rfl⟩ := claimedSlots_eq_take.of_ok sorts.claimed
  have perm : (chooser.sortedSlots (chooser.slots.toList.take count)).Perm _ :=
    List.mergeSort_perm _ _
  calc chooser.length
      = ((chooser.sortedSlots (chooser.slots.toList.take count)).take chooser.length).length :=
        (List.length_take_of_le sorts.enough).symm
    _ = (((chooser.sortedSlots (chooser.slots.toList.take count)).take
          chooser.length).filterMap id).length :=
        (List.filterMap_length_eq_length.mpr fun slot member =>
          List.all_eq_true.mp sorts.filled slot member).symm
    _ ≤ ((chooser.sortedSlots (chooser.slots.toList.take count)).filterMap id).length :=
        ((List.take_sublist _ _).filterMap id).length_le
    _ = ((chooser.slots.toList.take count).filterMap id).length := (perm.filterMap id).length_eq
    _ ≤ chooser.filled.length := ((List.take_sublist _ _).filterMap id).length_le

/-- Candidates that are counted are sorted, whether one thread appended them or workers filled
slots. -/
theorem sort_ensures (known : chooser.Candidates chooser.filled) (front : chooser.front = 0)
    (trimmed : 0 < chooser.cursor → chooser.cursor ≤ chooser.slots.size ∧
      ∀ slot ∈ chooser.slots.toList.drop chooser.cursor, slot = none)
    (length : chooser.length = chooser.filled.length)
    (bytes : chooser.remainingBytes = chooser.bytesOf chooser.filled)
    (short : chooser.remainingBytes < wordLimit) :
    Ensures excuse chooser.sort.outcome fun sorted => ∃ order,
      sorted = { chooser with slots := (order.map some).toArray } ∧
        chooser.Ranking chooser.filled order := by
  unfold sort
  apply Ensures.bindRun (claimedSlots_ensures trimmed)
  intro slots isFilled
  rw [← isFilled] at known
  obtain ⟨order, ranking, within, kept⟩ := exists_sorted known
  rw [isFilled] at ranking
  rw [← ranking.perm.length_eq] at length
  have knownOrder : chooser.Candidates order := by
    rw [isFilled] at known
    exact fun index member => known index (ranking.perm.mem_iff.mp member)
  rw [← length] at within kept
  apply Ensures.bindRun (ensures_require fun _ => decide_eq_true within)
  intro _ _
  rw [kept]
  apply Ensures.bindRun (ensures_require fun _ => by simp)
  intro _ _
  have queues : Queues { chooser with slots := (order.map some).toArray } (order.map some) :=
    ⟨by rw [front]; rfl, by rw [front, length, Nat.zero_add, List.length_map]⟩
  change Ensures excuse
    ({ chooser with slots := (order.map some).toArray }.reportLiveness "Post-Sorting" >>= _).outcome _
  apply Ensures.bindRun (queues.reportLiveness_ensures knownOrder "Post-Sorting")
  intro _ _
  apply Ensures.bindRun (ensures_checkIf fun _ => queues.audit_ensures knownOrder ranking.ordered
    (bytes.trans (bytesOf_perm ranking.perm).symm) short)
  intro _ _
  exact ⟨order, rfl, ranking⟩

end CollectorMemory.Chooser
