import CollectorMemory.Candidates.Updater
import CollectorMemory.Proofs.Candidates.Selection
import CollectorMemory.Proofs.Candidates.Slots
import CollectorMemory.Proofs.Ensures
import Mathlib.Algebra.Order.BigOperators.Group.List
import Mathlib.Algebra.Order.Ring.Nat

/-!
# Filling slots in parallel

Updaters share the slots of a chooser. Each of them fills the slots of the run that it claimed last,
in their order. What is left of these runs is empty, as are the slots that nobody claimed, and no
slot is left to two updaters (`Filling`). A slot below the cursor was written or is left to some
updater, so with one more run of slots than updaters there is always a run to claim
(`Placing.cursor_le`). The slots hold what is kept of the indices that were written.
-/

namespace CollectorMemory

variable {excuse : Prop} {chunkSize : Nat} {chooser chooser' : Chooser} {region : Region}
  {updater : Updater} {updaters others : List Updater} {placed : List Nat}

namespace Updater

/-- The number of slots that are left of the run. -/
def left (updater : Updater) : Nat := updater.stop - updater.next

/-- A slot is left of the run. -/
def Owns (updater : Updater) (position : Nat) : Prop :=
  updater.next ≤ position ∧ position < updater.stop

/-- No slot is left of the runs of both updaters. -/
def Apart (updater other : Updater) : Prop :=
  ∀ position, updater.Owns position → ¬other.Owns position

/-- Being apart is symmetric. -/
theorem Apart.symm {other : Updater} (apart : updater.Apart other) : other.Apart updater :=
  fun position owns otherOwns => apart position otherOwns owns

end Updater

/-- Nothing is found in empty slots. -/
theorem Chooser.filled_of_empty (empty : ∀ slot ∈ chooser.slots.toList, slot = none) :
    chooser.filled = [] :=
  List.filterMap_eq_nil_iff.mpr fun slot member => empty slot member

/-- What is empty is filled up with empty slots. -/
theorem Chooser.prepare_ensures {workers regions : Nat} (runs : 0 < chunkSize)
    (short : ¬excuse →
      Count.nextMultiple regions chunkSize + workers * chunkSize < wordLimit) :
    Ensures excuse (chooser.clear.prepare workers regions chunkSize) fun base =>
      Count.nextMultiple regions chunkSize + workers * chunkSize < wordLimit ∧
      base = { chooser.clear with
        slots := Array.replicate
          (Count.nextMultiple regions chunkSize + workers * chunkSize) none } := by
  unfold prepare
  apply Ensures.bind (ensures_require fun _ => decide_eq_true runs)
  intro _ _
  apply Ensures.bind (Count.mul_ensures fun hard =>
    Nat.lt_of_le_of_lt (Nat.le_add_left _ _) (short hard))
  rintro _ ⟨rfl, _⟩
  apply Ensures.bind (Count.roundUp_eq_nextMultiple (fun _ => runs) fun hard =>
    Nat.lt_of_le_of_lt (Nat.le_add_right _ _) (short hard))
  rintro _ ⟨_, _, rfl⟩
  apply Ensures.bind (Count.add_ensures short)
  rintro _ ⟨rfl, isShort⟩
  refine ⟨isShort, ?_⟩
  change ({ chooser.clear with slots := #[] ++ Array.replicate _ none, cursor := 0 } : Chooser) = _
  rw [Array.empty_append]
  rfl

/-- A run of slots that are there is claimed. -/
theorem Chooser.claimSlots_ensures (room : chooser.cursor + chunkSize ≤ chooser.slots.size)
    (short : chooser.slots.size < wordLimit) :
    Ensures excuse (chooser.claimSlots chunkSize) fun result =>
      result = (chooser.cursor, { chooser with cursor := chooser.cursor + chunkSize }) := by
  unfold claimSlots
  apply Ensures.bind (Count.add_ensures fun _ => by omega)
  rintro stop ⟨rfl, _⟩
  apply Ensures.bind (ensures_require fun _ => decide_eq_true room)
  intro _ _
  rfl

/-- An old region is written to an empty slot, and all other slots stay. -/
theorem Chooser.fillSlot_ensures {position : Nat} (old : region.isOld = true)
    (empty : chooser.slots[position]? = some none) :
    Ensures excuse (chooser.fillSlot position region) fun result => ∃ slots,
      result = { chooser with slots } ∧ slots.size = chooser.slots.size ∧
      (slots.toList.filterMap id).Perm (Slot.kept [region.index] ++ chooser.filled) ∧
      ∀ other, other ≠ position → slots[other]? = chooser.slots[other]? := by
  obtain ⟨inside, isEmpty⟩ := Array.getElem?_eq_some_iff.mp empty
  unfold fillSlot
  apply Ensures.bind (ensures_require fun _ => old)
  intro _ _
  rw [dif_pos inside]
  apply Ensures.bind (ensures_require fun _ => by rw [isEmpty]; rfl)
  intro _ _
  refine ⟨_, rfl, Array.size_set inside, ?_, fun other differs =>
    Array.getElem?_set_ne inside differs.symm⟩
  rw [Array.toList_set]
  exact filterMap_write_perm (by rw [Array.getElem?_toList]; exact empty)

/-- The slots of a chooser with all updaters that fill them, and the indices that these wrote. -/
structure Placing (chunkSize : Nat) (chooser : Chooser) (updaters : List Updater)
    (placed : List Nat) : Prop where
  /-- Updaters claim equally many slots at a time. -/
  uniform : ∀ updater ∈ updaters, updater.chunkSize = chunkSize
  /-- An updater goes through one run of slots below the cursor. -/
  run : ∀ updater ∈ updaters, updater.next ≤ updater.stop ∧ updater.stop ≤ chooser.cursor ∧
    updater.stop ≤ updater.next + chunkSize
  /-- No slot is left to two updaters. -/
  apart : updaters.Pairwise Updater.Apart
  /-- The slots that are left to an updater are empty. -/
  owned : ∀ updater ∈ updaters, ∀ position, updater.Owns position →
    chooser.slots[position]? = some none
  /-- The slots that were not claimed are empty. -/
  unclaimed : ∀ position, chooser.cursor ≤ position → position < chooser.slots.size →
    chooser.slots[position]? = some none
  /-- Only slots were claimed. -/
  cursor : chooser.cursor ≤ chooser.slots.size
  /-- The slots hold what is kept of the indices that were written. -/
  held : chooser.filled.Perm (Slot.kept placed)
  /-- Slots that were claimed were written or are left to an updater. -/
  used : chooser.cursor = placed.length + (updaters.map Updater.left).sum
  /-- The updaters count what was added. -/
  added : placed.length = (updaters.map Updater.added).sum

/-- The slots of a chooser with all updaters that fill them with regions of the heap. -/
structure Filling (chunkSize : Nat) (chooser : Chooser) (updaters : List Updater)
    (placed : List Nat) : Prop extends Placing chunkSize chooser updaters placed where
  /-- The updaters count the bytes of what was added. -/
  bytes : chooser.bytesOf placed = (updaters.map Updater.bytes).sum

namespace Placing

/-- The updaters may be listed in any order. -/
theorem of_perm (placing : Placing chunkSize chooser updaters placed) (perm : updaters.Perm others) :
    Placing chunkSize chooser others placed where
  uniform updater member := placing.uniform updater (perm.mem_iff.mpr member)
  run updater member := placing.run updater (perm.mem_iff.mpr member)
  apart := (perm.pairwise_iff Updater.Apart.symm).mp placing.apart
  owned updater member := placing.owned updater (perm.mem_iff.mpr member)
  unclaimed := placing.unclaimed
  cursor := placing.cursor
  held := placing.held
  used := by rw [placing.used, (perm.map _).sum_nat]
  added := by rw [placing.added, (perm.map _).sum_nat]

/-- Counting what was added does not change the slots. -/
theorem of_same (placing : Placing chunkSize chooser updaters placed)
    (slots : chooser'.slots = chooser.slots) (cursor : chooser'.cursor = chooser.cursor) :
    Placing chunkSize chooser' updaters placed := by
  obtain ⟨_, _, _, _, _, _, _, _⟩ := chooser
  obtain ⟨_, _, _, _, _, _, _, _⟩ := chooser'
  cases slots
  cases cursor
  exact ⟨placing.uniform, placing.run, placing.apart, placing.owned, placing.unclaimed,
    placing.cursor, placing.held, placing.used, placing.added⟩

/-- In empty slots nothing was added yet. -/
theorem start {workers : Nat} (empty : ∀ slot ∈ chooser.slots.toList, slot = none)
    (cursor : chooser.cursor = 0) :
    Placing chunkSize chooser (List.replicate workers (Updater.ofChunkSize chunkSize)) [] := by
  have isOf : ∀ updater ∈ List.replicate workers (Updater.ofChunkSize chunkSize),
      updater = Updater.ofChunkSize chunkSize := fun updater => List.eq_of_mem_replicate
  have ownsNothing : ∀ position, ¬(Updater.ofChunkSize chunkSize).Owns position :=
    fun position owns => Nat.not_lt_zero position owns.2
  exact {
    uniform := fun updater member => by
      rw [isOf updater member]
      rfl
    run := fun updater member => by
      rw [isOf updater member]
      exact ⟨Nat.le_refl _, Nat.zero_le _, Nat.zero_le _⟩
    apart := List.pairwise_replicate.mpr
      (Or.inr fun position owns => absurd owns (ownsNothing position))
    owned := fun updater member position owns => by
      rw [isOf updater member] at owns
      exact absurd owns (ownsNothing position)
    unclaimed := fun position _ inside => by
      rw [Array.getElem?_eq_getElem inside]
      exact congrArg some (empty _ (Array.getElem_mem_toList inside))
    cursor := by
      rw [cursor]
      exact Nat.zero_le _
    held := by rw [Chooser.filled_of_empty empty]; exact List.Perm.refl _
    used := by
      rw [cursor, List.map_replicate, List.sum_replicate_nat]
      rfl
    added := by
      rw [List.map_replicate, List.sum_replicate_nat]
      rfl }

/-- While one updater has gone through its run, at most one run for each other updater is claimed
beyond what was written. -/
theorem cursor_le (placing : Placing chunkSize chooser (updater :: others) placed)
    (full : updater.next = updater.stop) :
    chooser.cursor ≤ placed.length + others.length * chunkSize := by
  have used := placing.used
  have rest : (others.map Updater.left).sum ≤ (others.map Updater.left).length • chunkSize := by
    apply List.sum_le_card_nsmul
    intro left member
    obtain ⟨other, isOther, rfl⟩ := List.mem_map.mp member
    have run := placing.run other (List.mem_cons_of_mem updater isOther)
    unfold Updater.left
    omega
  rw [List.map_cons, List.sum_cons, Updater.left] at used
  rw [List.length_map, Nat.nsmul_eq_mul] at rest
  omega

/-- An updater that has gone through its run goes on with the run at the cursor, if that is there. -/
theorem claimed (placing : Placing chunkSize chooser (updater :: others) placed)
    (full : updater.next = updater.stop) (room : chooser.cursor + chunkSize ≤ chooser.slots.size) :
    Placing chunkSize { chooser with cursor := chooser.cursor + chunkSize }
      ({ updater with next := chooser.cursor, stop := chooser.cursor + chunkSize } :: others)
      placed where
  uniform := List.forall_mem_cons.mpr ⟨placing.uniform updater List.mem_cons_self,
    fun other member => placing.uniform other (List.mem_cons_of_mem updater member)⟩
  run := by
    refine List.forall_mem_cons.mpr ⟨⟨Nat.le_add_right _ _, Nat.le_refl _, Nat.le_refl _⟩, ?_⟩
    intro other member
    have run := placing.run other (List.mem_cons_of_mem updater member)
    exact ⟨run.1, Nat.le_trans run.2.1 (Nat.le_add_right _ _), run.2.2⟩
  apart := by
    refine List.pairwise_cons.mpr ⟨?_, (List.pairwise_cons.mp placing.apart).2⟩
    intro other member position owns otherOwns
    have below := (placing.run other (List.mem_cons_of_mem updater member)).2.1
    have start : chooser.cursor ≤ position := owns.1
    have stop : position < other.stop := otherOwns.2
    omega
  owned := by
    refine List.forall_mem_cons.mpr ⟨fun position owns => ?_, fun other member =>
      placing.owned other (List.mem_cons_of_mem updater member)⟩
    have stop : position < chooser.cursor + chunkSize := owns.2
    exact placing.unclaimed position owns.1 (by omega)
  unclaimed := fun position beyond inside =>
    placing.unclaimed position (Nat.le_trans (Nat.le_add_right _ _) beyond) inside
  cursor := room
  held := placing.held
  used := by
    have used := placing.used
    rw [List.map_cons, List.sum_cons, Updater.left] at used
    rw [List.map_cons, List.sum_cons]
    change chooser.cursor + chunkSize = placed.length +
      (chooser.cursor + chunkSize - chooser.cursor + (others.map Updater.left).sum)
    omega
  added := placing.added

/-- A run of slots that are there is claimed. -/
theorem claim_ensures (placing : Placing chunkSize chooser (updater :: others) placed)
    (full : updater.next = updater.stop) (room : chooser.cursor + chunkSize ≤ chooser.slots.size)
    (short : chooser.slots.size < wordLimit) :
    Ensures excuse (updater.claim chooser) fun (after, chooser') =>
      chooser' = { chooser with cursor := chooser.cursor + chunkSize } ∧
      after = { updater with next := chooser.cursor, stop := chooser.cursor + chunkSize } ∧
      Placing chunkSize chooser' (after :: others) placed := by
  obtain rfl := placing.uniform updater List.mem_cons_self
  unfold Updater.claim
  apply Ensures.bind (Chooser.claimSlots_ensures room short)
  rintro _ rfl
  exact ⟨rfl, rfl, placing.claimed full room⟩

/-- An updater that wrote to the next slot of its run goes on with the rest of the run. -/
theorem written {slots : Array (Option Nat)} {bytes index : Nat}
    (placing : Placing chunkSize chooser (updater :: others) placed)
    (someLeft : updater.next < updater.stop) (size : slots.size = chooser.slots.size)
    (held : (slots.toList.filterMap id).Perm (Slot.kept [index] ++ chooser.filled))
    (stays : ∀ other, other ≠ updater.next → slots[other]? = chooser.slots[other]?) :
    Placing chunkSize { chooser with slots }
      ({ updater with next := updater.next + 1, added := updater.added + 1, bytes } :: others)
      (index :: placed) where
  uniform := List.forall_mem_cons.mpr ⟨placing.uniform updater List.mem_cons_self,
    fun other member => placing.uniform other (List.mem_cons_of_mem updater member)⟩
  run := by
    refine List.forall_mem_cons.mpr ⟨?_, fun other member =>
      placing.run other (List.mem_cons_of_mem updater member)⟩
    have run := placing.run updater List.mem_cons_self
    change updater.next + 1 ≤ updater.stop ∧ updater.stop ≤ chooser.cursor ∧
      updater.stop ≤ updater.next + 1 + chunkSize
    omega
  apart := by
    obtain ⟨first, rest⟩ := List.pairwise_cons.mp placing.apart
    refine List.pairwise_cons.mpr ⟨fun other member position owns => ?_, rest⟩
    have start : updater.next + 1 ≤ position := owns.1
    exact first other member position ⟨by omega, owns.2⟩
  owned := by
    have first := (List.pairwise_cons.mp placing.apart).1
    refine List.forall_mem_cons.mpr ⟨fun position owns => ?_, fun other member position owns => ?_⟩
    · have start : updater.next + 1 ≤ position := owns.1
      rw [stays position (by omega)]
      exact placing.owned updater List.mem_cons_self position ⟨by omega, owns.2⟩
    · rw [stays position]
      · exact placing.owned other (List.mem_cons_of_mem updater member) position owns
      · rintro rfl
        exact first other member updater.next ⟨Nat.le_refl _, someLeft⟩ owns
  unclaimed := by
    intro position beyond within
    change chooser.cursor ≤ position at beyond
    change position < slots.size at within
    have run := placing.run updater List.mem_cons_self
    rw [stays position (by omega)]
    exact placing.unclaimed position beyond (by omega)
  cursor := by
    change chooser.cursor ≤ slots.size
    rw [size]
    exact placing.cursor
  held := by
    rw [Slot.kept_cons]
    exact held.trans (placing.held.append_left _)
  used := by
    have used := placing.used
    rw [List.map_cons, List.sum_cons, Updater.left] at used
    rw [List.map_cons, List.sum_cons]
    change chooser.cursor = placed.length + 1 +
      (updater.stop - (updater.next + 1) + (others.map Updater.left).sum)
    omega
  added := by
    have added := placing.added
    rw [List.map_cons, List.sum_cons] at added
    change placed.length + 1 = updater.added + 1 + (others.map Updater.added).sum
    omega

/-- The next slot of a run is filled. -/
theorem place_ensures (placing : Placing chunkSize chooser (updater :: others) placed)
    (someLeft : updater.next < updater.stop) (old : region.isOld = true)
    (short : updater.bytes + region.reclaimableBytes < wordLimit) :
    Ensures excuse (updater.place chooser region) fun (after, chooser') =>
      (∃ slots, slots.size = chooser.slots.size ∧ chooser' = { chooser with slots }) ∧
      after = { updater with
        next := updater.next + 1
        added := updater.added + 1
        bytes := updater.bytes + region.reclaimableBytes } ∧
      Placing chunkSize chooser' (after :: others) (region.index :: placed) := by
  have empty := placing.owned updater List.mem_cons_self updater.next ⟨Nat.le_refl _, someLeft⟩
  unfold Updater.place
  apply Ensures.bind (ensures_require fun _ => decide_eq_true someLeft)
  intro _ _
  apply Ensures.bind (Chooser.fillSlot_ensures old empty)
  rintro _ ⟨slots, rfl, size, held, stays⟩
  apply Ensures.bind (Count.add_ensures fun _ => short)
  rintro _ ⟨rfl, _⟩
  exact ⟨⟨slots, size, rfl⟩, rfl, placing.written someLeft size held stays⟩

end Placing

namespace Filling

/-- The updaters may be listed in any order. -/
theorem of_perm (filling : Filling chunkSize chooser updaters placed) (perm : updaters.Perm others) :
    Filling chunkSize chooser others placed where
  toPlacing := filling.toPlacing.of_perm perm
  bytes := by rw [filling.bytes, (perm.map _).sum_nat]

/-- Counting what was added does not change the slots. -/
theorem of_same (filling : Filling chunkSize chooser updaters placed)
    (heap : chooser'.heap = chooser.heap) (slots : chooser'.slots = chooser.slots)
    (cursor : chooser'.cursor = chooser.cursor) : Filling chunkSize chooser' updaters placed where
  toPlacing := filling.toPlacing.of_same slots cursor
  bytes := by
    unfold Chooser.bytesOf Chooser.bytesAt
    rw [heap]
    exact filling.bytes

/-- In empty slots nothing was added yet. -/
theorem start {workers : Nat} (empty : ∀ slot ∈ chooser.slots.toList, slot = none)
    (cursor : chooser.cursor = 0) :
    Filling chunkSize chooser (List.replicate workers (Updater.ofChunkSize chunkSize)) [] where
  toPlacing := Placing.start empty cursor
  bytes := by
    rw [List.map_replicate, List.sum_replicate_nat]
    rfl

/-- A run of slots that are there is claimed. -/
theorem claim_ensures (filling : Filling chunkSize chooser (updater :: others) placed)
    (full : updater.next = updater.stop) (room : chooser.cursor + chunkSize ≤ chooser.slots.size)
    (short : chooser.slots.size < wordLimit) :
    Ensures excuse (updater.claim chooser) fun (after, chooser') =>
      chooser' = { chooser with cursor := chooser.cursor + chunkSize } ∧
      after = { updater with next := chooser.cursor, stop := chooser.cursor + chunkSize } ∧
      Filling chunkSize chooser' (after :: others) placed := by
  apply (filling.toPlacing.claim_ensures full room short).mono
  rintro ⟨_, _⟩ ⟨rfl, rfl, placing⟩
  exact ⟨rfl, rfl, placing, filling.bytes⟩

/-- The next slot of a run is filled with a region of the heap. -/
theorem place_ensures (filling : Filling chunkSize chooser (updater :: others) placed)
    (someLeft : updater.next < updater.stop) (old : region.isOld = true)
    (found : chooser.heap[region.index]? = some region)
    (short : updater.bytes + region.reclaimableBytes < wordLimit) :
    Ensures excuse (updater.place chooser region) fun (after, chooser') =>
      (∃ slots, slots.size = chooser.slots.size ∧ chooser' = { chooser with slots }) ∧
      after = { updater with
        next := updater.next + 1
        added := updater.added + 1
        bytes := updater.bytes + region.reclaimableBytes } ∧
      Filling chunkSize chooser' (after :: others) (region.index :: placed) := by
  apply (filling.toPlacing.place_ensures someLeft old short).mono
  rintro ⟨_, _⟩ ⟨⟨slots, size, rfl⟩, rfl, placing⟩
  refine ⟨⟨slots, size, rfl⟩, rfl, placing, ?_⟩
  have bytes := filling.bytes
  rw [List.map_cons, List.sum_cons] at bytes
  change chooser.bytesOf (region.index :: placed) =
    updater.bytes + region.reclaimableBytes + (others.map Updater.bytes).sum
  rw [Chooser.bytesOf_cons, Chooser.bytesAt_of_found found]
  omega

end Filling

end CollectorMemory
