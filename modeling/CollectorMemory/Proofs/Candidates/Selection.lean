import CollectorMemory.Candidates.Chooser
import Mathlib.Algebra.GroupWithZero.Nat
import Mathlib.Data.List.Perm.Subperm

/-!
# The regions that are selected

Which regions of the heap a chooser selects as candidates, and what their evacuation would free.
Both depend only on what stays fixed while candidates are collected: the heap and the threshold.
-/

namespace CollectorMemory.Chooser

variable {base chooser : Chooser} {regions index : Nat} {region : Region} {indices : List Nat}

/-- Whether the region at an index is selected: it should be a candidate, and the collector does not
allocate into it. -/
def selects (chooser : Chooser) (index : Nat) : Bool :=
  chooser.heap[index]?.any fun region => chooser.shouldAdd region && !region.isAllocating

/-- The indices of all regions that are selected among the first ones. -/
def selection (chooser : Chooser) (regions : Nat) : List Nat :=
  (List.range regions).filter chooser.selects

/-- The bytes that evacuating the region at an index would free. -/
def bytesAt (chooser : Chooser) (index : Nat) : Nat :=
  (chooser.heap[index]?.map Region.reclaimableBytes).getD 0

/-- The bytes that evacuating the regions at some indices would free. -/
def bytesOf (chooser : Chooser) (indices : List Nat) : Nat := (indices.map chooser.bytesAt).sum

/-- The indices in the slots that are filled, in the order of the slots. -/
def filled (chooser : Chooser) : List Nat := chooser.slots.toList.filterMap id

/-- Slots that are all filled hold what is found in them. -/
theorem filled_of_slots {order : List Nat} (slots : chooser.slots.toList = order.map some) :
    chooser.filled = order := by
  unfold filled
  rw [slots, List.filterMap_map]
  exact List.filterMap_some

/-- Each region of the heap knows its index. -/
def Indexed (chooser : Chooser) : Prop :=
  ∀ (index : Nat) (region : Region), chooser.heap[index]? = some region → region.index = index

/-- What stays fixed of a chooser while candidates are collected. -/
structure Alike (base chooser : Chooser) : Prop where
  /-- The heap stays. -/
  heap : chooser.heap = base.heap
  /-- The threshold stays. -/
  threshold : chooser.threshold = base.threshold
  /-- Whether candidates are checked stays. -/
  audited : chooser.audited = base.audited

namespace Alike

/-- A chooser is like itself. -/
theorem refl (chooser : Chooser) : Alike chooser chooser := ⟨rfl, rfl, rfl⟩

/-- What is like something that is like the first is like the first. -/
theorem trans {middle : Chooser} (first : Alike base middle) (second : Alike middle chooser) :
    Alike base chooser :=
  ⟨second.heap.trans first.heap, second.threshold.trans first.threshold,
    second.audited.trans first.audited⟩

/-- The same regions should be candidates. -/
theorem shouldAdd (alike : Alike base chooser) : chooser.shouldAdd = base.shouldAdd := by
  funext region
  unfold Chooser.shouldAdd isLowEnough
  rw [alike.threshold]

/-- The same regions are selected. -/
theorem selects (alike : Alike base chooser) : chooser.selects = base.selects := by
  funext index
  unfold Chooser.selects
  rw [alike.heap, alike.shouldAdd]

/-- The same regions are selected among the first ones. -/
theorem selection (alike : Alike base chooser) :
    chooser.selection regions = base.selection regions := by
  unfold Chooser.selection
  rw [alike.selects]

/-- Evacuation frees the same bytes. -/
theorem bytesAt (alike : Alike base chooser) : chooser.bytesAt = base.bytesAt := by
  funext index
  unfold Chooser.bytesAt
  rw [alike.heap]

/-- Evacuation of several regions frees the same bytes. -/
theorem bytesOf (alike : Alike base chooser) : chooser.bytesOf = base.bytesOf := by
  funext indices
  unfold Chooser.bytesOf
  rw [alike.bytesAt]

end Alike

/-- The bytes of a region are found at its index. -/
theorem bytesAt_of_found (found : chooser.heap[index]? = some region) :
    chooser.bytesAt index = region.reclaimableBytes := by
  unfold bytesAt
  rw [found]
  rfl

/-- Whether a region is selected is found at its index. -/
theorem selects_of_found (found : chooser.heap[index]? = some region) :
    chooser.selects index = (chooser.shouldAdd region && !region.isAllocating) := by
  unfold selects
  rw [found]
  rfl

/-- A region that is selected is in the heap and should be a candidate. -/
theorem exists_of_selects (selected : chooser.selects index) :
    ∃ region, chooser.heap[index]? = some region ∧ chooser.shouldAdd region = true := by
  obtain ⟨region, found, both⟩ := (Option.any_eq_true _ _).mp selected
  exact ⟨region, found, (Bool.and_eq_true_iff.mp both).1⟩

/-- A region that should be a candidate is old and has a complete remembered set, and it is neither
young nor pinned. -/
theorem of_shouldAdd (should : chooser.shouldAdd region = true) :
    region.isOld = true ∧ region.isYoung = false ∧ region.isPinned = false ∧
      region.hasCompleteRemSet = true := by
  simp only [shouldAdd, Bool.and_eq_true, Bool.not_eq_true'] at should
  exact ⟨should.1.1.1.1.1.1, should.1.1.1.1.1.2, should.1.1.2, should.2⟩

/-- An index is in the selection if it is among the first ones and the region there is selected. -/
theorem mem_selection :
    index ∈ chooser.selection regions ↔ index < regions ∧ chooser.selects index := by
  unfold selection
  rw [List.mem_filter, List.mem_range]

/-- No region is selected twice. -/
theorem selection_nodup : (chooser.selection regions).Nodup := List.nodup_range.filter _

@[simp] theorem bytesOf_cons :
    chooser.bytesOf (index :: indices) = chooser.bytesAt index + chooser.bytesOf indices := rfl

@[simp] theorem bytesOf_append {more : List Nat} :
    chooser.bytesOf (indices ++ more) = chooser.bytesOf indices + chooser.bytesOf more := by
  unfold bytesOf
  rw [List.map_append, List.sum_append]

/-- The bytes do not depend on the order. -/
theorem bytesOf_perm {others : List Nat} (perm : indices.Perm others) :
    chooser.bytesOf indices = chooser.bytesOf others :=
  (perm.map _).sum_nat

/-- Different regions that are selected among the first ones are at most as many as all of these,
and free at most the bytes of all of these. -/
theorem within_selection (nodup : indices.Nodup) (selected : ∀ index ∈ indices, index < regions ∧
    chooser.selects index) : indices.length ≤ regions ∧
      chooser.bytesOf indices ≤ chooser.bytesOf (chooser.selection regions) := by
  have subset : indices ⊆ chooser.selection regions := fun index member =>
    mem_selection.mpr (selected index member)
  have few := (nodup.subperm subset).length_le
  have most : (chooser.selection regions).length ≤ regions := by
    have le := List.length_filter_le chooser.selects (List.range regions)
    rw [List.length_range] at le
    exact le
  obtain ⟨part, perm, sublist⟩ := nodup.subperm subset
  obtain ⟨rest, split⟩ := sublist.exists_perm_append
  have bytes : chooser.bytesOf _ = chooser.bytesOf _ := bytesOf_perm split
  rw [bytesOf_append, bytesOf_perm perm] at bytes
  omega

end CollectorMemory.Chooser
