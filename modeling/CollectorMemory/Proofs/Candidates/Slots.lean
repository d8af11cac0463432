import CollectorMemory.Candidates.Chooser
import Mathlib.Data.List.Perm.Basic

/-!
# What slots hold

An index that is written to a slot is found there, unless it is the mark of an empty slot. What is
kept of indices that are written to slots is therefore each of them as often as it was written, the
mark left out (`Slot.kept`). Where every slot is filled, the mark was not written to any.
-/

namespace CollectorMemory

variable {index : Nat} {indices : List Nat}

namespace Slot

/-- The indices that are found after all of these were written to slots. -/
def kept (indices : List Nat) : List Nat := indices.filter fun index => index != emptyMark

/-- An index other than the mark is found where it was written. -/
theorem ofIndex_of_ne (unmarked : index ≠ emptyMark) : ofIndex index = some index :=
  if_neg unmarked

/-- A slot stays empty when the mark is written to it. -/
theorem ofIndex_emptyMark : ofIndex emptyMark = none := if_pos rfl

/-- An index other than the mark is kept. -/
theorem kept_of_ne (unmarked : index ≠ emptyMark) : kept [index] = [index] :=
  List.filter_cons_of_pos (bne_iff_ne.mpr unmarked)

/-- What is kept of several indices is what is kept of each. -/
theorem kept_cons : kept (index :: indices) = kept [index] ++ kept indices :=
  List.filter_append [index] indices

/-- What is found in slots is what is kept of the indices that were written to them. -/
theorem filterMap_ofIndex : (indices.map ofIndex).filterMap id = kept indices := by
  induction indices with
  | nil => rfl
  | cons index rest ih =>
    rw [kept_cons, ← ih]
    by_cases marked : index = emptyMark
    · rw [marked, List.map_cons, ofIndex_emptyMark]
      rfl
    · rw [List.map_cons, ofIndex_of_ne marked, kept_of_ne marked]
      rfl

/-- Indices that are not the mark are all kept. -/
theorem kept_of_unmarked (unmarked : emptyMark ∉ indices) : kept indices = indices := by
  apply List.filter_eq_self.mpr
  intro index member
  exact bne_iff_ne.mpr (ne_of_mem_of_not_mem member unmarked)

/-- Indices that are not the mark are all found where they were written. -/
theorem map_ofIndex (unmarked : emptyMark ∉ indices) : indices.map ofIndex = indices.map some := by
  apply List.map_congr_left
  intro index member
  exact ofIndex_of_ne (ne_of_mem_of_not_mem member unmarked)

/-- Where as many indices are kept as there are, the mark is not among them. -/
theorem unmarked_of_length_le (all : indices.length ≤ (kept indices).length) :
    emptyMark ∉ indices := by
  intro marked
  have fewer : (kept indices).length < indices.length := by
    apply List.length_filter_lt_length_iff_exists.mpr
    exact ⟨emptyMark, marked, by decide⟩
  omega

/-- Where all slots that indices were written to are filled, the mark is not among the indices. -/
theorem unmarked_of_filled (filled : ∀ slot ∈ indices.map ofIndex, slot.isSome = true) :
    emptyMark ∉ indices := by
  intro marked
  have isFilled := filled (ofIndex emptyMark) (List.mem_map_of_mem marked)
  rw [ofIndex_emptyMark] at isFilled
  exact Bool.false_ne_true isFilled

end Slot

/-- Writing an index to an empty slot adds what is kept of it to what is found in the slots. -/
theorem filterMap_write_perm {slots : List (Option Nat)} {position : Nat}
    (empty : slots[position]? = some none) :
    ((slots.set position (Slot.ofIndex index)).filterMap id).Perm
      (Slot.kept [index] ++ slots.filterMap id) := by
  obtain ⟨inside, isEmpty⟩ := List.getElem?_eq_some_iff.mp empty
  by_cases marked : index = Slot.emptyMark
  · rw [marked, Slot.ofIndex_emptyMark, ← isEmpty, List.set_getElem_self]
    exact List.Perm.refl _
  · have split : slots = slots.take position ++ none :: slots.drop (position + 1) := by
      rw [← isEmpty, ← List.drop_eq_getElem_cons inside, List.take_append_drop]
    rw [Slot.ofIndex_of_ne marked, Slot.kept_of_ne marked]
    conv => rhs; rw [split]
    rw [List.set_eq_take_append_cons_drop, if_pos inside, List.filterMap_append,
      List.filterMap_append]
    exact List.perm_middle

end CollectorMemory
